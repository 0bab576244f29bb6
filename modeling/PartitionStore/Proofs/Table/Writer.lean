import PartitionStore.Proofs.Table.Block
import PartitionStore.Table.Writer

/-!
# `PartitionStore.Proofs.Table.Writer`: a writer writes images

`Writer.Holds` is what is true of a writer after every entry: the bytes are a
header without a count and the block of the entries so far, and count and
register are theirs. Each entry that fits keeps it (`Holds.add`), and so does
any number of them (`Holds.addAll`). Closing such a file gives the image
(`finish_of_holds`).

A table with an entry that does not fit is not written (`addAll_of_not_fits`).
-/

set_option autoImplicit false

namespace PartitionStore.Table.Writer

open LittleEndian

/-- The writer holds `entries` and nothing else, in a file of the format. -/
structure Holds (w : Writer) (format : TableFormat)
    (entries : List (List UInt8 × List UInt8)) : Prop where
  written : w.written.toList = header format 0 ++ block entries
  count : w.count = entries.length
  register : w.register = Checksum.feed Checksum.start (block entries)

variable {w : Writer} {format : TableFormat} {entries : List (List UInt8 × List UInt8)}

/-- The block of entries is that of the first and that of the others. -/
theorem block_append (front back : List (List UInt8 × List UInt8)) :
    block (front ++ back) = block front ++ block back := List.flatMap_append ..

/-- A new writer holds no entry. -/
theorem holds_create (format : TableFormat) : Holds (create format) format [] where
  written := by simp [create, block]
  count := rfl
  register := rfl

/-- An entry that fits is added. -/
theorem Holds.add {key value : List UInt8} (h : Holds w format entries)
    (fits : Fits (key, value)) :
    ∃ w', w.add key value = .ok w' ∧ Holds w' format (entries ++ [(key, value)]) := by
  have hkey : ¬key.length ≥ lengthLimit := Nat.not_le.2 fits.1
  have hvalue : ¬value.length ≥ lengthLimit := Nat.not_le.2 fits.2
  have hblock : block (entries ++ [(key, value)]) = block entries ++ record key value := by
    rw [block_append]
    simp [block]
  rw [Writer.add, if_neg hkey, if_neg hvalue]
  refine ⟨_, rfl, ?_, ?_, ?_⟩
  · rw [hblock]
    simp [append, h.written, record]
  · simp [h.count]
  · -- Feeding the four chunks one after another is feeding the record.
    rw [hblock, Checksum.feed_append, ← h.register, record]
    simp only [Checksum.feed_append, List.foldl_cons, List.foldl_nil, append]

/-- So it is with any number of entries that fit, by induction on them. -/
theorem Holds.addAll (h : Holds w format entries) {more : List (List UInt8 × List UInt8)}
    (fits : ∀ entry ∈ more, Fits entry) :
    ∃ w', w.addAll more = .ok w' ∧ Holds w' format (entries ++ more) := by
  induction more generalizing w entries with
  | nil => exact ⟨w, rfl, by simpa using h⟩
  | cons entry rest ih =>
      obtain ⟨w₁, hadd, h₁⟩ := h.add (fits entry (List.mem_cons_self ..))
      obtain ⟨w₂, haddAll, h₂⟩ := ih h₁ fun e he => fits e (List.mem_cons_of_mem _ he)
      refine ⟨w₂, ?_, by simpa using h₂⟩
      rw [Writer.addAll, hadd]
      exact haddAll

/-- If one of the entries does not fit, the writer does not take them all. -/
theorem addAll_of_not_fits (h : ¬∀ entry ∈ entries, Fits entry) :
    ∃ fault w', w.addAll entries = .error (fault, w') := by
  induction entries generalizing w with
  | nil => exact absurd (by simp) h
  | cons entry rest ih =>
      obtain ⟨key, value⟩ := entry
      rw [Writer.addAll]
      cases hadd : w.add key value with
      | error fault => exact ⟨fault, w, rfl⟩
      | ok w₁ =>
          refine ih ?_
          intro hrest
          refine h ?_
          intro e he
          rcases List.mem_cons.1 he with rfl | he
          · -- What the writer took has fitted.
            rw [Writer.add] at hadd
            split at hadd
            · simp at hadd
            rename_i hkey
            split at hadd
            · simp at hadd
            rename_i hvalue
            exact ⟨Nat.lt_of_not_le hkey, Nat.lt_of_not_le hvalue⟩
          · exact hrest e he

/-- Closing the file puts the footer behind the block, and the count into the header. -/
theorem finish_of_holds (h : Holds w format entries) :
    w.finish = header format entries.length ++ block entries ++ footer (block entries) := by
  have hfooter : toBytes 4 (Checksum.finish w.register).toNat ++ [0, 0, 0, 0] =
      footer (block entries) := by
    rw [h.register]
    rfl
  -- The count is written over eight bytes in the header, and nothing else moves.
  have hfront : (magic ++ toBytes 2 version ++ [format.code]).length = countOffset := rfl
  rw [finish, hfooter, h.written, h.count, overwrite, header, header, length_toBytes]
  simp only [List.append_assoc]
  rw [← List.append_assoc magic, ← List.append_assoc (magic ++ _)]
  rw [List.take_left' hfront, ← List.drop_drop, List.drop_left' hfront,
    List.drop_left' (length_toBytes 8 0)]
  simp only [List.append_assoc]

/-- Writing a table whose entries fit gives its image. -/
theorem finish_eq_image {table : Table} (fits : ∀ entry ∈ table.entries.toList, Fits entry) :
    ∃ w, (create table.format).addAll table.entries.toList = .ok w ∧ w.finish = table.image := by
  obtain ⟨w, haddAll, h⟩ := (holds_create table.format).addAll fits
  exact ⟨w, haddAll, finish_of_holds (by simpa using h)⟩

end PartitionStore.Table.Writer
