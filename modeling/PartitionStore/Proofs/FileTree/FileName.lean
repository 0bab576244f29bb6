import PartitionStore.FileTree.FileName

/-!
# `PartitionStore.Proofs.FileTree.FileName`: names and their bytes

The texts that stand for names are as many as the strings of bytes without a zero byte, so a tree
whose entries have such texts for names can hold all that a directory can (`bytesOf_ofBytes`,
`isWritten_ofBytes`). Bytes are written one piece at a time, a character or the broken piece of one,
and each piece is read back whatever comes behind it, which is what the induction is on.

The text of a path that goes through a name which is no text has the mark in it too. Its bytes are
those of its parts (`IsWhole.append`).
-/

set_option autoImplicit false

namespace PartitionStore.FileName

variable {bytes : List UInt8} {cs : List Char} {name : String} {a b : String}

/-! ### Bytes of a name -/

/-- What begins with a character begins with its bytes. -/
theorem exists_append_of_first? {c : Char} (h : first? bytes = some c) :
    ∃ rest, bytes = String.utf8EncodeChar c ++ rest := by
  have hsplit := congrArg (fun b => b.data.toList) (ByteArray.eq_of_utf8DecodeChar?_eq_some h)
  simp only [List.toList_data_toByteArray, ByteArray.data_append, Array.toList_append] at hsplit
  exact ⟨_, hsplit⟩

/-- A character without a zero byte is not the mark. -/
theorem ne_mark_of_zero_not_mem {c : Char} (h : (0 : UInt8) ∉ String.utf8EncodeChar c) :
    c ≠ mark := by
  rintro rfl
  exact h (by decide)

/-- A character that is not the mark stands for its own bytes, whatever follows it. -/
theorem bytesOf_cons_of_ne {c : Char} (h : c ≠ mark) (cs : List Char) :
    bytesOf (c :: cs) = String.utf8EncodeChar c ++ bytesOf cs := by
  cases cs with
  | nil => rw [bytesOf, bytesOf, List.append_nil]
  | cons d rest => rw [bytesOf, if_neg h]

/-- So does a text, whatever follows it. -/
theorem bytesOf_append_of_text {text : List Char} (h : mark ∉ text) (cs : List Char) :
    bytesOf (text ++ cs) = bytesOf text ++ bytesOf cs := by
  induction text with
  | nil => rfl
  | cons c text ih =>
      obtain ⟨hc, htext⟩ := List.ne_and_not_mem_of_not_mem_cons h
      rw [List.cons_append, bytesOf_cons_of_ne hc.symm, bytesOf_cons_of_ne hc.symm, ih htext,
        List.append_assoc]

/-- A byte that is written with the mark is read back. -/
theorem bytesOf_written_append (bytes : List UInt8) (cs : List Char) :
    bytesOf (bytes.flatMap written ++ cs) = bytes ++ bytesOf cs := by
  induction bytes with
  | nil => rfl
  | cons b bytes ih =>
      have hbyte : UInt8.ofNat (Char.ofNat b.toNat).toNat = b := by
        have hvalid : b.toNat.isValidChar := .inl (Nat.lt_trans b.toNat_lt (by decide))
        have hchar : (Char.ofNat b.toNat).toNat = b.toNat := by
          rw [Char.ofNat, dif_pos hvalid]
          rfl
        rw [hchar, UInt8.ofNat_toNat]
      rw [List.flatMap_cons, written]
      show bytesOf (mark :: Char.ofNat b.toNat :: (bytes.flatMap written ++ cs)) = _
      rw [bytesOf, if_pos rfl, hbyte, ih]
      rfl

/-- Whatever stands behind them, the characters that bytes are written with are read as these. -/
theorem bytesOf_charsFrom_append (h : (0 : UInt8) ∉ bytes) (skip : Nat) (cs : List Char) :
    bytesOf (charsFrom (·.flatMap written) skip bytes ++ cs) = bytes.drop skip ++ bytesOf cs := by
  induction bytes generalizing skip with
  | nil => cases skip <;> rfl
  | cons b rest ih =>
      have hrest : (0 : UInt8) ∉ rest := fun hmem => h (List.mem_cons_of_mem _ hmem)
      cases skip with
      | succ skip => exact ih hrest skip
      | zero =>
          rw [charsFrom]
          split
          · -- The bytes of the character come first, and those behind it are passed over.
            rename_i c hfirst
            obtain ⟨more, hmore⟩ := exists_append_of_first? hfirst
            have hc : c ≠ mark := ne_mark_of_zero_not_mem fun hmem =>
              h (hmore ▸ List.mem_append_left _ hmem)
            have hdrop : rest.drop (c.utf8Size - 1) = more := by
              have hpos := c.utf8Size_pos
              have hall := congrArg (List.drop c.utf8Size) hmore
              rwa [← String.length_utf8EncodeChar, List.drop_left, String.length_utf8EncodeChar,
                show c.utf8Size = c.utf8Size - 1 + 1 by omega, List.drop_succ_cons] at hall
            rw [List.cons_append, bytesOf_cons_of_ne hc, ih hrest, hdrop, ← List.append_assoc,
              ← hmore, List.drop_zero]
          · -- So it is with a broken piece, of one byte at least.
            have hpos : 0 < brokenSize (b :: rest) := by
              unfold brokenSize
              repeat' split
              all_goals decide
            generalize brokenSize (b :: rest) = size at hpos
            obtain ⟨n, rfl⟩ : ∃ n, size = n + 1 := ⟨size - 1, by omega⟩
            show bytesOf (((b :: rest).take (n + 1)).flatMap written ++
              charsFrom (·.flatMap written) n rest ++ cs) = _
            rw [List.append_assoc, bytesOf_written_append, ih hrest, ← List.append_assoc,
              ← List.drop_succ_cons, List.take_append_drop]
            rfl

/-- The bytes of a name can be read off the text that stands for it. -/
theorem bytesOf_ofBytes (h : (0 : UInt8) ∉ bytes) : bytesOf (ofBytes bytes).toList = bytes := by
  have hread := bytesOf_charsFrom_append h 0 []
  rw [List.append_nil, List.drop_zero, bytesOf, List.append_nil] at hread
  rwa [ofBytes, String.toList_ofList]

/-- All bytes but zero may be those of a name. -/
theorem isWritten_ofBytes (h : (0 : UInt8) ∉ bytes) : isWritten (ofBytes bytes) = true := by
  simp [isWritten, bytesOf_ofBytes h, h]

/-! ### Bytes of a text that has names in it -/

/-- The text ends in no half of what a byte is written with, so that its bytes come before those of
what stands behind it. -/
def IsWhole (text : String) : Prop :=
  ∀ cs, bytesOf (text.toList ++ cs) = bytesOf text.toList ++ bytesOf cs

/-- A text without the mark is whole: there is no byte written in it to be cut in half. -/
theorem isWhole_of_text (h : mark ∉ a.toList) : IsWhole a := bytesOf_append_of_text h

/-- A name is whole: behind each mark it has the character of a byte. -/
theorem isWhole_of_isWritten (h : isWritten name = true) : IsWhole name := by
  simp only [isWritten, Bool.or_eq_true, Bool.and_eq_true, Bool.not_eq_true', beq_iff_eq] at h
  rcases h with htext | ⟨hzero, hwritten⟩
  · exact isWhole_of_text (by simpa using htext)
  · have hmem : (0 : UInt8) ∉ bytesOf name.toList := by simpa using hzero
    intro cs
    have hread := bytesOf_charsFrom_append hmem 0 cs
    rwa [← String.toList_ofList (l := charsFrom _ 0 (bytesOf name.toList)), ← ofBytes, hwritten]
      at hread

/-- Two whole texts are whole together. -/
theorem IsWhole.append (ha : IsWhole a) (hb : IsWhole b) : IsWhole (a ++ b) := by
  intro cs
  rw [String.toList_append, List.append_assoc, ha, hb, ha, List.append_assoc]

/-- A whole text adds as many bytes as it has by itself. -/
theorem IsWhole.byteLength_append (ha : IsWhole a) (b : String) :
    byteLength (a ++ b) = byteLength a + byteLength b := by
  rw [byteLength, String.toList_append, ha, List.length_append, byteLength, byteLength]

end PartitionStore.FileName
