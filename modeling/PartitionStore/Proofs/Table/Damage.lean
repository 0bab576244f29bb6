import PartitionStore.Proofs.Checksum
import PartitionStore.Proofs.Partition

/-!
# `PartitionStore.Proofs.Table.Damage`: local damage of table files

Damage is local if all bytes that changed lie in a window of four
(`AgreeOutside`). Wherever the window is, no such damage turns the image of a
table into that of another one, unless it is the code of the format that
changed. For the block and the checksum together this is a matter of the
checksum (`block_eq_of_burst`), and the count in the header is that of the block.

* `IsImage.eq_or_of_burst`: two images that differ locally are of the same entries.
* `local_damage_detected`: what becomes of a table file that was damaged locally
  after it was written.
-/

set_option autoImplicit false

namespace PartitionStore.Table

open FileTree LittleEndian

/-- The bytes `b` are as many as `a`, and the same but for the `width` of them from `start` on. -/
structure AgreeOutside (start width : Nat) (a b : List UInt8) : Prop where
  length : b.length = a.length
  same : ∀ i, i < start ∨ start + width ≤ i → b[i]? = a[i]?

section

variable {start width : Nat} {a b front front' back back' block block' : List UInt8}

/-! ### Parts of bytes that differ locally -/

/-- The window is what differs. -/
theorem AgreeOutside.exists_burst (h : AgreeOutside start width a b) :
    ∃ front burst burst' back, a = front ++ burst ++ back ∧ b = front ++ burst' ++ back ∧
      burst.length = burst'.length ∧ burst.length ≤ width := by
  have hfront : b.take start = a.take start := by
    refine List.ext_getElem? fun i => ?_
    rw [List.getElem?_take, List.getElem?_take]
    split
    · rename_i hi
      exact h.same i (.inl hi)
    · rfl
  have hback : b.drop (start + width) = a.drop (start + width) := by
    refine List.ext_getElem? fun i => ?_
    rw [List.getElem?_drop, List.getElem?_drop]
    exact h.same _ (.inr (Nat.le_add_right ..))
  have parts (l : List UInt8) :
      l = l.take start ++ (l.drop start).take width ++ l.drop (start + width) := by
    rw [List.append_assoc, ← List.drop_drop, List.take_append_drop, List.take_append_drop]
  refine ⟨a.take start, (a.drop start).take width, (b.drop start).take width,
    a.drop (start + width), parts a, ?_, ?_, List.length_take_le ..⟩
  · rw [← hfront, ← hback]
    exact parts b
  · simp [h.length]

theorem getElem?_middle (front back : List UInt8) {middle : List UInt8} {i : Nat}
    (hi : i < middle.length) : (front ++ middle ++ back)[front.length + i]? = middle[i]? := by
  rw [List.append_assoc, List.getElem?_append_right (by omega), Nat.add_sub_cancel_left,
    List.getElem?_append_left hi]

/-- What differs locally does so in every part. -/
theorem AgreeOutside.middle (h : AgreeOutside start width (front ++ a ++ back)
      (front' ++ b ++ back')) (hfront : front'.length = front.length)
    (hlength : b.length = a.length) : AgreeOutside (start - front.length) width a b := by
  refine ⟨hlength, ?_⟩
  intro i hi
  by_cases hin : i < a.length
  · have hsame := h.same (front.length + i) (by omega)
    rwa [getElem?_middle front back hin, ← hfront, getElem?_middle front' back' (by omega)] at hsame
  · rw [List.getElem?_eq_none (by omega), List.getElem?_eq_none (by omega)]

/-- Bytes that are the same up to a point differ behind it. -/
theorem agreeOutside_append (front : List UInt8) (h : back'.length = back.length) :
    AgreeOutside front.length back.length (front ++ back) (front ++ back') := by
  refine ⟨by simp [h], ?_⟩
  rintro i (hi | hi)
  · rw [List.getElem?_append_left hi, List.getElem?_append_left hi]
  · rw [List.getElem?_eq_none (by simp; omega), List.getElem?_eq_none (by simp; omega)]

/-- Behind the window nothing differs. -/
theorem AgreeOutside.eq_behind (h : AgreeOutside start width (front ++ back) (front' ++ back'))
    (hfront : front'.length = front.length) (hbehind : start + width ≤ front.length) :
    back' = back := by
  refine List.ext_getElem? fun i => ?_
  have hsame := h.same (front.length + i) (.inr (by omega))
  rwa [List.getElem?_append_right (by omega), List.getElem?_append_right (by omega), hfront,
    Nat.add_sub_cancel_left] at hsame

/-- Blocks that differ locally, together with their checksums, do not differ. -/
theorem block_eq_of_burst (hlength : block'.length = block.length)
    (near : AgreeOutside start 4 (block ++ toBytes 4 (Checksum.crc32 block).toNat)
      (block' ++ toBytes 4 (Checksum.crc32 block').toNat)) : block' = block := by
  obtain ⟨front, burst, burst', back, h, h', hburst, hshort⟩ := near.exists_burst
  -- Either way the register ends at the same number, whatever the block.
  have hregister : Checksum.feed Checksum.start (front ++ burst ++ back) =
      Checksum.feed Checksum.start (front ++ burst' ++ back) := by
    rw [← h, ← h', Checksum.feed_append_checksum, Checksum.feed_append_checksum]
  rw [Checksum.eq_of_feed_burst hburst hshort hregister, ← h'] at h
  exact (List.append_inj_left h hlength.symm).symm

end

/-! ### Images that differ locally -/

section

variable {bytes damaged : List UInt8} {table table' : Table} {start : Nat}

/-- The last four bytes of an image mean nothing. -/
theorem IsImage.of_padding (h : IsImage bytes table)
    (near : AgreeOutside (bytes.length - 4) 4 bytes damaged) : IsImage damaged table := by
  obtain ⟨block, entries, padding, rfl, isBlock, hentries, fourBytes⟩ := isImage_iff.1 h
  generalize hfront : header table.format table.entries.size ++
    (block ++ toBytes 4 (Checksum.crc32 block).toNat) = front at near
  have hsize : (front ++ padding).length - 4 = front.length := by
    rw [List.length_append, fourBytes]
    omega
  have hsame : damaged.take front.length = front := by
    refine List.ext_getElem? fun i => ?_
    rw [List.getElem?_take]
    split
    · rename_i hi
      rw [near.same i (.inl (hsize ▸ hi)), List.getElem?_append_left hi]
    · rw [List.getElem?_eq_none (by omega)]
  refine isImage_iff.2 ⟨block, entries, damaged.drop front.length, ?_, isBlock, hentries, ?_⟩
  · calc damaged = damaged.take front.length ++ damaged.drop front.length :=
          (List.take_append_drop ..).symm
      _ = _ := by rw [hsame, hfront]
  · rw [List.length_drop, near.length, List.length_append, fourBytes]
    omega

/-- The code of the format can be exchanged. -/
theorem IsImage.set_code (h : IsImage bytes table) (other : TableFormat) :
    IsImage (bytes.set 6 other.code) ⟨other, table.entries⟩ := by
  obtain ⟨block, entries, padding, rfl, isBlock, hentries, fourBytes⟩ := isImage_iff.1 h
  exact isImage_iff.2 ⟨block, entries, padding, rfl, isBlock, hentries, fourBytes⟩

/-- Two images that differ locally differ in the padding only, and are of the same table, or in
the code of the format only. -/
theorem IsImage.eq_or_of_burst (h : IsImage bytes table) (h' : IsImage damaged table')
    (near : AgreeOutside start 4 bytes damaged) :
    (AgreeOutside (bytes.length - 4) 4 bytes damaged ∧ table' = table) ∨
      (damaged = bytes.set 6 table'.format.code ∧ table'.entries = table.entries) := by
  obtain ⟨block, entries, padding, rfl, isBlock, hentries, fourBytes⟩ := isImage_iff.1 h
  obtain ⟨block', entries', padding', rfl, isBlock', hentries', fourBytes'⟩ := isImage_iff.1 h'
  have hlength : block'.length = block.length := by
    have := near.length
    simp only [List.length_append, length_toBytes, length_header, fourBytes, fourBytes'] at this
    omega
  -- Between the header and the padding nothing differs, so the entries are the same.
  have hblock : block' = block :=
    block_eq_of_burst hlength (near.middle (by simp) (by simp [hlength]))
  subst hblock
  have hrecords : entries' = entries :=
    Except.ok.inj ((records_eq_ok_iff.2 isBlock').symm.trans (records_eq_ok_iff.2 isBlock))
  have hmap : table'.entries = table.entries := by rw [hentries', hentries, hrecords]
  have hbefore : ∀ format : TableFormat, (header format table.entries.size ++
      (block' ++ toBytes 4 (Checksum.crc32 block').toNat)).length = 15 + (block'.length + 4) :=
    fun format => by simp
  rw [hmap] at near ⊢
  by_cases hformat : table'.format = table.format
  · -- The headers are the same too, and only the padding is left.
    rw [hformat]
    refine .inl ⟨?_, Table.ext hformat hmap⟩
    have hlocal : AgreeOutside _ padding.length _ (_ ++ padding') :=
      agreeOutside_append (header table.format table.entries.size ++
        (block' ++ toBytes 4 (Checksum.crc32 block').toNat)) (by omega)
    rw [fourBytes] at hlocal
    rwa [List.length_append, fourBytes, Nat.add_sub_cancel]
  · -- The window lies over the code, and so not over the padding.
    have hcode : table'.format.code ≠ table.format.code := by
      intro e
      have hself := TableFormat.ofCode?_eq_some_iff.2 (Eq.refl table'.format.code)
      exact hformat (Option.some.inj (hself.symm.trans (TableFormat.ofCode?_eq_some_iff.2 e)))
    have hover : ¬(6 < start ∨ start + 4 ≤ 6) := by
      intro hout
      exact hcode (Option.some.inj (near.same 6 hout))
    have hpadding : padding' = padding :=
      near.eq_behind ((hbefore _).trans (hbefore _).symm) (by rw [hbefore]; omega)
    rw [hpadding]
    exact .inr ⟨rfl, rfl⟩

/-- What reading makes of an image that was damaged locally. -/
theorem ofImage_of_burst (h : IsImage bytes table) (hne : damaged ≠ bytes)
    (near : AgreeOutside start 4 bytes damaged) :
    (AgreeOutside (bytes.length - 4) 4 bytes damaged → ofImage damaged = .ok table) ∧
      (∀ other : TableFormat, damaged = bytes.set 6 other.code →
        ofImage damaged = .ok ⟨other, table.entries⟩) ∧
      (¬AgreeOutside (bytes.length - 4) 4 bytes damaged →
        (∀ other : TableFormat, damaged ≠ bytes.set 6 other.code) →
          ∃ damage, ofImage damaged = .error damage) := by
  refine ⟨fun hpadding => ofImage_eq_ok_iff.2 (h.of_padding hpadding), ?_, ?_⟩
  · rintro other rfl
    exact ofImage_eq_ok_iff.2 (h.set_code other)
  · intro hpadding hcode
    cases himage : ofImage damaged with
    | error damage => exact ⟨damage, rfl⟩
    | ok table' =>
        rcases h.eq_or_of_burst (ofImage_eq_ok_iff.1 himage) near with ⟨hin, -⟩ | ⟨hset, -⟩
        · exact absurd hin hpadding
        · exact absurd hset (hcode _)

end

/-! ### Damaged files -/

variable {t : FileTree} {p : Path} {parent : Location} {name scratch : String} {table : Table}

/-- A table file that was damaged within four bytes after it was written is reported as damaged,
unless it is the padding that changed, which makes no difference, or the code of the format, which
became that of the other one. No partition is opened on such a file with other entries. -/
theorem local_damage_detected (hp : t.NamesEntry p parent name)
    (hscratch : t.NamesEntry (scratchFile p) parent scratch) (hne : scratch ≠ name)
    (free : t.TakesFile (name :: parent)) (freeScratch : t.TakesFile (scratch :: parent))
    (fits : ∀ entry ∈ table.entries.toList, Fits entry) :
    ∃ size t' bytes, write table p t = .ok size t' ∧ t'.read p = .ok bytes ∧
      ∀ start damaged, damaged ≠ bytes → AgreeOutside start 4 bytes damaged →
        (∀ u q, u.read q = .ok damaged →
          (AgreeOutside (bytes.length - 4) 4 bytes damaged → read q u = .ok table u) ∧
          (∀ other : TableFormat, damaged = bytes.set 6 other.code →
            read q u = .ok ⟨other, table.entries⟩ u) ∧
          (¬AgreeOutside (bytes.length - 4) 4 bytes damaged →
            (∀ other : TableFormat, damaged ≠ bytes.set 6 other.code) →
              ∃ damage, read q u = .error (.corruption q damage) u)) ∧
        ∀ u dir spec part u', u.read (Partition.tableFile dir) = .ok damaged →
          Partition.openTable dir spec u = .ok part u' → part.entries = table.entries := by
  obtain ⟨t', hwrite, hread⟩ := exists_write_image hp hscratch hne free freeScratch fits
  refine ⟨_, t', _, hwrite, hread, ?_⟩
  intro start damaged hdamaged near
  have image := isImage_image fits
  obtain ⟨hpadding, hcode, helse⟩ := ofImage_of_burst image hdamaged near
  constructor
  · -- What is read hangs on the bytes alone.
    intro u q hq
    rw [read_eq hq]
    refine ⟨fun h => by rw [hpadding h], fun other h => by rw [hcode other h], fun h₁ h₂ => ?_⟩
    obtain ⟨damage, hdamage⟩ := helse h₁ h₂
    exact ⟨damage, by rw [hdamage]⟩
  · intro u dir spec part u' hfile hopen
    rw [Partition.openTable_of_read spec hfile] at hopen
    cases himage : ofImage damaged with
    | error damage => simp [himage] at hopen
    | ok table' =>
        simp only [himage] at hopen
        split at hopen
        · cases hopen
          rcases image.eq_or_of_burst (ofImage_eq_ok_iff.1 himage) near with ⟨-, rfl⟩ | ⟨-, hmap⟩
          · rfl
          · exact hmap
        · cases hopen

/-- A table of one entry, written at the top of an empty tree and damaged in its value. -/
theorem damaged_value_detected : ∃ t' bytes,
    write ⟨.plain, SortedMap.ofList [([97], [1, 2])]⟩ ⟨"data.tbl"⟩ FileTree.empty = .ok 34 t' ∧
      t'.read ⟨"data.tbl"⟩ = .ok bytes ∧ bytes[24]? = some 1 ∧
      ∀ u q, u.read q = .ok (bytes.set 24 7) →
        ∃ damage, read q u = .error (.corruption q damage) u := by
  let table : Table := ⟨.plain, SortedMap.ofList [([97], [1, 2])]⟩
  have hp : FileTree.empty.NamesEntry ⟨"data.tbl"⟩ [] "data.tbl" :=
    ⟨rfl, rfl, by decide, [], rfl, rfl⟩
  have hscratch : FileTree.empty.NamesEntry (scratchFile ⟨"data.tbl"⟩) [] "data.tmp" :=
    ⟨rfl, rfl, by decide, [], rfl, rfl⟩
  have fits : ∀ entry ∈ table.entries.toList, Fits entry := by decide
  obtain ⟨size, t', bytes, hwrite, hread, hdetected⟩ := local_damage_detected hp hscratch
    (by decide) (takesFile_of_none rfl) (takesFile_of_none rfl) fits
  obtain ⟨t'', hwrite', hread'⟩ := exists_write_image hp hscratch (by decide)
    (takesFile_of_none rfl) (takesFile_of_none rfl) fits
  cases hwrite.symm.trans hwrite'
  obtain rfl : bytes = table.image := Except.ok.inj (hread.symm.trans hread')
  have hold : table.image[24]? = some 1 := by decide +kernel
  have hnew : (table.image.set 24 7)[24]? = some 7 := by decide +kernel
  have near : AgreeOutside 24 4 table.image (table.image.set 24 7) :=
    ⟨by simp, fun i hi => List.getElem?_set_ne (by omega)⟩
  refine ⟨t', _, hwrite, hread, hold, fun u q hq => ?_⟩
  refine ((hdetected 24 _ ?_ near).1 u q hq).2.2 ?_ ?_
  · -- The byte that changed is neither in the padding nor the format's code.
    intro e
    rw [e, hold] at hnew
    exact absurd hnew (by decide)
  · intro hpadding
    rw [hpadding.same 24 (.inl (by decide +kernel)), hold] at hnew
    exact absurd hnew (by decide)
  · intro other e
    rw [e, List.getElem?_set_ne (by decide), hold] at hnew
    exact absurd hnew (by decide)

end PartitionStore.Table
