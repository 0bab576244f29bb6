import PartitionStore.Proofs.Table.RoundTrip

/-!
# `PartitionStore.Proofs.Table.Truncation`: table files that were cut off

The last bytes that are left of a file that was cut off are taken for its footer,
and nothing keeps them from being the checksum of what is left of the block.
What gives such a file away is the count in the header: a block that is cut off
has fewer records, if it is one (`IsBlock.length_lt`), and no more keys than
that.

* `not_isImage_of_cut`: no image of a table begins the image of another one.
* `truncation_detected`: what becomes of a table file that was cut off.
-/

set_option autoImplicit false

namespace PartitionStore.Table

open FileTree LittleEndian

/-! ### Blocks that were cut off -/

/-- A block that starts with a record consists of its entry and a block. -/
theorem IsBlock.exists_cons {key value rest : List UInt8}
    {entries : List (List UInt8 × List UInt8)} (fits : Fits (key, value))
    (h : IsBlock (record key value ++ rest) entries) :
    ∃ more, entries = (key, value) :: more ∧ IsBlock rest more := by
  have hread := recordsWithin_of_isBlock h (Nat.le_succ entries.length)
  rw [recordsWithin_record_append fits] at hread
  cases hmore : recordsWithin entries.length rest with
  | error damage => simp [hmore, Except.map] at hread
  | ok more =>
      rw [hmore] at hread
      exact ⟨more, (Except.ok.inj hread).symm, isBlock_of_recordsWithin hmore⟩

/-- A block that goes on behind another one has more records. -/
theorem IsBlock.length_lt {bytes tail : List UInt8}
    {entries entries' : List (List UInt8 × List UInt8)} (h : IsBlock bytes entries)
    (h' : IsBlock (bytes ++ tail) entries') (htail : tail ≠ []) :
    entries.length < entries'.length := by
  -- Induction on the shorter block: the longer one starts with the same records.
  induction h generalizing entries' with
  | nil =>
      cases h' with
      | nil => exact absurd rfl htail
      | cons _ _ => simp
  | @cons key value rest entries fits _ ih =>
      have hfront : toBytes 4 key.length ++ toBytes 4 value.length ++ key ++ value ++ rest ++ tail =
          record key value ++ (rest ++ tail) := by simp [record]
      obtain ⟨more, rfl, hmore⟩ := IsBlock.exists_cons fits (hfront ▸ h')
      exact Nat.succ_lt_succ (ih hmore)

/-! ### Images that were cut off -/

theorem toBytes_injective {width m n : Nat} (hm : m < Nat.pow 256 width)
    (hn : n < Nat.pow 256 width) (h : toBytes width m = toBytes width n) : m = n := by
  rw [← ofBytes_toBytes hm, h, ofBytes_toBytes hn]

/-- No image begins that of a table, as long as the number of the table's entries can be told from
the count in the header. -/
theorem not_isImage_of_cut {table table' : Table} {cut : List UInt8}
    (fits : ∀ entry ∈ table.entries.toList, Fits entry)
    (few : table.entries.size < UInt64.size) (hcut : cut <+: table.image)
    (hne : cut ≠ table.image) : ¬IsImage cut table' := by
  intro h
  obtain ⟨block', entries', padding', rfl, isBlock', hentries', fourBytes'⟩ := isImage_iff.1 h
  obtain ⟨tail, htail⟩ := hcut
  have htailNe : tail ≠ [] := by
    rintro rfl
    exact hne ((List.append_nil _).symm.trans htail)
  -- The headers are the same bytes, and one block goes on where the other one ends.
  have hparts : header table'.format table'.entries.size ++
        (block' ++ (toBytes 4 (Checksum.crc32 block').toNat ++ padding' ++ tail)) =
      header table.format table.entries.size ++
        (block table.entries.toList ++ footer (block table.entries.toList)) := by
    simpa [image] using htail
  obtain ⟨hheader, hbehind⟩ := List.append_inj hparts (by simp)
  obtain ⟨more, hblock, hmoreNe⟩ : ∃ more, block table.entries.toList = block' ++ more ∧
      more ≠ [] := by
    have hlength := congrArg List.length hbehind
    simp only [List.length_append, length_toBytes, fourBytes', footer, List.length_cons,
      List.length_nil] at hlength
    have hpos := List.length_pos_iff.2 htailNe
    obtain ⟨more, hmore⟩ := List.prefix_of_prefix_length_le ⟨_, hbehind⟩ ⟨_, rfl⟩
      (by omega : block'.length ≤ (block table.entries.toList).length)
    refine ⟨more, hmore.symm, ?_⟩
    rintro rfl
    rw [List.append_nil] at hmore
    rw [hmore] at hlength
    omega
  have hfewer : entries'.length < table.entries.size :=
    isBlock'.length_lt (hblock ▸ isBlock_block fits) hmoreNe
  have hkeys : table'.entries.size ≤ entries'.length := by
    rw [hentries']
    exact SortedMap.size_ofList_le entries'
  -- But the count is the same.
  have hcount : table'.entries.size = table.entries.size := by
    have few' : table'.entries.size < UInt64.size :=
      Nat.lt_trans (Nat.lt_of_le_of_lt hkeys hfewer) few
    exact @toBytes_injective 8 _ _ few' few (List.append_inj' hheader (by simp)).2
  omega

/-! ### Files that were cut off -/

variable {t : FileTree} {p : Path} {parent : Location} {name scratch : String} {table : Table}

/-- A table file that was cut off after it was written is reported as damaged. The number of
entries is one that a word of 64 bits holds, as that of any map in memory is. -/
theorem truncation_detected (hp : t.NamesEntry p parent name)
    (hscratch : t.NamesEntry (scratchFile p) parent scratch) (hne : scratch ≠ name)
    (free : t.TakesFile (name :: parent)) (freeScratch : t.TakesFile (scratch :: parent))
    (fits : ∀ entry ∈ table.entries.toList, Fits entry)
    (few : table.entries.size < UInt64.size) :
    ∃ size t' bytes, write table p t = .ok size t' ∧ t'.read p = .ok bytes ∧
      ∀ cut, cut <+: bytes → cut ≠ bytes → ∀ u q, u.read q = .ok cut →
        ∃ damage, read q u = .error (.corruption q damage) u := by
  obtain ⟨t', hwrite, hread⟩ := exists_write_image hp hscratch hne free freeScratch fits
  refine ⟨_, t', _, hwrite, hread, ?_⟩
  intro cut hcut hne u q hq
  rw [read_eq hq]
  cases himage : ofImage cut with
  | error damage => exact ⟨damage, rfl⟩
  | ok table' =>
      exact absurd (ofImage_eq_ok_iff.1 himage) (not_isImage_of_cut fits few hcut hne)

/-- The record of the empty key and value is the footer of an empty block. Cut off behind it, the
file passes all checks but that of the count. -/
theorem truncated_to_footer_detected : ∃ t' bytes,
    write ⟨.plain, SortedMap.ofList [([], [])]⟩ ⟨"data.tbl"⟩ FileTree.empty = .ok 31 t' ∧
      t'.read ⟨"data.tbl"⟩ = .ok bytes ∧ ofImage (bytes.take 23) = .error .countMismatch ∧
      ∀ u q, u.read q = .ok (bytes.take 23) →
        ∃ damage, read q u = .error (.corruption q damage) u := by
  let table : Table := ⟨.plain, SortedMap.ofList [([], [])]⟩
  have hp : FileTree.empty.NamesEntry ⟨"data.tbl"⟩ [] "data.tbl" :=
    ⟨rfl, rfl, by decide, [], rfl, rfl⟩
  have hscratch : FileTree.empty.NamesEntry (scratchFile ⟨"data.tbl"⟩) [] "data.tmp" :=
    ⟨rfl, rfl, by decide, [], rfl, rfl⟩
  have fits : ∀ entry ∈ table.entries.toList, Fits entry := by decide
  obtain ⟨size, t', bytes, hwrite, hread, hdetected⟩ := truncation_detected hp hscratch (by decide)
    (takesFile_of_none rfl) (takesFile_of_none rfl) fits (by decide)
  obtain ⟨t'', hwrite', hread'⟩ := exists_write_image hp hscratch (by decide)
    (takesFile_of_none rfl) (takesFile_of_none rfl) fits
  cases hwrite.symm.trans hwrite'
  obtain rfl : bytes = table.image := Except.ok.inj (hread.symm.trans hread')
  have hcount : ofImage (table.image.take 23) = .error .countMismatch := by
    have key : (match ofImage (table.image.take 23) with
        | .error .countMismatch => true
        | _ => false) = true := by decide +kernel
    split at key
    · assumption
    · cases key
  exact ⟨t', _, hwrite, hread, hcount,
    hdetected _ ⟨_, List.take_append_drop ..⟩ (by decide +kernel)⟩

end PartitionStore.Table
