import PartitionStore.Table.Image

/-!
# `PartitionStore.Proofs.Table.Block`: the grammar of a data block

`IsBlock` says, without reading anything, what a data block is: records one
after another, each with the lengths of its key and its value in front, and
nothing behind the last one. `records` reads a block by offsets.

* `isBlock_block`: what the layout writes for entries that fit is a block of
  those entries.
* `isBlock_iff`: the entries of a block determine its bytes.
* `records_eq_ok_iff`: reading accepts exactly the blocks, and finds their
  entries. Its bound on the number of records never bites, because a record
  takes eight bytes at least.
-/

set_option autoImplicit false

namespace PartitionStore.Table

open LittleEndian

/-- An entry whose lengths fit into the length fields of its record. -/
def Fits (entry : List UInt8 × List UInt8) : Prop :=
  entry.1.length < lengthLimit ∧ entry.2.length < lengthLimit

instance (entry : List UInt8 × List UInt8) : Decidable (Fits entry) :=
  inferInstanceAs (Decidable (_ ∧ _))

/-- The bytes of a data block, and the entries that its records hold, in order. -/
inductive IsBlock : List UInt8 → List (List UInt8 × List UInt8) → Prop where
  | nil : IsBlock [] []
  | cons {key value rest : List UInt8} {entries : List (List UInt8 × List UInt8)}
      (fits : Fits (key, value)) (behind : IsBlock rest entries) :
      IsBlock (toBytes 4 key.length ++ toBytes 4 value.length ++ key ++ value ++ rest)
        ((key, value) :: entries)

/-- The records of entries that fit make up a block. -/
theorem isBlock_block {entries : List (List UInt8 × List UInt8)}
    (h : ∀ entry ∈ entries, Fits entry) : IsBlock (block entries) entries := by
  induction entries with
  | nil => exact .nil
  | cons entry rest ih =>
      have hrest : IsBlock (block rest) rest :=
        ih fun e he => h e (List.mem_cons_of_mem _ he)
      exact .cons (h entry (List.mem_cons_self ..)) hrest

/-- A block consists of the records of its entries, all of which fit. -/
theorem isBlock_iff {bytes : List UInt8} {entries : List (List UInt8 × List UInt8)} :
    IsBlock bytes entries ↔ bytes = block entries ∧ ∀ entry ∈ entries, Fits entry := by
  constructor
  · intro h
    induction h with
    | nil => exact ⟨rfl, by simp⟩
    | cons fits _ ih =>
        obtain ⟨rfl, hrest⟩ := ih
        refine ⟨rfl, ?_⟩
        intro entry hentry
        rcases List.mem_cons.1 hentry with rfl | hentry
        · exact fits
        · exact hrest entry hentry
  · rintro ⟨rfl, h⟩
    exact isBlock_block h

/-- A block has the bytes of its keys and values, and eight more for each record. -/
theorem length_block (entries : List (List UInt8 × List UInt8)) :
    (block entries).length =
      entries.foldr (fun e others => 8 + e.1.length + e.2.length + others) 0 := by
  induction entries with
  | nil => rfl
  | cons entry rest ih =>
      have hrecord : (record entry.1 entry.2).length = 8 + entry.1.length + entry.2.length := by
        simp [record]
        omega
      show (record entry.1 entry.2 ++ block rest).length = _
      rw [List.length_append, hrecord, ih, List.foldr_cons]

/-! ### Reading a block -/

/-- One round of reading, on bytes that are left. -/
theorem recordsWithin_succ {bytes : List UInt8} (h : bytes ≠ []) (limit : Nat) :
    recordsWithin (limit + 1) bytes =
      if (bytes.take 8).length < 8 then .error .truncatedHeader
      else
        let size := ofBytes ((bytes.take 8).take 4) + ofBytes ((bytes.take 8).drop 4)
        if ((bytes.drop 8).take size).length < size then .error .truncatedEntry
        else (recordsWithin limit ((bytes.drop 8).drop size)).map
          ((((bytes.drop 8).take size).take (ofBytes ((bytes.take 8).take 4)),
            ((bytes.drop 8).take size).drop (ofBytes ((bytes.take 8).take 4))) :: ·) := by
  cases bytes with
  | nil => exact absurd rfl h
  | cons b rest =>
      rw [recordsWithin]
      · simp only [List.splitAt_eq]
        split
        · rfl
        split
        · rfl
        cases recordsWithin limit _ <;> rfl
      · simp

/-- A record in front is read as its entry, and then the bytes behind it are read. -/
theorem recordsWithin_record_append {key value : List UInt8} (h : Fits (key, value))
    (limit : Nat) (rest : List UInt8) :
    recordsWithin (limit + 1) (record key value ++ rest) =
      (recordsWithin limit rest).map ((key, value) :: ·) := by
  have hkey : ofBytes (toBytes 4 key.length) = key.length := ofBytes_toBytes h.1
  have hvalue : ofBytes (toBytes 4 value.length) = value.length := ofBytes_toBytes h.2
  -- The length fields are the first eight bytes, and the payload comes behind them.
  have hfields : (record key value ++ rest).take 8 =
      toBytes 4 key.length ++ toBytes 4 value.length := by
    rw [show record key value ++ rest =
      (toBytes 4 key.length ++ toBytes 4 value.length) ++ (key ++ value ++ rest) by simp [record]]
    exact List.take_left' (by simp)
  have hpayload : (record key value ++ rest).drop 8 = (key ++ value) ++ rest := by
    rw [show record key value ++ rest =
      (toBytes 4 key.length ++ toBytes 4 value.length) ++ (key ++ value ++ rest) by simp [record]]
    exact List.drop_left' (by simp)
  have hne : record key value ++ rest ≠ [] := by
    intro e
    have := congrArg List.length e
    simp [record] at this
  have hwhole : (key ++ value ++ rest).take (key.length + value.length) = key ++ value :=
    List.take_left' (by simp)
  have hrest : (key ++ value ++ rest).drop (key.length + value.length) = rest :=
    List.drop_left' (by simp)
  rw [recordsWithin_succ hne, hfields, hpayload, List.take_left' (by simp),
    List.drop_left' (by simp), hkey, hvalue]
  simp only [hwhole, hrest]
  simp

/-- Bytes that hold a header, and as much behind it as the header asks for, start with a record. -/
theorem exists_record_append {bytes : List UInt8} (hheader : 8 ≤ bytes.length)
    (hpayload : 8 + ofBytes (bytes.take 4) + ofBytes ((bytes.drop 4).take 4) ≤ bytes.length) :
    ∃ key value rest, Fits (key, value) ∧ bytes = record key value ++ rest := by
  have hkey : ofBytes (bytes.take 4) < lengthLimit := by
    have := ofBytes_lt (bytes.take 4)
    rw [show (bytes.take 4).length = 4 by rw [List.length_take]; omega] at this
    exact this
  have hvalue : ofBytes ((bytes.drop 4).take 4) < lengthLimit := by
    have := ofBytes_lt ((bytes.drop 4).take 4)
    rw [show ((bytes.drop 4).take 4).length = 4 by simp; omega] at this
    exact this
  -- Writing the length fields again gives the bytes that they were read from.
  have hkeyField : toBytes 4 (ofBytes (bytes.take 4)) = bytes.take 4 := by
    have := toBytes_ofBytes (bytes.take 4)
    rwa [show (bytes.take 4).length = 4 by rw [List.length_take]; omega] at this
  have hvalueField : toBytes 4 (ofBytes ((bytes.drop 4).take 4)) = (bytes.drop 4).take 4 := by
    have := toBytes_ofBytes ((bytes.drop 4).take 4)
    rwa [show ((bytes.drop 4).take 4).length = 4 by simp; omega] at this
  -- From here on only the two lengths matter, and that they can be written in four bytes.
  generalize ofBytes (bytes.take 4) = m at *
  generalize ofBytes ((bytes.drop 4).take 4) = n at *
  have hkeyLength : ((bytes.drop 8).take m).length = m := by simp; omega
  have hvalueLength : (((bytes.drop 8).drop m).take n).length = n := by simp; omega
  have hfits : Fits ((bytes.drop 8).take m, ((bytes.drop 8).drop m).take n) := by
    constructor
    · show ((bytes.drop 8).take m).length < lengthLimit
      omega
    · show (((bytes.drop 8).drop m).take n).length < lengthLimit
      omega
  refine ⟨(bytes.drop 8).take m, ((bytes.drop 8).drop m).take n, ((bytes.drop 8).drop m).drop n,
    hfits, ?_⟩
  rw [record, hkeyLength, hvalueLength, hkeyField, hvalueField]
  simp only [List.append_assoc, List.take_append_drop]
  rw [show bytes.drop 8 = (bytes.drop 4).drop 4 by simp, List.take_append_drop,
    List.take_append_drop]

/-- Whatever bytes are read as records are a block of what is read. -/
theorem isBlock_of_recordsWithin {limit : Nat} :
    ∀ {bytes : List UInt8} {entries : List (List UInt8 × List UInt8)},
      recordsWithin limit bytes = .ok entries → IsBlock bytes entries := by
  -- Induction on the rounds, as in the reader; the bytes get shorter with each of them.
  induction limit with
  | zero =>
      intro bytes entries h
      cases bytes with
      | nil => simp only [recordsWithin, Except.ok.injEq] at h; exact h ▸ .nil
      | cons b rest => simp [recordsWithin] at h
  | succ limit ih =>
      intro bytes entries h
      by_cases hbytes : bytes = []
      · subst hbytes
        simp only [recordsWithin, Except.ok.injEq] at h
        exact h ▸ .nil
      -- A round that fails ends the reading, so the first record is whole.
      have hrecord : ∃ key value rest, Fits (key, value) ∧ bytes = record key value ++ rest := by
        rw [recordsWithin_succ hbytes] at h
        simp only [List.length_take, List.length_drop, List.take_take, List.drop_take] at h
        split at h
        · simp at h
        rename_i hheader
        split at h
        · simp at h
        rename_i hpayload
        refine exists_record_append (by omega) ?_
        simp only [Nat.reduceSub, Nat.min_eq_left (by decide : 4 ≤ 8)] at hpayload
        omega
      obtain ⟨key, value, rest, fits, rfl⟩ := hrecord
      rw [recordsWithin_record_append fits] at h
      cases hmore : recordsWithin limit rest with
      | error damage => simp [hmore, Except.map] at h
      | ok more =>
          rw [hmore] at h
          obtain rfl : (key, value) :: more = entries := by simpa [Except.map] using h
          have hblock := IsBlock.cons fits (ih hmore)
          simpa [record] using hblock

/-- As many rounds as the block has records read it whole. -/
theorem recordsWithin_of_isBlock {bytes : List UInt8}
    {entries : List (List UInt8 × List UInt8)} (h : IsBlock bytes entries) :
    ∀ {limit : Nat}, entries.length ≤ limit → recordsWithin limit bytes = .ok entries := by
  -- Induction on the block: each of its records is one round.
  induction h with
  | nil => intro limit _; cases limit <;> rfl
  | @cons key value rest entries fits _ ih =>
      intro limit hlimit
      cases limit with
      | zero => simp at hlimit
      | succ limit =>
          have hrest : recordsWithin limit rest = .ok entries :=
            ih (by simpa using hlimit)
          show recordsWithin (limit + 1) (record key value ++ rest) = _
          rw [recordsWithin_record_append fits, hrest]
          rfl

/-- A record takes eight bytes at least. -/
theorem IsBlock.length_le {bytes : List UInt8} {entries : List (List UInt8 × List UInt8)}
    (h : IsBlock bytes entries) : 8 * entries.length ≤ bytes.length := by
  induction h with
  | nil => simp
  | cons _ _ ih =>
      simp only [List.length_cons, List.length_append, length_toBytes]
      omega

/-- Reading accepts exactly the blocks, and finds their entries. -/
theorem records_eq_ok_iff {bytes : List UInt8} {entries : List (List UInt8 × List UInt8)} :
    records bytes = .ok entries ↔ IsBlock bytes entries := by
  constructor
  · exact isBlock_of_recordsWithin
  · intro h
    -- The bound is one eighth of the bytes, so there are rounds enough.
    have hrounds := h.length_le
    exact recordsWithin_of_isBlock h (by omega)

end PartitionStore.Table
