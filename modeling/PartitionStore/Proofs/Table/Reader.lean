import Mathlib.Algebra.Group.Nat.Defs
import Mathlib.Logic.Basic
import PartitionStore.Proofs.Table.Image

/-!
# `PartitionStore.Proofs.Table.Reader`: reading a table in machine words

`Table.ofImage` counts bytes in natural numbers and takes what is there of them. `Reader.table`
reads the same bytes as a machine does: positions and lengths are words of 64 bits, whose sums and
differences are taken modulo `2 ^ 64`, and bytes are taken from a buffer between two positions. It
stops where a sum or a difference is not the true one (`Stop.wrapped`), where bytes are not in the
buffer (`Stop.outside`), and where the loop over the records goes on for more rounds than it may
(`Stop.unfinished`). The lengths in front of a record are used as they stand in the file.

The bytes may be any, as long as there are fewer than `2 ^ 63` of them, as in every buffer in
memory. What carries the loop is that its position is in the block. Then the end that a record
claims is below `2 ^ 63 + 2 ^ 34`, which is a word, and it is compared with the end of the block
before anything is taken. Each round but the last moves the position by eight bytes at least, even
where key and value are empty. So a block has rounds for one eighth of its bytes, rounded up: where
one to seven bytes are left, it takes one more round to find that they are no record, and a block
that ends so has more rounds than eighths (`not_read_within_eighths`).

* `Reader.next_of_short`, `Reader.next_eq`: one round.
* `Reader.entriesFrom_eq`: the loop, from any position in the block.
* `Reader.table_eq`: reading in words is reading, so none of the three stops occurs.
* `read_in_words`: what that means for a table file, whatever is in it.
-/

set_option autoImplicit false

namespace PartitionStore.Table

open LittleEndian

/-- Why a reader that counts in machine words ends without a table. -/
inductive Stop where
  /-- The bytes are no image. -/
  | damaged (damage : Damage)
  /-- A sum or a difference of words wrapped around. -/
  | wrapped
  /-- Bytes were taken from outside a buffer. -/
  | outside
  /-- The loop over the records would go on for more rounds than it may. -/
  | unfinished
  deriving DecidableEq

namespace Reader

/-! ### Words and buffers -/

/-- The sum modulo `2 ^ 64`, if it is the sum. -/
def plus (a b : UInt64) : Except Stop UInt64 :=
  if (a + b).toNat = a.toNat + b.toNat then .ok (a + b) else .error .wrapped

/-- The difference modulo `2 ^ 64`, if it is the difference. -/
def minus (a b : UInt64) : Except Stop UInt64 :=
  if (a - b).toNat + b.toNat = a.toNat then .ok (a - b) else .error .wrapped

/-- How many bytes a buffer has. -/
def size (buffer : List UInt8) : UInt64 := .ofNat buffer.length

/-- The bytes of a buffer from `start` to `stop`, if they are in it and in this order. -/
def slice (buffer : List UInt8) (start stop : UInt64) : Except Stop (List UInt8) :=
  if start ≤ stop ∧ stop.toNat ≤ buffer.length then
    .ok (field buffer start.toNat (stop.toNat - start.toNat))
  else .error .outside

/-- The byte of a buffer at a position. -/
def byte (buffer : List UInt8) (position : UInt64) : Except Stop UInt8 :=
  match buffer[position.toNat]? with
  | some b => .ok b
  | none => .error .outside

/-- The number in the first four bytes of a buffer. -/
def word32 (buffer : List UInt8) : Except Stop UInt32 := do
  let bytes ← slice buffer 0 4
  pure (.ofNat (ofBytes bytes))

/-- The number in the first eight bytes of a buffer. -/
def word64 (buffer : List UInt8) : Except Stop UInt64 := do
  let bytes ← slice buffer 0 8
  pure (.ofNat (ofBytes bytes))

/-! ### The reader -/

/-- How far a block has been read: a position in it, and the entries before that. -/
structure Cursor where
  position : UInt64
  entries : SortedMap (List UInt8) (List UInt8)

/-- One round of the loop: reads the record at the cursor. It begins with the eight bytes of two
lengths, which may not all be there. -/
def next (block : List UInt8) (c : Cursor) : Except Stop Cursor := do
  let payload ← plus c.position 8
  if size block < payload then throw (.damaged .truncatedHeader)
  else
    let middle ← plus c.position 4
    let keyLength ← word32 (← slice block c.position middle)
    let valueLength ← word32 (← slice block middle payload)
    let keyEnd ← plus payload keyLength.toUInt64
    let valueEnd ← plus keyEnd valueLength.toUInt64
    if size block < valueEnd then throw (.damaged .truncatedEntry)
    else
      let key ← slice block payload keyEnd
      let value ← slice block keyEnd valueEnd
      pure ⟨valueEnd, c.entries.insert key value⟩

/-- Reads records from the cursor on until the block ends, in at most `limit` rounds. A round
counts as soon as it begins. -/
def entriesFrom (block : List UInt8) : (limit : Nat) → Cursor →
    Except Stop (SortedMap (List UInt8) (List UInt8))
  | 0, c => if c.position < size block then throw .unfinished else pure c.entries
  | limit + 1, c =>
    if c.position < size block then do entriesFrom block limit (← next block c)
    else pure c.entries

/-- Reads what stands behind the code of the format: the count, the block with its checksum, and
in at most `limit` rounds the records of the block. -/
def contents (limit : Nat) (data : List UInt8) (format : TableFormat) : Except Stop Table := do
  let count ← word64 (← slice data 7 (.ofNat headerSize))
  let blockEnd ← minus (size data) (.ofNat footerSize)
  let block ← slice data (.ofNat headerSize) blockEnd
  let checksum ← word32 (← slice data blockEnd (← plus blockEnd 4))
  if Checksum.crc32 block ≠ checksum then throw (.damaged .checksumMismatch)
  else
    let entries ← entriesFrom block limit ⟨0, .empty⟩
    if .ofNat entries.size ≠ count then throw (.damaged .countMismatch)
    else pure ⟨format, entries⟩

/-- Reads the table that an image holds, in at most `limit` rounds of the loop over its records. -/
def table (limit : Nat) (data : List UInt8) : Except Stop Table := do
  let least ← plus (.ofNat headerSize) (.ofNat footerSize)
  if size data < least then throw (.damaged .tooShort)
  else
    let letters ← slice data 0 4
    if letters ≠ magic then throw (.damaged .badMagic)
    else
      let found := ofBytes [← byte data 4, ← byte data 5]
      if found ≠ version then throw (.damaged (.unsupportedVersion found))
      else match TableFormat.ofCode? (← byte data 6) with
        | none => throw (.damaged .unknownFormat)
        | some format => contents limit data format

end Reader

variable {m n start count limit position : Nat} {buffer block data : List UInt8}
  {entries : SortedMap (List UInt8) (List UInt8)}

/-! ### The bytes at a position -/

/-- A field that lies in the buffer has as many bytes as asked for. -/
theorem length_field (h : start + count ≤ buffer.length) :
    (field buffer start count).length = count := by
  rw [field, List.length_take, List.length_drop]
  omega

/-- The two bytes of the version are those at the positions 4 and 5. -/
theorem field_version (h : 6 ≤ data.length) : field data 4 2 = [data.getD 4 0, data.getD 5 0] := by
  have hlow : 4 < data.length := by omega
  have hhigh : 5 < data.length := by omega
  have hdrop : data.drop 4 = data[4] :: data[5] :: data.drop 6 := by
    rw [List.drop_eq_getElem_cons hlow, List.drop_eq_getElem_cons hhigh]
  rw [field, hdrop, List.getD, List.getD, List.getElem?_eq_getElem hlow,
    List.getElem?_eq_getElem hhigh]
  rfl

/-- The length that stands in a block at a position. -/
def lengthAt (block : List UInt8) (position : Nat) : Nat := ofBytes (field block position 4)

/-- A length in four bytes is less than two to the 32. -/
theorem lengthAt_lt (h : position + 4 ≤ block.length) : lengthAt block position < 2 ^ 32 := by
  have hlt := ofBytes_lt (field block position 4)
  rw [length_field h] at hlt
  exact hlt

/-- In fewer than eight bytes there is no record. -/
theorem recordsWithin_of_short (h : buffer.length < 8) (rounds : Nat) :
    recordsWithin rounds buffer = if buffer = [] then .ok [] else .error .truncatedHeader := by
  by_cases hempty : buffer = []
  · rw [if_pos hempty, hempty]
    cases rounds <;> rfl
  rw [if_neg hempty]
  cases rounds with
  | zero =>
      obtain ⟨b, rest, rfl⟩ := List.exists_cons_of_ne_nil hempty
      rfl
  | succ rounds =>
      have hheader : (buffer.take 8).length < 8 := by
        rw [List.length_take]
        omega
      rw [recordsWithin_succ hempty, if_pos hheader]

/-- One round of reading, by the positions in the block. -/
theorem recordsWithin_drop (h : position + 8 ≤ block.length) (rounds : Nat) :
    recordsWithin (rounds + 1) (block.drop position) =
      let payload := position + 8
      let keyEnd := payload + lengthAt block position
      let valueEnd := keyEnd + lengthAt block (position + 4)
      if block.length < valueEnd then .error .truncatedEntry
      else (recordsWithin rounds (block.drop valueEnd)).map
        ((field block payload (lengthAt block position),
          field block keyEnd (lengthAt block (position + 4))) :: ·) := by
  have hne : block.drop position ≠ [] := by
    intro e
    have hlength := congrArg List.length e
    rw [List.length_drop, List.length_nil] at hlength
    omega
  have hheader : ¬((block.drop position).take 8).length < 8 := by
    rw [List.length_take, List.length_drop]
    omega
  have hkey : ofBytes (((block.drop position).take 8).take 4) = lengthAt block position := by
    rw [List.take_take]
    rfl
  have hvalue : ofBytes (((block.drop position).take 8).drop 4) =
      lengthAt block (position + 4) := by
    rw [List.drop_take, List.drop_drop]
    rfl
  rw [recordsWithin_succ hne, if_neg hheader, hkey, hvalue]
  generalize lengthAt block position = keyLength
  generalize lengthAt block (position + 4) = valueLength
  -- The payload is the bytes of the key and those of the value behind them.
  have hpayload : (block.drop position).drop 8 = block.drop (position + 8) := List.drop_drop
  have hrest : (block.drop (position + 8)).drop (keyLength + valueLength) =
      block.drop (position + 8 + keyLength + valueLength) := by
    rw [List.drop_drop, Nat.add_assoc _ keyLength]
  have hkeyBytes : ((block.drop (position + 8)).take (keyLength + valueLength)).take keyLength =
      field block (position + 8) keyLength := by
    rw [List.take_take, Nat.min_eq_left (Nat.le_add_right ..), field]
  have hvalueBytes : ((block.drop (position + 8)).take (keyLength + valueLength)).drop keyLength =
      field block (position + 8 + keyLength) valueLength := by
    rw [List.drop_take, List.drop_drop, Nat.add_sub_cancel_left, field]
  have hlength : ((block.drop (position + 8)).take (keyLength + valueLength)).length <
      keyLength + valueLength ↔ block.length < position + 8 + keyLength + valueLength := by
    rw [List.length_take, List.length_drop]
    omega
  simp only [hpayload, hkeyBytes, hvalueBytes, hrest, hlength]

namespace Reader

/-! ### Words that stand for numbers -/

/-- A number that fits in a word is not changed by being one. -/
theorem toNat_ofNat (h : n < 2 ^ 64) : (UInt64.ofNat n).toNat = n :=
  UInt64.toNat_ofNat_of_lt' h

/-- A sum that fits in a word does not wrap. -/
theorem plus_ofNat (h : m + n < 2 ^ 64) : plus (.ofNat m) (.ofNat n) = .ok (.ofNat (m + n)) := by
  have hm : (UInt64.ofNat m).toNat = m := toNat_ofNat (by omega)
  have hn : (UInt64.ofNat n).toNat = n := toNat_ofNat (by omega)
  have hsum : (UInt64.ofNat m + UInt64.ofNat n).toNat = m + n := by
    rw [← UInt64.ofNat_add, toNat_ofNat h]
  rw [plus, if_pos (by omega), ← UInt64.ofNat_add]

/-- One more than the greatest word is not a word. -/
example : plus 0xFFFFFFFFFFFFFFFF 1 = .error .wrapped := rfl

/-- A difference that is not below zero does not wrap. -/
theorem minus_ofNat (hle : n ≤ m) (h : m < 2 ^ 64) :
    minus (.ofNat m) (.ofNat n) = .ok (.ofNat (m - n)) := by
  have hm : (UInt64.ofNat m).toNat = m := toNat_ofNat h
  have hn : (UInt64.ofNat n).toNat = n := toNat_ofNat (by omega)
  have hdiff : (UInt64.ofNat m - UInt64.ofNat n).toNat = m - n := by
    rw [← UInt64.ofNat_sub hle, toNat_ofNat (by omega)]
  rw [minus, if_pos (by omega), ← UInt64.ofNat_sub hle]

/-- Words are compared as the numbers they stand for. -/
theorem ofNat_lt_size_iff (h : position < 2 ^ 64) (short : buffer.length < 2 ^ 64) :
    UInt64.ofNat position < size buffer ↔ position < buffer.length :=
  UInt64.ofNat_lt_iff_lt h short

/-- The other way around, too. -/
theorem size_lt_ofNat_iff (h : position < 2 ^ 64) (short : buffer.length < 2 ^ 64) :
    size buffer < UInt64.ofNat position ↔ buffer.length < position :=
  UInt64.ofNat_lt_iff_lt short h

/-- Bytes that are in a buffer are taken. -/
theorem slice_ofNat (buffer : List UInt8) (start count : Nat) (h : start + count ≤ buffer.length)
    (short : buffer.length < 2 ^ 64) :
    slice buffer (.ofNat start) (.ofNat (start + count)) = .ok (field buffer start count) := by
  have hstart : (UInt64.ofNat start).toNat = start := toNat_ofNat (by omega)
  have hstop : (UInt64.ofNat (start + count)).toNat = start + count := toNat_ofNat (by omega)
  have hin : UInt64.ofNat start ≤ UInt64.ofNat (start + count) ∧
      (UInt64.ofNat (start + count)).toNat ≤ buffer.length := by
    rw [UInt64.le_iff_toNat_le, hstart, hstop]
    exact ⟨Nat.le_add_right .., h⟩
  rw [slice, if_pos hin, hstart, hstop, Nat.add_sub_cancel_left]

/-- A byte in the buffer is there. -/
theorem byte_ofNat (buffer : List UInt8) (position : Nat) (h : position < buffer.length)
    (short : buffer.length < 2 ^ 64) :
    byte buffer (.ofNat position) = .ok (buffer.getD position 0) := by
  have hposition : (UInt64.ofNat position).toNat = position := toNat_ofNat (by omega)
  rw [byte, hposition, List.getD, List.getElem?_eq_getElem h]
  rfl

/-- Four bytes are a word of 32 bits. -/
theorem word32_of_length (h : buffer.length = 4) :
    word32 buffer = .ok (.ofNat (ofBytes buffer)) := by
  have hwhole : slice buffer 0 4 = .ok (field buffer 0 4) :=
    slice_ofNat _ 0 4 (by omega) (by rw [h]; decide)
  have hfield : field buffer 0 4 = buffer := List.take_of_length_le (Nat.le_of_eq h)
  rw [word32, hwhole, hfield]
  rfl

/-- Eight bytes are a word of 64 bits. -/
theorem word64_of_length (h : buffer.length = 8) :
    word64 buffer = .ok (.ofNat (ofBytes buffer)) := by
  have hwhole : slice buffer 0 8 = .ok (field buffer 0 8) :=
    slice_ofNat _ 0 8 (by omega) (by rw [h]; decide)
  have hfield : field buffer 0 8 = buffer := List.take_of_length_le (Nat.le_of_eq h)
  rw [word64, hwhole, hfield]
  rfl

/-! ### One round -/

/-- A length in a block is read as a word. -/
theorem word32_field (h : position + 4 ≤ block.length) :
    ∃ w, word32 (field block position 4) = .ok w ∧
      w.toUInt64 = .ofNat (lengthAt block position) :=
  ⟨_, word32_of_length (length_field h), UInt32.toUInt64_ofNat' (lengthAt_lt h)⟩

/-- One round where fewer than eight bytes are left. -/
theorem next_of_short (short : block.length < 2 ^ 63) (hin : position ≤ block.length)
    (hleft : block.length < position + 8) :
    next block ⟨.ofNat position, entries⟩ = .error (.damaged .truncatedHeader) := by
  have hpayload : plus (.ofNat position) 8 = .ok (.ofNat (position + 8)) :=
    plus_ofNat (n := 8) (by omega)
  simp only [next, bind, Except.bind, hpayload]
  rw [if_pos ((size_lt_ofNat_iff (by omega) (by omega)).2 hleft)]
  rfl

/-- One round, on a block that has eight bytes left. However long the record claims to be, the
round ends behind a record that is in the block, or finds that it is not. -/
theorem next_eq (h : position + 8 ≤ block.length) (short : block.length < 2 ^ 63) :
    next block ⟨.ofNat position, entries⟩ =
      let payload := position + 8
      let keyEnd := payload + lengthAt block position
      let valueEnd := keyEnd + lengthAt block (position + 4)
      if block.length < valueEnd then .error (.damaged .truncatedEntry)
      else .ok ⟨.ofNat valueEnd, entries.insert (field block payload (lengthAt block position))
        (field block keyEnd (lengthAt block (position + 4)))⟩ := by
  obtain ⟨keyWord, hkeyWord, hkeyLength⟩ := word32_field (show position + 4 ≤ block.length by omega)
  obtain ⟨valueWord, hvalueWord, hvalueLength⟩ :=
    word32_field (show position + 4 + 4 ≤ block.length by omega)
  have hkey : lengthAt block position < 2 ^ 32 := lengthAt_lt (by omega)
  have hvalue : lengthAt block (position + 4) < 2 ^ 32 := lengthAt_lt (by omega)
  -- From here on only the bounds of the two lengths matter.
  generalize lengthAt block position = keyLength at *
  generalize lengthAt block (position + 4) = valueLength at *
  -- The two length fields are in the block.
  have hpayload : plus (.ofNat position) 8 = .ok (.ofNat (position + 8)) :=
    plus_ofNat (n := 8) (by omega)
  have hmiddle : plus (.ofNat position) 4 = .ok (.ofNat (position + 4)) :=
    plus_ofNat (n := 4) (by omega)
  have hheader : ¬size block < UInt64.ofNat (position + 8) :=
    mt (size_lt_ofNat_iff (by omega) (by omega)).1 (by omega)
  have hkeyField := slice_ofNat block position 4 (by omega) (by omega)
  have hvalueField := slice_ofNat block (position + 4) 4 (by omega) (by omega)
  -- The lengths have 32 bits, so where key and value would end is a word.
  have hkeyEnd := @plus_ofNat (position + 8) keyLength (by omega)
  have hvalueEnd := @plus_ofNat (position + 8 + keyLength) valueLength (by omega)
  simp only [next, bind, Except.bind, hpayload, if_neg hheader, hmiddle, hkeyField, hkeyWord,
    hvalueField, hvalueWord, hkeyLength, hvalueLength, hkeyEnd, hvalueEnd]
  by_cases hout : block.length < position + 8 + keyLength + valueLength
  · rw [if_pos ((size_lt_ofNat_iff (by omega) (by omega)).2 hout), if_pos hout]
    rfl
  -- The record is in the block, so what is taken of it is.
  have hkeyBytes := slice_ofNat block (position + 8) keyLength (by omega) (by omega)
  have hvalueBytes := slice_ofNat block (position + 8 + keyLength) valueLength
    (by omega) (by omega)
  rw [if_neg (mt (size_lt_ofNat_iff (by omega) (by omega)).1 hout), if_neg hout, hkeyBytes,
    hvalueBytes]
  rfl

/-! ### The loop -/

/-- At the end of the block the loop ends. -/
theorem entriesFrom_end (limit : Nat) :
    entriesFrom block limit ⟨.ofNat block.length, entries⟩ = .ok entries := by
  have hdone : ¬UInt64.ofNat block.length < size block := UInt64.lt_irrefl _
  cases limit <;> rw [entriesFrom, if_neg hdone] <;> rfl

/-- Before the end of the block the loop begins another round. -/
theorem entriesFrom_pass (short : block.length < 2 ^ 63) (hin : position < block.length) :
    entriesFrom block (limit + 1) ⟨.ofNat position, entries⟩ =
      (next block ⟨.ofNat position, entries⟩).bind (entriesFrom block limit) := by
  have hgoes : UInt64.ofNat position < size block :=
    (ofNat_lt_size_iff (by omega) (by omega)).2 hin
  rw [entriesFrom, if_pos hgoes]
  rfl

/-- The loop, from any position in the block, with rounds for as many records as may begin in what
is left of it: it reads them as they are read off the bytes, and adds their entries. -/
theorem entriesFrom_eq (rounds : Nat) (short : block.length < 2 ^ 63)
    (hin : position ≤ block.length) (hlimit : block.length ≤ position + 8 * limit)
    (hrounds : block.length < position + 8 * (rounds + 1)) :
    entriesFrom block limit ⟨.ofNat position, entries⟩ =
      ((recordsWithin rounds (block.drop position)).map
        (·.foldl (fun m entry => m.insert entry.1 entry.2) entries)).mapError .damaged := by
  -- Induction on the rounds allowed: each but the last moves the position by eight bytes at least.
  induction limit generalizing rounds position entries with
  | zero =>
      obtain rfl : position = block.length := by omega
      rw [entriesFrom_end, List.drop_length, recordsWithin_of_short (by decide)]
      rfl
  | succ limit ih =>
      rcases Nat.eq_or_lt_of_le hin with rfl | hbefore
      · rw [entriesFrom_end, List.drop_length, recordsWithin_of_short (by decide)]
        rfl
      rw [entriesFrom_pass short hbefore]
      by_cases hleft : block.length < position + 8
      · have hlength : (block.drop position).length < 8 := by
          rw [List.length_drop]
          omega
        rw [next_of_short short hin hleft, recordsWithin_of_short hlength,
          if_neg (mt List.drop_eq_nil_iff.1 (Nat.not_le.2 hbefore))]
        rfl
      obtain ⟨rounds, rfl⟩ : ∃ r, rounds = r + 1 := ⟨rounds - 1, by omega⟩
      rw [next_eq (by omega) short, recordsWithin_drop (by omega)]
      dsimp only
      by_cases hout : block.length <
          position + 8 + lengthAt block position + lengthAt block (position + 4)
      · rw [if_pos hout, if_pos hout]
        rfl
      rw [if_neg hout, if_neg hout]
      refine (ih rounds (Nat.not_lt.1 hout) (by omega) (by omega)).trans ?_
      cases recordsWithin rounds _ <;> rfl

/-! ### The file -/

/-- The loop over a whole block finds the entries that the block is read as. -/
theorem entriesFrom_start (short : block.length < 2 ^ 63)
    (hlimit : (block.length + 7) / 8 ≤ limit) :
    entriesFrom block limit ⟨0, .empty⟩ =
      ((records block).map SortedMap.ofList).mapError .damaged :=
  entriesFrom_eq _ short (Nat.zero_le _) (by omega) (by omega)

/-- No fewer rounds would do: the record of an empty key and value has eight bytes. -/
example : entriesFrom [0, 0, 0, 0, 0, 0, 0, 0] 0 ⟨0, .empty⟩ = .error .unfinished := rfl

/-- A block has fewer entries than a word can count. -/
theorem size_lt_of_records {found : List (List UInt8 × List UInt8)}
    (h : records block = .ok found) (short : block.length < 2 ^ 63) :
    (SortedMap.ofList found).size < 2 ^ 64 := by
  have hblock := (records_eq_ok_iff.1 h).length_le
  have hkeys := SortedMap.size_ofList_le found
  omega

/-- A checksum is compared as the number that its bytes stand for. -/
theorem ofNat_eq_checksum_iff {checksum : UInt32} (h : buffer.length = 4) :
    checksum = .ofNat (ofBytes buffer) ↔ checksum.toNat = ofBytes buffer := by
  have hlt : ofBytes buffer < 2 ^ 32 := by
    have := ofBytes_lt buffer
    rwa [h] at this
  rw [← UInt32.toNat_inj, UInt32.toNat_ofNat_of_lt' hlt]

/-- A count is compared as the bytes that it is written in. -/
theorem ofNat_eq_count_iff (h : buffer.length = 8) (hn : n < 2 ^ 64) :
    UInt64.ofNat n = .ofNat (ofBytes buffer) ↔ toBytes 8 n = buffer := by
  have hlt : ofBytes buffer < 2 ^ 64 := by
    have := ofBytes_lt buffer
    rwa [h] at this
  rw [← UInt64.toNat_inj, toNat_ofNat hn, toNat_ofNat hlt]
  constructor
  · intro e
    rw [e, ← h, toBytes_ofBytes]
  · intro e
    rw [← e, ofBytes_toBytes hn]

/-- Behind the code of the format, reading in words does what reading does. -/
theorem contents_eq {blockSize : Nat} (short : data.length < 2 ^ 63)
    (hlength : data.length = headerSize + blockSize + footerSize)
    (hlimit : (blockSize + 7) / 8 ≤ limit) (format : TableFormat) :
    contents limit data format = Except.mapError .damaged (
      let block := field data headerSize blockSize
      if (Checksum.crc32 block).toNat ≠ ofBytes (field data (headerSize + blockSize) 4) then
        .error .checksumMismatch
      else match records block with
        | .error damage => .error damage
        | .ok found =>
          let entries := SortedMap.ofList found
          if toBytes 8 entries.size ≠ field data 7 8 then .error .countMismatch
          else .ok ⟨format, entries⟩) := by
  have hheader : headerSize = 15 := rfl
  have hfooter : footerSize = 8 := rfl
  have hcountLength : (field data 7 8).length = 8 := length_field (by omega)
  have hblockLength : (field data headerSize blockSize).length = blockSize :=
    length_field (by omega)
  have hchecksumLength : (field data (headerSize + blockSize) 4).length = 4 :=
    length_field (by omega)
  -- The block is what is left between header and footer, and its checksum comes behind it.
  have hcount : slice data 7 (.ofNat headerSize) = .ok (field data 7 8) :=
    slice_ofNat _ 7 8 (by omega) (by omega)
  have hblockEnd : minus (size data) (.ofNat footerSize) =
      .ok (.ofNat (headerSize + blockSize)) := by
    rw [size, minus_ofNat (by omega) (by omega), hlength, Nat.add_sub_cancel]
  have hblock : slice data (.ofNat headerSize) (.ofNat (headerSize + blockSize)) =
      .ok (field data headerSize blockSize) := slice_ofNat _ _ _ (by omega) (by omega)
  have hchecksumEnd : plus (.ofNat (headerSize + blockSize)) 4 =
      .ok (.ofNat (headerSize + blockSize + 4)) := plus_ofNat (n := 4) (by omega)
  have hchecksum : slice data (.ofNat (headerSize + blockSize))
      (.ofNat (headerSize + blockSize + 4)) = .ok (field data (headerSize + blockSize) 4) :=
    slice_ofNat _ _ _ (by omega) (by omega)
  simp only [contents, bind, Except.bind, hcount, word64_of_length hcountLength, hblockEnd, hblock,
    hchecksumEnd, hchecksum, word32_of_length hchecksumLength]
  rw [apply_ite (Except.mapError Stop.damaged)]
  refine if_congr (not_congr (ofNat_eq_checksum_iff hchecksumLength)) rfl ?_
  rw [entriesFrom_start (by omega) (by omega)]
  cases hrecords : records (field data headerSize blockSize) with
  | error damage => rfl
  | ok found =>
      have hfew := size_lt_of_records hrecords (by omega)
      rw [apply_ite (Except.mapError Stop.damaged)]
      exact if_congr (not_congr (ofNat_eq_count_iff hcountLength hfew)) rfl rfl

/-- Reading in words is reading. -/
theorem table_eq (short : data.length < 2 ^ 63)
    (hlimit : (data.length - (headerSize + footerSize) + 7) / 8 ≤ limit) :
    table limit data = (ofImage data).mapError .damaged := by
  have hleast : plus (.ofNat headerSize) (.ofNat footerSize) =
      .ok (.ofNat (headerSize + footerSize)) := plus_ofNat (by decide)
  by_cases hshort : data.length < headerSize + footerSize
  · have hless : size data < UInt64.ofNat (headerSize + footerSize) :=
      (size_lt_ofNat_iff (by decide) (by omega)).2 hshort
    rw [ofImage, if_pos hshort]
    simp only [table, bind, Except.bind, hleast, if_pos hless]
    rfl
  have hall : ¬size data < UInt64.ofNat (headerSize + footerSize) :=
    mt (size_lt_ofNat_iff (by decide) (by omega)).1 hshort
  have hlong : 23 ≤ data.length := Nat.not_lt.1 hshort
  have hletters : slice data 0 4 = .ok (field data 0 4) := slice_ofNat _ 0 4 (by omega) (by omega)
  have hlow : byte data 4 = .ok (data.getD 4 0) := byte_ofNat _ 4 (by omega) (by omega)
  have hhigh : byte data 5 = .ok (data.getD 5 0) := byte_ofNat _ 5 (by omega) (by omega)
  have hcode : byte data 6 = .ok (data.getD 6 0) := byte_ofNat _ 6 (by omega) (by omega)
  rw [ofImage, if_neg hshort, field_version (by omega)]
  simp only [table, bind, Except.bind, hleast, if_neg hall, hletters, hlow, hhigh, hcode]
  -- The checks are the same, one after another.
  rw [apply_ite (Except.mapError Stop.damaged)]
  refine if_congr Iff.rfl rfl ?_
  rw [apply_ite (Except.mapError Stop.damaged)]
  refine if_congr Iff.rfl rfl ?_
  cases TableFormat.ofCode? (data.getD 6 0) with
  | none => rfl
  | some format =>
      have hheader : headerSize = 15 := rfl
      have hfooter : footerSize = 8 := rfl
      exact contents_eq short (by omega) hlimit format

end Reader

variable {t : FileTree} {p : Path} {bytes : Bytes}

/-- A table file is read safely, whatever bytes it holds. Reading it in machine words, no sum and no
difference wraps around, no byte is taken from outside a buffer, and the loop begins no more rounds
than an eighth of the bytes of its block, rounded up. So it ends with a table or with a damage, and
that is what the file is read as. -/
theorem read_in_words (h : t.read p = .ok bytes) (short : bytes.length < 2 ^ 63) :
    ∃ answer : Except Damage Table,
      (∀ limit, (bytes.length - (headerSize + footerSize) + 7) / 8 ≤ limit →
        Reader.table limit bytes = answer.mapError .damaged) ∧
      read p t = match answer with
        | .ok table => .ok table t
        | .error damage => .error (.corruption p damage) t :=
  ⟨ofImage bytes, fun _ hlimit => Reader.table_eq short hlimit, read_eq h⟩

/-- A file of one record that claims the longest key and the longest value there are. -/
def hugeRecord : Bytes :=
  [0x50, 0x4B, 0x56, 0x54, 1, 0, 1, 1, 0, 0, 0, 0, 0, 0, 0,
    255, 255, 255, 255, 255, 255, 255, 255, 0x1C, 0xDF, 0x44, 0x21, 0, 0, 0, 0]

/-- Its checksum is right, so its lengths are read; then they are found to lead out of the block. -/
theorem table_hugeRecord : Reader.table 1 hugeRecord = .error (.damaged .truncatedEntry) := by
  have key : (match Reader.table 1 hugeRecord with
      | .error (.damaged .truncatedEntry) => true
      | _ => false) = true := by decide +kernel
  split at key
  · rename_i found
    exact found
  · cases key

/-- The file is read in one round: the record's claim is found to be wrong. -/
theorem huge_record_read_in_words :
    ∃ t : FileTree, t.read ⟨"data.tbl"⟩ = .ok hugeRecord ∧ hugeRecord.length < 2 ^ 63 ∧
      (hugeRecord.length - (headerSize + footerSize) + 7) / 8 ≤ 1 ∧
      read ⟨"data.tbl"⟩ t = .error (.corruption ⟨"data.tbl"⟩ .truncatedEntry) t := by
  have hfile : (FileTree.empty.place [] "data.tbl" (.file hugeRecord)).read ⟨"data.tbl"⟩ =
      .ok hugeRecord := rfl
  have hshort : hugeRecord.length < 2 ^ 63 := by decide
  have hrounds : (hugeRecord.length - (headerSize + footerSize) + 7) / 8 ≤ 1 := by decide
  obtain ⟨answer, hwords, hread⟩ := read_in_words hfile hshort
  have hsame : Except.error (.damaged .truncatedEntry) = answer.mapError Stop.damaged :=
    table_hugeRecord.symm.trans (hwords 1 hrounds)
  cases answer with
  | ok table => cases hsame
  | error damage =>
      cases hsame
      exact ⟨_, hfile, hshort, hrounds, hread⟩

/-- A file whose block of four bytes, of which the checksum is right, is less than the two lengths
of a record. -/
def cutRecord : Bytes :=
  [0x50, 0x4B, 0x56, 0x54, 1, 0, 2, 0, 0, 0, 0, 0, 0, 0, 0,
    1, 2, 3, 4, 0xCD, 0xFB, 0x3C, 0xB6, 0, 0, 0, 0]

/-- An eighth of the block's bytes, rounded down, is not enough rounds. The four bytes have none
then, so the loop cannot end; in the one round that it takes they are found to be no record. -/
theorem not_read_within_eighths :
    cutRecord.length = headerSize + 4 + footerSize ∧
      Reader.table (4 / 8) cutRecord = .error .unfinished ∧
      Reader.table 1 cutRecord = .error (.damaged .truncatedHeader) := by
  have key : (match Reader.table (4 / 8) cutRecord, Reader.table 1 cutRecord with
      | .error .unfinished, .error (.damaged .truncatedHeader) => true
      | _, _ => false) = true := by decide +kernel
  refine ⟨rfl, ?_⟩
  split at key
  · rename_i hnone hone
    exact ⟨hnone, hone⟩
  · cases key

end PartitionStore.Table
