import PartitionStore.Checksum
import PartitionStore.LittleEndian
import PartitionStore.SortedMap
import PartitionStore.TableFormat

/-!
# `PartitionStore.Table.Image`: the bytes of a table file

A table is a format and a map from keys to values. Its image is

* a header of 15 bytes: the letters `PKVT`, the version in two bytes, the
  code of the format in one, the number of entries in eight,
* the block: for each entry, in key order, the lengths of key and value in
  four bytes each, then the key, then the value,
* a footer of 8 bytes: the checksum of the block in four, then four zeros.

Numbers stand lowest byte first. `Table.image` is the image of a table, and
`Table.ofImage` reads one or says what is wrong with it.
-/

set_option autoImplicit false

namespace PartitionStore

/-- The contents of a table file. -/
@[ext] structure Table where
  /-- The format that the table was created with. -/
  format : TableFormat
  /-- The values by key, keys in the order of their bytes. -/
  entries : SortedMap (List UInt8) (List UInt8)
  deriving DecidableEq

/-- What is wrong with bytes that are no table image. -/
inductive Damage where
  | tooShort
  | badMagic
  | unsupportedVersion (version : Nat)
  | unknownFormat
  | checksumMismatch
  | truncatedHeader
  | truncatedEntry
  | countMismatch
  deriving DecidableEq, Repr, Inhabited

/-- The text a damage is reported with. -/
def Damage.message : Damage → String
  | tooShort => "file too short"
  | badMagic => "bad magic"
  | unsupportedVersion version =>
    "unsupported version " ++ String.ofList (Nat.toDigits 10 version)
  | unknownFormat => "unknown table format"
  | checksumMismatch => "data checksum mismatch"
  | truncatedHeader => "truncated entry header"
  | truncatedEntry => "truncated entry"
  | countMismatch => "entry count mismatch"

namespace Table

/-- The letters `PKVT`, with which every table image starts. -/
def magic : List UInt8 := [0x50, 0x4B, 0x56, 0x54]

/-- The version of the layout described here. -/
def version : Nat := 1

/-- How many bytes come before the block. -/
def headerSize : Nat := 15

/-- How many bytes come after the block. -/
def footerSize : Nat := 8

/-- The number of bytes from which on a key or a value is too long for its length field. -/
def lengthLimit : Nat := UInt32.size

/-! ### Writing -/

/-- The header of a table with `count` entries. -/
def header (format : TableFormat) (count : Nat) : List UInt8 :=
  magic ++ LittleEndian.toBytes 2 version ++ [format.code] ++ LittleEndian.toBytes 8 count

/-- The record of one entry in the block. -/
def record (key value : List UInt8) : List UInt8 :=
  LittleEndian.toBytes 4 key.length ++ LittleEndian.toBytes 4 value.length ++ key ++ value

/-- The records of entries one after another. -/
def block (entries : List (List UInt8 × List UInt8)) : List UInt8 :=
  entries.flatMap fun (key, value) => record key value

/-- The footer that closes a block. -/
def footer (block : List UInt8) : List UInt8 :=
  LittleEndian.toBytes 4 (Checksum.crc32 block).toNat ++ [0, 0, 0, 0]

/-- The bytes of the file that holds a table. -/
def image (table : Table) : List UInt8 :=
  let block := block table.entries.toList
  header table.format table.entries.size ++ block ++ footer block

/-! ### Reading -/

/-- The records that a block consists of, in order; `limit` bounds their number.
What is left of a block behind the last one allowed is no header. -/
def recordsWithin : (limit : Nat) → List UInt8 → Except Damage (List (List UInt8 × List UInt8))
  | _, [] => .ok []
  | 0, _ :: _ => .error .truncatedHeader
  | limit + 1, block =>
    let lengths := block.take 8
    if lengths.length < 8 then .error .truncatedHeader
    else
      let keyLength := LittleEndian.ofBytes (lengths.take 4)
      let valueLength := LittleEndian.ofBytes (lengths.drop 4)
      let (payload, rest) := (block.drop 8).splitAt (keyLength + valueLength)
      if payload.length < keyLength + valueLength then .error .truncatedEntry
      else do
        let more ← recordsWithin limit rest
        .ok ((payload.take keyLength, payload.drop keyLength) :: more)

/-- The records that a block consists of, in order. A record takes eight bytes
at least, which bounds their number; fewer bytes than that are no header. -/
def records (block : List UInt8) : Except Damage (List (List UInt8 × List UInt8)) :=
  recordsWithin (block.length / 8) block

/-- `count` bytes of `bytes` from position `start` on. -/
def field (bytes : List UInt8) (start count : Nat) : List UInt8 := (bytes.drop start).take count

/-- The table that an image holds. A later record of a key overrides an
earlier one, and the count in the header is that of the keys. -/
def ofImage (bytes : List UInt8) : Except Damage Table :=
  if bytes.length < headerSize + footerSize then .error .tooShort
  else if field bytes 0 4 ≠ magic then .error .badMagic
  else if LittleEndian.ofBytes (field bytes 4 2) ≠ version then
    .error (.unsupportedVersion (LittleEndian.ofBytes (field bytes 4 2)))
  else match TableFormat.ofCode? (bytes.getD 6 0) with
    | none => .error .unknownFormat
    | some format =>
      let blockSize := bytes.length - (headerSize + footerSize)
      let block := field bytes headerSize blockSize
      if (Checksum.crc32 block).toNat ≠
          LittleEndian.ofBytes (field bytes (headerSize + blockSize) 4) then
        .error .checksumMismatch
      else match records block with
        | .error damage => .error damage
        | .ok found =>
          let entries := SortedMap.ofList found
          if LittleEndian.toBytes 8 entries.size ≠ field bytes 7 8 then .error .countMismatch
          else .ok ⟨format, entries⟩

end Table

end PartitionStore
