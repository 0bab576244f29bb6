import PartitionStore.StoreError

/-!
# `PartitionStore.Table.Writer`: writing a table entry by entry

A table file is written in one pass. The header comes first, with no entry
counted in it, then the records one after another; meanwhile the writer counts
them and feeds their bytes to the register of the checksum. `Writer.finish`
closes the block with the footer and puts the count in its place.

An entry whose key or value is too long for its length field is refused, and
the writer stays as it was before it.
-/

set_option autoImplicit false

namespace PartitionStore.Table

/-- A table file that is being written. -/
structure Writer where
  /-- The bytes written so far. -/
  written : Array UInt8
  /-- How many entries were added. -/
  count : Nat
  /-- The register of the checksum behind the block so far. -/
  register : UInt32

namespace Writer

/-- A new file, which has a header and no entries. -/
def create (format : TableFormat) : Writer :=
  ⟨(header format 0).toArray, 0, Checksum.start⟩

/-- Appends bytes to the block. -/
def append (w : Writer) (chunk : List UInt8) : Writer :=
  { w with written := w.written ++ chunk, register := Checksum.feed w.register chunk }

/-- Appends one entry. -/
def add (w : Writer) (key value : List UInt8) : Except RequestFault Writer :=
  if key.length ≥ lengthLimit then .error (.oversizedKey key.length)
  else if value.length ≥ lengthLimit then .error (.oversizedValue value.length)
  else
    let chunks :=
      [LittleEndian.toBytes 4 key.length, LittleEndian.toBytes 4 value.length, key, value]
    .ok { chunks.foldl append w with count := w.count + 1 }

/-- Appends entries one after another. It stops at the first one that does not
fit, and says why, with the writer as it is then. -/
def addAll (w : Writer) :
    List (List UInt8 × List UInt8) → Except (RequestFault × Writer) Writer
  | [] => .ok w
  | (key, value) :: rest =>
    match w.add key value with
    | .ok w => addAll w rest
    | .error fault => .error (fault, w)

/-- Where the count stands in a file. -/
def countOffset : Nat := 7

/-- The bytes with `data` in the place of those from `start` on. -/
def overwrite (bytes : List UInt8) (start : Nat) (data : List UInt8) : List UInt8 :=
  bytes.take start ++ data ++ bytes.drop (start + data.length)

/-- The whole file: the footer behind the block, and the count in the header. -/
def finish (w : Writer) : List UInt8 :=
  let footer := LittleEndian.toBytes 4 (Checksum.finish w.register).toNat ++ [0, 0, 0, 0]
  overwrite (w.written.toList ++ footer) countOffset (LittleEndian.toBytes 8 w.count)

end Writer

end PartitionStore.Table
