import PartitionStore.EngineRecord.Basic
import PartitionStore.StoreAction
import PartitionStore.Text.Utf8

/-!
# `PartitionStore.EngineRecord.File`: engine records on disk

A record file that is missing, is no UTF-8 text or does not parse reads as no
record; that a file cannot be read for another reason is an error. A record
is written to a scratch file first, which then takes the record's place.
-/

set_option autoImplicit false

namespace PartitionStore.EngineRecord

/-- The text of the file at `p`. -/
def readText (t : FileTree) (p : Path) : Except IoError String := do
  let data ← t.read p
  match Text.decode? data with
  | some text => .ok text
  | none => .error .notUtf8

/-- The record in the file at `p`, if there is a readable one. -/
def readFrom (t : FileTree) (p : Path) : Except IoError (Option EngineRecord) :=
  match readText t p with
  | .ok text => .ok (parse? text)
  | .error .notFound => .ok none
  | .error .notUtf8 => .ok none
  | .error e => .error e

/-- Reads the record in the file at `p`, if there is a readable one. -/
def read (p : Path) : StoreAction (Option EngineRecord) :=
  .io <| Files.ask (readFrom · p)

/-- The bytes of the file that holds a record. -/
def bytes (r : EngineRecord) : Bytes := Text.encode r.properties

/-- Writes a record to the file at `p`. -/
def write (r : EngineRecord) (p : Path) : StoreAction Unit :=
  .io <| Files.replace p (p.withExtension "tmp") r.bytes

end PartitionStore.EngineRecord
