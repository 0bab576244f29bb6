import PartitionStore.StoreAction
import PartitionStore.Table.Writer

/-!
# `PartitionStore.Table.File`: tables on disk

A table is written to a scratch file first, which then takes the table
file's place, so the table file holds a whole image at all times. A key or
value that is too long for the layout stops the writing, and what was written
until then stays behind in the scratch file.
-/

set_option autoImplicit false

namespace PartitionStore.Table

/-- The file beside the table file at `p` that a table is written to first. -/
def scratchFile (p : Path) : Path := p.withExtension "tmp"

/-- Writes a table to the file at `p`, and tells how many bytes that takes. The writing may be
stopped. -/
def writeUnder (fault : Option WriteFault) (table : Table) (p : Path) : StoreAction Nat :=
  match (Writer.create table.format).addAll table.entries.toList with
  | .error (refusal, w) => do
    .io <| Files.fillUnder fault (scratchFile p) w.written.toList
    throw (.request refusal)
  | .ok w => do
    .io <| Files.replaceUnder fault p (scratchFile p) w.finish
    pure w.finish.length

/-- Writes a table to the file at `p`, and tells how many bytes that takes. -/
def write (table : Table) (p : Path) : StoreAction Nat := table.writeUnder none p

/-- Reads the table in the file at `p`. -/
def read (p : Path) : StoreAction Table := do
  let data ← StoreAction.io <| Files.ask (·.read p)
  match ofImage data with
  | .ok table => pure table
  | .error damage => throw (.corruption p damage)

end PartitionStore.Table
