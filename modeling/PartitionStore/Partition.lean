import PartitionStore.StoreFolder
import PartitionStore.Table.File

/-!
# `PartitionStore.Partition`: one numbered partition

An open partition keeps all its entries in memory. A partition with a table
has a directory too, in which a table file holds the entries as they were at
the last flush; it is *dirty* while its entries may differ from that file.

Reading and writing entries happens in memory. Flushing, closing and dropping
work on the partition and on the file tree in turn (`PartitionAction`): a
partition counts as clean before its table is written, and as dirty again if
that fails; it is closed once it was flushed, and emptied once its directory
was removed.
-/

set_option autoImplicit false

namespace PartitionStore

/-- What is needed to open a partition. -/
structure PartitionSpec where
  /-- The store that the partition belongs to. -/
  store : String
  id : Int32
  format : TableFormat
  deriving DecidableEq, Repr, Inhabited

/-- Where a partition keeps its entries beside memory. -/
inductive Storage where
  /-- Nowhere: they are lost with the partition. -/
  | memory
  /-- In the table file of the directory `dir`; `dirty` if the entries may differ from it. -/
  | table (dir : Path) (dirty : Bool)
  deriving DecidableEq, Repr, Inhabited

/-- The storage after a change of the entries. -/
def Storage.touched : Storage → Storage
  | memory => memory
  | table dir _ => table dir true

/-- The storage after a flush, or after there is nothing left to flush. -/
def Storage.settled : Storage → Storage
  | memory => memory
  | table dir _ => table dir false

/-- An opened partition. -/
structure Partition where
  id : Int32
  format : TableFormat
  /-- The values by key. -/
  entries : SortedMap Bytes Bytes
  storage : Storage
  /-- Set once the partition was closed or dropped. -/
  closed : Bool
  deriving DecidableEq

namespace Partition

/-- The name of the table file in a partition's directory. -/
def tableFileName : String := "data.tbl"

/-- The path of the table file in a partition's directory. -/
def tableFile (dir : Path) : Path := dir.join tableFileName

/-! ### Opening -/

/-- A new partition that lives in memory only. -/
def inMemory (spec : PartitionSpec) : Partition :=
  ⟨spec.id, spec.format, SortedMap.empty, .memory, false⟩

/-- Opens the partition in the directory `dir`, which is made if it is
missing. Without a table file the partition is new, and gets an empty table
at once, which records the format; a table of another format is refused. -/
def openTable (dir : Path) (spec : PartitionSpec) : StoreAction Partition := do
  StoreAction.io <| Files.createDirAll dir
  let t ← get
  if t.exists (tableFile dir) then
    let table ← Table.read (tableFile dir)
    if table.format = spec.format then
      pure ⟨spec.id, spec.format, table.entries, .table dir false, false⟩
    else throw (.formatMismatch spec.id spec.format table.format)
  else
    let _ ← Table.write ⟨spec.format, SortedMap.empty⟩ (tableFile dir)
    pure ⟨spec.id, spec.format, SortedMap.empty, .table dir false, false⟩

/-! ### Reading and writing -/

/-- Fails if the partition was closed or dropped. -/
def requireOpen (p : Partition) : Except StoreError Unit :=
  if p.closed then .error (.partitionClosed p.id) else .ok ()

/-- Binds `key` to `value`. -/
def put (p : Partition) (key value : Bytes) : Except StoreError Partition := do
  p.requireOpen
  .ok { p with entries := p.entries.insert key value, storage := p.storage.touched }

/-- The value of `key`. -/
def get (p : Partition) (key : Bytes) : Except StoreError (Option Bytes) := do
  p.requireOpen
  .ok (p.entries.get? key)

/-- Unbinds `key`. If it was not bound there is nothing to flush. -/
def delete (p : Partition) (key : Bytes) : Except StoreError Partition := do
  p.requireOpen
  if p.entries.contains key then
    .ok { p with entries := p.entries.erase key, storage := p.storage.touched }
  else .ok p

/-- The bytes of all files in the partition's directory. -/
def size (p : Partition) (t : FileTree) : Nat :=
  match p.storage with
  | .memory => 0
  | .table dir _ => t.size dir

/-- An opened partition, with the tree that it is opened on. -/
structure InTree where
  tree : FileTree
  partition : Partition

end Partition

/-! ### Flushing and releasing -/

/-- An action on an opened partition. What it leaves behind, in the tree and in memory, is known
also when it fails. -/
abbrev PartitionAction (α : Type) := EStateM StoreError Partition.InTree α

namespace PartitionAction

/-- The partition as it is. -/
def partition : PartitionAction Partition := do
  let s ← get
  pure s.partition

/-- Changes the partition in memory. -/
def modifyPartition (change : Partition → Partition) : PartitionAction Unit :=
  modify fun s => { s with partition := change s.partition }

/-- An action on the tree, with the partition as it is. -/
def onTree {α : Type} (action : StoreAction α) : PartitionAction α := fun s =>
  match action s.tree with
  | .ok a tree => .ok a { s with tree }
  | .error e tree => .error e { s with tree }

/-- Writes the table file if the partition is dirty. The partition counts as clean before the file
is written. Where that fails, or is stopped, it is dirty again, so that the next flush is another
attempt. -/
def flushUnder (fault : Option WriteFault) : PartitionAction Unit := do
  let p ← partition
  match p.storage with
  | .table dir true => do
    modifyPartition fun p => { p with storage := p.storage.settled }
    try
      let _ ← onTree (Table.writeUnder fault ⟨p.format, p.entries⟩ (Partition.tableFile dir))
    catch failure =>
      modifyPartition fun p => { p with storage := p.storage.touched }
      throw failure
  | _ => pure ()

/-- Makes the entries durable, unless the writing is stopped. -/
def syncUnder (fault : Option WriteFault) : PartitionAction Unit := do
  let p ← partition
  if p.closed then throw (.partitionClosed p.id) else flushUnder fault

/-- Makes the entries durable and releases the partition, unless the writing is stopped. Closing
again does nothing. -/
def closeUnder (fault : Option WriteFault) : PartitionAction Unit := do
  let p ← partition
  if p.closed then pure ()
  else do
    flushUnder fault
    modifyPartition fun p => { p with closed := true }

/-- Deletes the partition's directory and releases the partition. -/
def drop : PartitionAction Unit := do
  let s ← get
  match s.partition.storage with
  | .memory => pure ()
  | .table dir _ =>
    if s.tree.exists dir then onTree (.io <| Files.removeDirAll dir)
  modifyPartition fun p =>
    { p with closed := true, entries := SortedMap.empty, storage := p.storage.settled }

end PartitionAction

end PartitionStore
