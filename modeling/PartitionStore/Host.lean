import PartitionStore.Partition

/-!
# `PartitionStore.Host`: file tree and opened partitions

An opened partition is shared: the engine that opened it and whoever asked
the engine for it use the same one, and each may outlive the other. So
partitions live in one place, the `Host`, and are named by handles.

A handle that was never given out behaves like that of a closed partition.
-/

set_option autoImplicit false

namespace PartitionStore

/-- The name of an opened partition. -/
abbrev Handle := Nat

/-- A file tree and the partitions opened on it. -/
structure Host where
  tree : FileTree
  /-- The partitions opened so far; the handle of a partition is its index. -/
  partitions : List Partition
  deriving Inhabited

/-- An action on a host. What it leaves behind is known also when it fails. -/
abbrev HostAction (α : Type) := EStateM StoreError Host α

namespace Host

/-- The host on which nothing was opened yet. -/
def ofTree (tree : FileTree) : Host := ⟨tree, []⟩

/-- What a handle that was never given out stands for. -/
def released : Partition := ⟨0, .plain, SortedMap.empty, .memory, true⟩

/-- The partition with a handle. -/
def partition (host : Host) (h : Handle) : Partition := host.partitions.getD h released

/-- The host with another partition behind a handle. -/
def setPartition (host : Host) (h : Handle) (p : Partition) : Host :=
  { host with partitions := host.partitions.set h p }

/-- The host with one more partition, whose handle is the number of those before it. -/
def add (host : Host) (p : Partition) : Host :=
  { host with partitions := host.partitions ++ [p] }

/-- The partition added last is behind the handle after all others. -/
@[simp] theorem partition_add_self (host : Host) (p : Partition) :
    (host.add p).partition host.partitions.length = p := by
  simp [partition, add]

/-- Handles that were given out before stand for the same partitions. -/
theorem partition_add_of_lt (host : Host) (p : Partition) {h : Handle}
    (hh : h < host.partitions.length) : (host.add p).partition h = host.partition h := by
  simp [partition, add, List.getElem?_append_left hh]

/-- The handle stands for the partition that was put in its place. -/
theorem partition_setPartition_self (host : Host) (p : Partition) {h : Handle}
    (hh : h < host.partitions.length) : (host.setPartition h p).partition h = p := by
  simp [partition, setPartition, hh]

/-- Other handles stand for what they stood for. -/
theorem partition_setPartition_of_ne (host : Host) (p : Partition) {h g : Handle} (hne : g ≠ h) :
    (host.setPartition h p).partition g = host.partition g := by
  simp [partition, setPartition, List.getElem?_set_ne hne.symm]

end Host

namespace HostAction

/-- An action on the file tree of the host. -/
def onTree {α : Type} (action : StoreAction α) : HostAction α := fun host =>
  match action host.tree with
  | .ok a tree => .ok a { host with tree }
  | .error e tree => .error e { host with tree }

/-- A result that needs nothing of the host. -/
def ofExcept {α : Type} : Except StoreError α → HostAction α
  | .ok a => pure a
  | .error e => throw e

/-- Opens a partition and gives out its handle. -/
def register (opening : StoreAction Partition) : HostAction Handle := do
  let p ← onTree opening
  let host ← get
  set (host.add p)
  pure host.partitions.length

/-- Lets an action work on the partition behind a handle. What it leaves of the partition is kept
also when it fails. -/
def update (h : Handle) (action : PartitionAction Unit) : HostAction Unit := fun host =>
  let left (s : Partition.InTree) : Host := { host with tree := s.tree }.setPartition h s.partition
  match action ⟨host.tree, host.partition h⟩ with
  | .ok _ s => .ok () (left s)
  | .error e s => .error e (left s)

/-! ### The operations of a partition, by handle -/

/-- Binds `key` to `value`. -/
def put (h : Handle) (key value : Bytes) : HostAction Unit := do
  let host ← MonadState.get
  let p ← ofExcept ((host.partition h).put key value)
  modify (·.setPartition h p)

/-- The value of `key`. -/
def get (h : Handle) (key : Bytes) : HostAction (Option Bytes) := do
  let host ← MonadState.get
  ofExcept ((host.partition h).get key)

/-- Unbinds `key`. -/
def delete (h : Handle) (key : Bytes) : HostAction Unit := do
  let host ← MonadState.get
  let p ← ofExcept ((host.partition h).delete key)
  modify (·.setPartition h p)

/-- Makes the entries durable, unless the writing is stopped. -/
def syncUnder (fault : Option WriteFault) (h : Handle) : HostAction Unit :=
  update h (PartitionAction.syncUnder fault)

/-- Makes the entries durable and releases the partition, unless the writing is stopped. -/
def closeUnder (fault : Option WriteFault) (h : Handle) : HostAction Unit :=
  update h (PartitionAction.closeUnder fault)

/-- Makes the entries durable. -/
def sync (h : Handle) : HostAction Unit := syncUnder none h

/-- Makes the entries durable and releases the partition. -/
def close (h : Handle) : HostAction Unit := closeUnder none h

/-- Deletes the partition's directory and releases the partition. -/
def drop (h : Handle) : HostAction Unit := update h PartitionAction.drop

end HostAction

end PartitionStore
