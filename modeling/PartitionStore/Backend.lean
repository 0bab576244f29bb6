import PartitionStore.Host

/-!
# `PartitionStore.Backend`: what an engine needs of its partitions

A backend opens partitions, finds those that are there, and works on opened
ones. An engine uses nothing else, so whatever holds of an engine for every
backend holds whichever way its partitions behave, failures included.

There are two: partitions with a table file each (`Backend.table`), and
partitions in memory only (`Backend.inMemory`), of which none is ever found
again. `Backend.withFaults` makes chosen operations of either fail.
-/

set_option autoImplicit false

namespace PartitionStore

/-- The kinds of backends. -/
inductive BackendKind where
  | table
  | inMemory
  deriving DecidableEq, Repr, Inhabited

namespace BackendKind

/-- The name of a kind in settings. -/
def name : BackendKind → String
  | table => "Table"
  | inMemory => "InMemory"

/-- The kind with a name. -/
def ofName? : String → Option BackendKind
  | "Table" => some table
  | "InMemory" => some inMemory
  | _ => none

/-- A kind of backend is known by its own name and by no other text. -/
theorem ofName?_eq_some_iff {text : String} {k : BackendKind} :
    ofName? text = some k ↔ text = k.name := by
  unfold ofName?
  split <;> cases k <;> simp_all [name]

end BackendKind

/-- What an engine needs of its partitions. -/
structure Backend where
  kind : BackendKind
  /-- Opens a partition of a store, making it if it is missing. -/
  attach : StoreFolder → PartitionSpec → HostAction Handle
  /-- The ids, ascending, of the partitions of a store that can be found again. -/
  idsOnDisk : StoreFolder → HostAction (List Int32)
  put : Handle → Bytes → Bytes → HostAction Unit
  get : Handle → Bytes → HostAction (Option Bytes)
  delete : Handle → Bytes → HostAction Unit
  sync : Handle → HostAction Unit
  close : Handle → HostAction Unit
  drop : Handle → HostAction Unit

namespace Backend

/-- Partitions with a directory and a table file each. -/
def table : Backend where
  kind := .table
  attach d spec :=
    if spec.store = d.store then
      HostAction.register (Partition.openTable (d.partitionPath spec.id) spec)
    else throw (.request (.foreignStore spec.store d.store))
  idsOnDisk d := HostAction.onTree d.idsOnDisk
  put := HostAction.put
  get := HostAction.get
  delete := HostAction.delete
  sync := HostAction.sync
  close := HostAction.close
  drop := HostAction.drop

/-- Partitions in memory only. They belong to whichever store asks for them. -/
def inMemory : Backend where
  kind := .inMemory
  attach _ spec := HostAction.register (pure (Partition.inMemory spec))
  idsOnDisk _ := pure []
  put := HostAction.put
  get := HostAction.get
  delete := HostAction.delete
  sync := HostAction.sync
  close := HostAction.close
  drop := HostAction.drop

/-- The backend of a kind. -/
def ofKind : BackendKind → Backend
  | .table => table
  | .inMemory => inMemory

/-- A backend is of the kind that was asked for. -/
@[simp] theorem kind_ofKind (k : BackendKind) : (ofKind k).kind = k := by
  cases k <;> rfl

/-! Opened partitions are worked on in the same way, whichever kind they are of. -/

/-- The kinds differ in how partitions come to be. A put is the same for all. -/
@[simp] theorem put_ofKind (k : BackendKind) : (ofKind k).put = HostAction.put := by
  cases k <;> rfl

/-- A get is the same for all kinds. -/
@[simp] theorem get_ofKind (k : BackendKind) : (ofKind k).get = HostAction.get := by
  cases k <;> rfl

/-- A delete is the same for all kinds. -/
@[simp] theorem delete_ofKind (k : BackendKind) : (ofKind k).delete = HostAction.delete := by
  cases k <;> rfl

/-- A sync is the same for all kinds; what there is to write is a matter of the partition. -/
@[simp] theorem sync_ofKind (k : BackendKind) : (ofKind k).sync = HostAction.sync := by
  cases k <;> rfl

/-- A close is the same for all kinds. -/
@[simp] theorem close_ofKind (k : BackendKind) : (ofKind k).close = HostAction.close := by
  cases k <;> rfl

/-- A drop is the same for all kinds. -/
@[simp] theorem drop_ofKind (k : BackendKind) : (ofKind k).drop = HostAction.drop := by
  cases k <;> rfl

/-! ### Planted failures -/

/-- Which operations are to fail, by partition id. -/
structure Faults where
  attach : List Int32
  idsOnDisk : Bool
  put : List Int32
  get : List Int32
  delete : List Int32
  sync : List Int32
  close : List Int32
  drop : List Int32
  deriving DecidableEq, Repr, Inhabited

/-- The failure that is planted under a name. -/
def Faults.error (name : String) : StoreError := .io (.planted ("injected " ++ name))

/-- Fails if the partition behind the handle is among `ids`, and otherwise acts. -/
def failingFor {α : Type} (name : String) (ids : List Int32) (h : Handle)
    (action : HostAction α) : HostAction α := do
  let host ← MonadState.get
  if ids.contains (host.partition h).id then throw (Faults.error name) else action

/-- The backend with failures planted: an operation that is to fail does so
before it reaches a partition. -/
def withFaults (b : Backend) (faults : Faults) : Backend where
  kind := b.kind
  attach d spec :=
    if faults.attach.contains spec.id then
      throw (Faults.error ("create " ++ StoreError.idText spec.id))
    else b.attach d spec
  idsOnDisk d :=
    if faults.idsOnDisk then throw (Faults.error "list") else b.idsOnDisk d
  put h key value := failingFor "put" faults.put h (b.put h key value)
  get h key := failingFor "get" faults.get h (b.get h key)
  delete h key := failingFor "delete" faults.delete h (b.delete h key)
  sync h := failingFor "sync" faults.sync h (b.sync h)
  close h := failingFor "close" faults.close h (b.close h)
  drop h := failingFor "drop" faults.drop h (b.drop h)

end Backend

end PartitionStore
