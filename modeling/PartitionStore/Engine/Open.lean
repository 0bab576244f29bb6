import PartitionStore.Engine.Basic

/-!
# `PartitionStore.Engine.Open`: bringing an engine up

Opening makes the store's folder, lets the format guard look at it if it was
there already, opens the metadata partition and then the partitions found on
disk, writes the engine record if this engine answers for the store, and only
then hands the engine out.

The partitions found on disk are opened by several workers, each of which
takes one stretch of the ascending ids, in order, up to its first failure. All
workers finish; the failure of the first stretch that has one is the answer.
-/

set_option autoImplicit false

namespace PartitionStore

namespace Restore

/-- Stretches of `size` items each, the last one shorter if need be; `limit`
bounds their number. -/
def stretchesWithin {α : Type} (size : Nat) : (limit : Nat) → List α → List (List α)
  | 0, _ => []
  | limit + 1, items =>
    if items.isEmpty then [] else items.take size :: stretchesWithin size limit (items.drop size)

/-- The length of each worker's stretch: the items shared out evenly, rounded
up. No more workers than items take part, and one at least. -/
def stretchSize (workers count : Nat) : Nat :=
  let busy := min (max workers 1) count
  (count + busy - 1) / busy

/-- The stretches that the workers take of the items. -/
def stretches {α : Type} (workers : Nat) (items : List α) : List (List α) :=
  stretchesWithin (stretchSize workers items.length) items.length items

/-- Opens partitions one after another, up to the first failure. -/
def openStretch (backend : Backend) (d : StoreFolder) (c : EngineSettings) :
    List Int32 → HostAction (List (Int32 × Handle))
  | [] => pure []
  | id :: rest => do
    let h ← backend.attach d (c.spec id)
    let more ← openStretch backend d c rest
    pure ((id, h) :: more)

/-- Opens the stretches, whatever fails, and gives the first failure, or all partitions. -/
def openStretches (backend : Backend) (d : StoreFolder) (c : EngineSettings) :
    List (List Int32) → HostAction (List (Int32 × Handle))
  | [] => pure []
  | stretch :: rest => fun host =>
    match openStretch backend d c stretch host with
    | .error e host' =>
      -- The other workers are at it already and are not called back.
      match openStretches backend d c rest host' with
      | .ok _ host'' => .error e host''
      | .error _ host'' => .error e host''
    | .ok opened host' =>
      match openStretches backend d c rest host' with
      | .ok more host'' => .ok (opened ++ more) host''
      | .error e host'' => .error e host''

/-- Opens the partitions of the ids with as many workers as are set. -/
def openData (backend : Backend) (d : StoreFolder) (c : EngineSettings) (ids : List Int32) :
    HostAction (List (Int32 × Handle)) :=
  openStretches backend d c (stretches c.workers ids)

/-- Opens the metadata partition and the partitions found on disk, as far as they are set to be. -/
def openAll (backend : Backend) (d : StoreFolder) (c : EngineSettings) :
    HostAction (List (Int32 × Handle)) := do
  let onDisk ← backend.idsOnDisk d
  let metadata ←
    if c.withMetadata then openStretch backend d c [Naming.metadataId] else pure []
  let data ←
    if c.withData then openData backend d c (onDisk.filter (· != Naming.metadataId))
    else pure []
  pure (metadata ++ data)

end Restore

namespace Engine

/-- Makes the store's folder ready: makes it, or lets the format guard look at
what is there. -/
def prepare (d : StoreFolder) (c : EngineSettings) : StoreAction Unit := do
  let made ← d.ensure
  if !made && c.guardOnReopen then
    let _ ← d.guard c.format

/-- Writes the engine record, unless there is one, if the engine is to answer for the store. -/
def keepRecord (d : StoreFolder) (c : EngineSettings) : StoreAction Unit := do
  if c.withMetadata then
    let _ ← StoreAction.during .keepRecord (d.recordOnce c.record)

/-- Opens a store with the given backend; gauges go to `listener`. -/
def openWith (c : EngineSettings) (backend : Backend) (listener : Option Listener) :
    HostAction Engine := do
  let d ← HostAction.ofExcept (StoreFolder.named c.root c.store)
  HostAction.onTree (prepare d c)
  let registry ← Restore.openAll backend d c
  HostAction.onTree (keepRecord d c)
  let host ← get
  let engine : Engine :=
    { settings := c, folder := d, backend, registry, phase := .opened, listener, reports := [] }
  pure (engine.reported host.tree)

/-- Opens a store with the backend that is set. -/
def «open» (c : EngineSettings) : HostAction Engine := openWith c (Backend.ofKind c.backend) none

end Engine

end PartitionStore
