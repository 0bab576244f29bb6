import PartitionStore.Engine.Basic

/-!
# `PartitionStore.Engine.Requests`: what can be asked of an engine

Partitions are added, removed, read and written one at a time; `sync`,
`close` and `removeStore` have to do with all of them. `sync` stops at the
first failure. `close` and `removeStore` go on, so that one partition's failure
does not keep the others from being closed or deleted, and end the engine's
life in any case; the first failure is their answer.
-/

set_option autoImplicit false

namespace PartitionStore.EngineAction

/-! ### Partitions -/

/-- Opens a partition, making it if it is missing, and puts it into the registry. -/
def addPartitionAs (spec : PartitionSpec) : EngineAction Handle := do
  requireOpen
  let e ← engine
  if spec.store ≠ e.settings.store then
    throw (.request (.foreignStore spec.store e.settings.store))
  if e.hasOpen spec.id then throw (.duplicatePartition spec.id)
  let h ← onHost (e.backend.attach e.folder spec)
  modifyEngine fun e => { e with registry := e.registry ++ [(spec.id, h)] }
  report
  pure h

/-- Opens a partition with the store's format, making it if it is missing. -/
def addPartition (id : Int32) : EngineAction Handle := do
  addPartitionAs ((← engine).settings.spec id)

/-- Deletes a partition's storage and takes it out of the registry. A
partition that is not open is none to be removed; one whose storage cannot be
deleted stays. -/
def removePartition (id : Int32) : EngineAction Unit := do
  requireOpen
  let e ← engine
  match e.handle? id with
  | none => pure ()
  | some h =>
    -- Only a partition whose storage is gone leaves the registry.
    onHost (e.backend.drop h)
    modifyEngine fun e => { e with registry := e.registry.filter fun entry => entry.1 != id }
    report

/-- The opened partition of an id, if the engine is open. -/
def opened (id : Int32) : EngineAction Handle := do
  requireOpen
  match (← engine).handle? id with
  | some h => pure h
  | none => throw (.unknownPartition id)

/-- Binds `key` to `value` in a partition. -/
def put (id : Int32) (key value : Bytes) : EngineAction Unit := do
  let h ← opened id
  onHost ((← engine).backend.put h key value)

/-- The value of `key` in a partition. -/
def get (id : Int32) (key : Bytes) : EngineAction (Option Bytes) := do
  let h ← opened id
  onHost ((← engine).backend.get h key)

/-- Unbinds `key` in a partition. -/
def delete (id : Int32) (key : Bytes) : EngineAction Unit := do
  let h ← opened id
  onHost ((← engine).backend.delete h key)

/-! ### All partitions -/

/-- Makes the entries of all partitions durable, up to the first failure. -/
def sync : EngineAction Unit := do
  requireOpen
  let e ← engine
  e.registry.forM fun (_, h) => onHost (e.backend.sync h)

/-- Closes all partitions and ends the engine's life; the data stay. Closing
again does nothing. -/
def close : EngineAction Unit := do
  let e ← engine
  match e.phase with
  | .closed => pure ()
  | .dropped => throw .engineDropped
  | .opened =>
    -- The registry is given up before anything can fail.
    modifyEngine fun e => { e with registry := [] }
    let failure? ← forEachAttempt (fun (_, h) => onHost (e.backend.close h)) e.registry
    modifyEngine fun e => { e with phase := .closed }
    match failure? with
    | none => pure ()
    | some failure => throw failure

/-- Removes the store's folder if the engine answers for it. -/
def removeFolder : EngineAction Unit := do
  let e ← engine
  if e.ownsFolder then
    let _ ← onHost (HostAction.onTree e.folder.remove)

/-- Deletes all partitions, and the store's folder if the engine answers for
it, and ends the engine's life. -/
def removeStore : EngineAction Unit := do
  requireOpen
  let e ← engine
  modifyEngine fun e => { e with registry := [] }
  let failure? ← forEachAttempt (fun (_, h) => onHost (e.backend.drop h)) e.registry
  let removal ← attempt removeFolder
  modifyEngine fun e => { e with phase := .dropped }
  report
  -- A partition's failure counts before that of the folder.
  match failure?, removal with
  | some failure, _ => throw failure
  | none, .error failure => throw failure
  | none, .ok () => pure ()

/-- The ids, ascending, of the partitions found on disk. A closed engine still
answers, a dropped one does not. -/
def idsOnDisk : EngineAction (List Int32) := do
  let e ← engine
  if e.phase = .dropped then throw .engineDropped
  else onHost (e.backend.idsOnDisk e.folder)

end PartitionStore.EngineAction
