import PartitionStore.EngineSettings.Basic

/-!
# `PartitionStore.Engine.Basic`: the engine of a store

An engine is an opened store: the registry of its opened partitions, and the
phase of its life. It starts open and ends closed (data kept) or dropped (data
deleted); an engine that ended answers no further request and has an empty
registry.

The order of the registry is the order in which an engine goes through its
partitions when it has to do with all of them. Nothing promises a particular
one.

Whoever opens an engine may listen to its gauges: after a change of the
registry the engine reports the store's size and the number of its partitions.
-/

set_option autoImplicit false

namespace PartitionStore

/-- The phase of an engine's life. -/
inductive EnginePhase where
  | opened
  | closed
  | dropped
  deriving DecidableEq, Repr, Inhabited

/-- The name of a phase. -/
def EnginePhase.name : EnginePhase → String
  | opened => "Open"
  | closed => "Closed"
  | dropped => "Dropped"

/-- What listens to an engine's gauges. -/
inductive Listener where
  /-- Takes every report. -/
  | accepting
  /-- Fails on every report, which is of no consequence to the engine. -/
  | failing
  deriving DecidableEq, Repr, Inhabited

/-- One reported value. -/
structure Gauge where
  store : String
  name : String
  value : Nat
  deriving DecidableEq, Repr, Inhabited

/-- The gauge for the bytes of all files of the store. -/
def Gauge.sizeName : String := "store.size_bytes"

/-- The gauge for the number of opened partitions. -/
def Gauge.countName : String := "store.partition_count"

/-- The engine of a store. -/
structure Engine where
  settings : EngineSettings
  folder : StoreFolder
  backend : Backend
  /-- The opened partitions by id. -/
  registry : List (Int32 × Handle)
  phase : EnginePhase
  listener : Option Listener
  /-- What was reported to the listener so far, oldest first. -/
  reports : List Gauge

/-- An engine and the host that it runs on. -/
structure Running where
  engine : Engine
  host : Host

/-- A request to an engine. What it leaves behind is known also when it fails. -/
abbrev EngineAction (α : Type) := EStateM StoreError Running α

namespace Engine

/-! ### Questions -/

/-- The opened partition of an id. -/
def handle? (e : Engine) (id : Int32) : Option Handle := e.registry.lookup id

/-- The ids of the opened partitions, ascending. -/
def openIds (e : Engine) : List Int32 :=
  (SortedMap.ofList (e.registry.map fun (id, _) => (id, ()))).keys

/-- Whether a partition of this id is open. -/
def hasOpen (e : Engine) (id : Int32) : Bool := (e.handle? id).isSome

/-- How many partitions are open. -/
def openCount (e : Engine) : Nat := e.registry.length

/-- Whether the engine answers for the store's folder. -/
def ownsFolder (e : Engine) : Bool := e.settings.withMetadata

/-- The bytes of all files of the store. -/
def size (e : Engine) (t : FileTree) : Nat := e.folder.size t

/-- Fails unless the engine is open. -/
def requireOpen (e : Engine) : Except StoreError Unit :=
  match e.phase with
  | .opened => .ok ()
  | .closed => .error .engineNotOpen
  | .dropped => .error .engineDropped

/-- The engine after it reported its gauges, if anything listens. -/
def reported (e : Engine) (t : FileTree) : Engine :=
  match e.listener with
  | none => e
  | some _ =>
    { e with reports := e.reports ++
        [⟨e.settings.store, Gauge.sizeName, e.size t⟩,
         ⟨e.settings.store, Gauge.countName, e.openCount⟩] }

end Engine

namespace EngineAction

/-- An action on the host. -/
def onHost {α : Type} (action : HostAction α) : EngineAction α := fun r =>
  match action r.host with
  | .ok a host => .ok a { r with host }
  | .error e host => .error e { r with host }

/-- The engine as it is. -/
def engine : EngineAction Engine := fun r => .ok r.engine r

/-- Changes the engine. -/
def modifyEngine (change : Engine → Engine) : EngineAction Unit := fun r =>
  .ok () { r with engine := change r.engine }

/-- Fails unless the engine is open. -/
def requireOpen : EngineAction Unit := fun r =>
  match r.engine.requireOpen with
  | .ok () => .ok () r
  | .error e => .error e r

/-- Reports the gauges, if anything listens. -/
def report : EngineAction Unit := fun r =>
  .ok () { r with engine := r.engine.reported r.host.tree }

/-- Carries an action out and keeps its failure as an answer. -/
def attempt {α : Type} (action : EngineAction α) : EngineAction (Except StoreError α) := fun r =>
  match action r with
  | .ok a r' => .ok (.ok a) r'
  | .error e r' => .ok (.error e) r'

/-- Carries an action out for one thing after another, whatever fails, and
gives the first failure. -/
def forEachAttempt {ι : Type} (action : ι → EngineAction Unit) :
    List ι → EngineAction (Option StoreError)
  | [] => pure none
  | i :: rest => do
    let first ← attempt (action i)
    let later ← forEachAttempt action rest
    match first with
    | .ok () => pure later
    | .error e => pure (some e)

end EngineAction

end PartitionStore
