import PartitionStore.Proofs.Engine.Steps
import PartitionStore.Proofs.Table.Block

/-!
# `PartitionStore.Proofs.Engine.Trace`: requests and what is seen of them

Whoever uses an engine sees the answers to the requests, and between them the
phase of the engine's life and the ids of its opened partitions. `Served` follows
an engine through any sequence of requests, with all that is seen on the way. It
leaves the order of the registry open.

* `Request.run_of_closed`, `Request.run_of_dropped`: how an engine answers after its end.
* `Served.invariant`: what every request keeps, a sequence of requests keeps.
-/

set_option autoImplicit false

namespace PartitionStore

/-- What an engine is asked for. -/
inductive Request where
  /-- A partition with the store's format. -/
  | addPartition (id : Int32)
  /-- A partition as it is described. -/
  | addPartitionAs (spec : PartitionSpec)
  | removePartition (id : Int32)
  | put (id : Int32) (key value : Bytes)
  | get (id : Int32) (key : Bytes)
  | delete (id : Int32) (key : Bytes)
  | sync
  | close
  | removeStore
  deriving DecidableEq, Repr

/-- What a request is answered with if it succeeds. -/
inductive Reply where
  | done
  /-- What was found under a key. -/
  | value (found : Option Bytes)
  /-- The partition that was opened, of this id and format. -/
  | partition (id : Int32) (format : TableFormat)
  deriving DecidableEq, Repr

/-- What is seen of an engine after a request. -/
structure Observation where
  answer : Except StoreError Reply
  phase : EnginePhase
  /-- The ids of the opened partitions, ascending. -/
  ids : List Int32

namespace Request

/-- The partition behind a handle, as it describes itself. -/
def describe (h : Handle) : EngineAction Reply := fun r =>
  .ok (.partition (r.host.partition h).id (r.host.partition h).format) r

/-- The request, made to an engine. -/
def run : Request → EngineAction Reply
  | addPartition id => do describe (← EngineAction.addPartition id)
  | addPartitionAs spec => do describe (← EngineAction.addPartitionAs spec)
  | removePartition id => do EngineAction.removePartition id; pure .done
  | put id key value => do EngineAction.put id key value; pure .done
  | get id key => do pure (.value (← EngineAction.get id key))
  | delete id key => do EngineAction.delete id key; pure .done
  | sync => do EngineAction.sync; pure .done
  | close => do EngineAction.close; pure .done
  | removeStore => do EngineAction.removeStore; pure .done

/-- What is seen of the engine when it has answered the request, and the engine itself. -/
def serve (request : Request) (r : Running) : Observation × Running :=
  match request.run r with
  | .ok reply r' => (⟨.ok reply, r'.engine.phase, r'.engine.openIds⟩, r')
  | .error e r' => (⟨.error e, r'.engine.phase, r'.engine.openIds⟩, r')

/-- The partition that is to be opened, if that is what the request is for. -/
def spec? (c : EngineSettings) : Request → Option PartitionSpec
  | addPartition id => some (c.spec id)
  | addPartitionAs spec => some spec
  | _ => none

/-- What is to be stored fits into a table. -/
def Fits : Request → Prop
  | put _ key value => Table.Fits (key, value)
  | _ => True

instance (request : Request) : Decidable request.Fits :=
  match request with
  | put _ key value => inferInstanceAs (Decidable (Table.Fits (key, value)))
  | addPartition _ | addPartitionAs _ | removePartition _ | get .. | delete .. | sync | close
  | removeStore => inferInstanceAs (Decidable True)

/-- Whether the request ends the engine's life. -/
def isLast : Request → Bool
  | close | removeStore => true
  | _ => false

end Request

/-- An engine serves requests one after another. The registry may be in another order before any
of them. -/
inductive Served : Running → List Request → List Observation → Running → Prop where
  | done (r : Running) : Served r [] [] r
  | request {r final : Running} {registry : List (Int32 × Handle)} {request : Request}
      {requests : List Request} {seen : List Observation}
      (perm : registry.Perm r.engine.registry)
      (rest : Served (request.serve ⟨{ r.engine with registry }, r.host⟩).2 requests seen final) :
      Served r (request :: requests)
        ((request.serve ⟨{ r.engine with registry }, r.host⟩).1 :: seen) final

/-- The registry may stay in the order it is in. -/
theorem Served.cons {r final : Running} {request : Request} {requests : List Request}
    {seen : List Observation} (rest : Served (request.serve r).2 requests seen final) :
    Served r (request :: requests) ((request.serve r).1 :: seen) final :=
  @Served.request r final r.engine.registry request requests seen (List.Perm.refl _) rest

/-- Any requests can be made, and all of them are answered. -/
theorem exists_served (r : Running) (requests : List Request) :
    ∃ seen final, Served r requests seen final := by
  induction requests generalizing r with
  | nil => exact ⟨[], r, .done r⟩
  | cons request rest ih =>
      obtain ⟨seen, final, run⟩ := ih (request.serve r).2
      exact ⟨_, final, run.cons⟩

/-- What holds of an engine in any order of its registry, and after each of the requests if it
held before, holds in the end. -/
theorem Served.invariant {inv : Running → Prop} {r final : Running} {requests : List Request}
    {seen : List Observation} (run : Served r requests seen final)
    (reorder : ∀ (r : Running) (registry : List (Int32 × Handle)), inv r →
      registry.Perm r.engine.registry → inv ⟨{ r.engine with registry }, r.host⟩)
    (step : ∀ request ∈ requests, ∀ r, inv r → inv (request.serve r).2) (start : inv r) :
    inv final := by
  induction run with
  | done r => exact start
  | request perm rest ih =>
      exact ih (fun next hnext => step next (List.mem_cons_of_mem _ hnext))
        (step _ (List.mem_cons_self ..) _ (reorder _ _ start perm))

namespace Request

variable {request : Request} {r r' : Running}

/-- What is seen of a request that was answered is the reply, and the engine after it. -/
theorem serve_of_ok {reply : Reply} (h : request.run r = .ok reply r') :
    request.serve r = (⟨.ok reply, r'.engine.phase, r'.engine.openIds⟩, r') := by
  rw [serve, h]

/-- What is seen of a request that failed is the error, and the engine after it. -/
theorem serve_of_error {e : StoreError} (h : request.run r = .error e r') :
    request.serve r = (⟨.error e, r'.engine.phase, r'.engine.openIds⟩, r') := by
  rw [serve, h]

/-- What is left of a served request is what running it leaves. -/
theorem serve_snd (request : Request) (r : Running) :
    (request.serve r).2 = Action.after (request.run r) := by
  rw [serve]
  split <;> rename_i h <;> rw [h] <;> rfl

/-- The ids that are seen are those of the engine. -/
theorem serve_ids (request : Request) (r : Running) :
    (request.serve r).1.ids = (request.serve r).2.engine.openIds := by
  rw [serve]
  split <;> rfl

/-! ### What each request leaves

What is left of a served request is what its operation leaves: the reply that is made of the
operation's result changes nothing. -/

/-- The engine after a partition of the store's format was asked for. -/
theorem serve_snd_addPartition (id : Int32) (r : Running) :
    ((addPartition id).serve r).2 = Action.after (EngineAction.addPartition id r) :=
  (serve_snd _ r).trans (Action.after_bind (fun _ _ => rfl) r)

/-- The engine after a partition was asked for as it is described. -/
theorem serve_snd_addPartitionAs (spec : PartitionSpec) (r : Running) :
    ((addPartitionAs spec).serve r).2 = Action.after (EngineAction.addPartitionAs spec r) :=
  (serve_snd _ r).trans (Action.after_bind (fun _ _ => rfl) r)

/-- The engine after a partition was to be removed. -/
theorem serve_snd_removePartition (id : Int32) (r : Running) :
    ((removePartition id).serve r).2 = Action.after (EngineAction.removePartition id r) :=
  (serve_snd _ r).trans (Action.after_bind (fun _ _ => rfl) r)

/-- The engine after a put. -/
theorem serve_snd_put (id : Int32) (key value : Bytes) (r : Running) :
    ((put id key value).serve r).2 = Action.after (EngineAction.put id key value r) :=
  (serve_snd _ r).trans (Action.after_bind (fun _ _ => rfl) r)

/-- The engine after a get. -/
theorem serve_snd_get (id : Int32) (key : Bytes) (r : Running) :
    ((get id key).serve r).2 = Action.after (EngineAction.get id key r) :=
  (serve_snd _ r).trans (Action.after_bind (fun _ _ => rfl) r)

/-- The engine after a delete. -/
theorem serve_snd_delete (id : Int32) (key : Bytes) (r : Running) :
    ((delete id key).serve r).2 = Action.after (EngineAction.delete id key r) :=
  (serve_snd _ r).trans (Action.after_bind (fun _ _ => rfl) r)

/-- The engine after a sync. -/
theorem serve_snd_sync (r : Running) :
    (sync.serve r).2 = Action.after (EngineAction.sync r) :=
  (serve_snd _ r).trans (Action.after_bind (fun _ _ => rfl) r)

/-- The engine after a close. -/
theorem serve_snd_close (r : Running) :
    (close.serve r).2 = Action.after (EngineAction.close r) :=
  (serve_snd _ r).trans (Action.after_bind (fun _ _ => rfl) r)

/-- The engine after the store was to be removed. -/
theorem serve_snd_removeStore (r : Running) :
    (removeStore.serve r).2 = Action.after (EngineAction.removeStore r) :=
  (serve_snd _ r).trans (Action.after_bind (fun _ _ => rfl) r)

/-! ### After the end -/

/-- An engine that is not open refuses every request but to be closed. -/
theorem run_of_refused {e : StoreError} (h : EngineAction.requireOpen r = .error e r)
    (hne : request ≠ .close) : request.run r = .error e r := by
  cases request with
  | close => exact absurd rfl hne
  | addPartition id =>
      have hadd : EngineAction.addPartition id r = .error e r := by
        rw [EngineAction.addPartition, Action.bind_of_ok (EngineAction.engine_apply r)]
        exact Action.bind_of_error h
      exact Action.bind_of_error hadd
  | addPartitionAs | removePartition | sync | removeStore =>
      exact Action.bind_of_error (Action.bind_of_error h)
  | put | get | delete =>
      -- These look for their partition first, and that is refused.
      exact Action.bind_of_error (Action.bind_of_error (Action.bind_of_error h))

/-- A closed engine can be closed again, and refuses everything else. -/
theorem run_of_closed (hphase : r.engine.phase = .closed) (request : Request) :
    request.run r = if request = .close then .ok .done r else .error .engineNotOpen r := by
  by_cases hclose : request = .close
  · subst hclose
    have hagain : EngineAction.close r = .ok () r := by
      rw [EngineAction.close, Action.bind_of_ok (EngineAction.engine_apply r)]
      simp only [hphase]
      rfl
    rw [if_pos rfl]
    exact Action.bind_of_ok hagain
  · rw [if_neg hclose]
    refine run_of_refused ?_ hclose
    simp only [EngineAction.requireOpen, Engine.requireOpen, hphase]

/-- A dropped engine refuses everything. -/
theorem run_of_dropped (hphase : r.engine.phase = .dropped) (request : Request) :
    request.run r = .error .engineDropped r := by
  by_cases hclose : request = .close
  · subst hclose
    have hrefuse : EngineAction.close r = .error .engineDropped r := by
      rw [EngineAction.close, Action.bind_of_ok (EngineAction.engine_apply r)]
      simp only [hphase]
      rfl
    exact Action.bind_of_error hrefuse
  · refine run_of_refused ?_ hclose
    simp only [EngineAction.requireOpen, Engine.requireOpen, hphase]

end Request

end PartitionStore
