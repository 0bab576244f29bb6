import PartitionStore.Engine.Requests
import PartitionStore.Proofs.Host
import PartitionStore.Proofs.SortedMap

/-!
# `PartitionStore.Proofs.Engine.Steps`: what each request does

An engine that is open answers a request by one operation of its backend, or by
one after another for all its partitions. Here is one equation for each request
of the first kind, and for those of the second kind what success of all the
operations leads to.

* `Engine.mem_openIds_iff`, `Engine.hasOpen_iff`: what the registry says of an id.
* `addPartitionAs_eq`, `removePartition_eq`, `put_eq`, `get_eq`, `delete_eq`: requests that
  have to do with one partition.
* `forM_onHost`, `forEachAttempt_onHost`: an invariant that each operation hands
  on to the rest of them.
* `close_eq_ok_iff`, `removeStore_of_ok`: the requests that end an engine's life.
-/

set_option autoImplicit false

namespace PartitionStore

namespace Engine

variable (e : Engine) (t : FileTree)

/-! ### Reports -/

/-- To report gauges leaves the settings as they are. -/
@[simp] theorem settings_reported : (e.reported t).settings = e.settings := by
  unfold reported
  split <;> rfl

/-- To report gauges leaves the folder as it is. -/
@[simp] theorem folder_reported : (e.reported t).folder = e.folder := by
  unfold reported
  split <;> rfl

/-- To report gauges leaves the backend as it is. -/
@[simp] theorem backend_reported : (e.reported t).backend = e.backend := by
  unfold reported
  split <;> rfl

/-- To report gauges leaves the registry as it is. -/
@[simp] theorem registry_reported : (e.reported t).registry = e.registry := by
  unfold reported
  split <;> rfl

/-- To report gauges leaves the phase as it is. -/
@[simp] theorem phase_reported : (e.reported t).phase = e.phase := by
  unfold reported
  split <;> rfl

/-! ### Registries -/

/-- The open ids are those of the registry. -/
theorem mem_openIds_iff {e : Engine} {id : Int32} :
    id ∈ e.openIds ↔ id ∈ e.registry.map Prod.fst := by
  have hkeys : e.openIds = (SortedMap.ofList ((e.registry.map Prod.fst).map fun id =>
      (id, ()))).keys := by
    rw [openIds, List.map_map]
    rfl
  rw [hkeys, SortedMap.mem_keys_ofList_iff]

/-- An id is open exactly if a handle is registered under it. -/
theorem mem_openIds_iff_exists {e : Engine} {id : Int32} :
    id ∈ e.openIds ↔ ∃ h, (id, h) ∈ e.registry := by
  simp [mem_openIds_iff]

/-- So the id of a registered handle is open. -/
theorem mem_openIds_of_mem {e : Engine} {id : Int32} {h : Handle}
    (hmem : (id, h) ∈ e.registry) : id ∈ e.openIds := mem_openIds_iff_exists.2 ⟨h, hmem⟩

/-- The engine says that an id is open exactly if it is registered. -/
theorem hasOpen_iff {e : Engine} {id : Int32} :
    e.hasOpen id = true ↔ id ∈ e.registry.map Prod.fst := by
  rw [hasOpen, handle?, List.lookup_isSome_iff, List.mem_map]
  simp only [beq_iff_eq, @eq_comm _ id]

/-- No handle is found exactly for the ids that are not registered. -/
theorem handle?_eq_none_iff {e : Engine} {id : Int32} :
    e.handle? id = none ↔ id ∉ e.registry.map Prod.fst := by
  rw [← hasOpen_iff, hasOpen]
  cases e.handle? id <;> simp

end Engine

namespace EngineAction

variable {α ι : Type} {r r' : Running} {host : Host} {e : StoreError}

/-! ### The parts of a request -/

/-- The engine is the answer, and stays. -/
@[simp] theorem engine_apply (r : Running) : engine r = .ok r.engine r := rfl

/-- A change of the engine changes nothing else. -/
@[simp] theorem modifyEngine_apply (change : Engine → Engine) (r : Running) :
    modifyEngine change r = .ok () { r with engine := change r.engine } := rfl

/-- An action on the host that succeeds leaves the engine as it is. -/
theorem onHost_of_ok {action : HostAction α} {a : α} (h : action r.host = .ok a host) :
    onHost action r = .ok a { r with host } := by
  simp only [onHost, h]

/-- So does one that fails. -/
theorem onHost_of_error {action : HostAction α} (h : action r.host = .error e host) :
    onHost action r = .error e { r with host } := by
  simp only [onHost, h]

/-- There is no other way for an action on the host to succeed. -/
theorem onHost_eq_ok_iff {action : HostAction α} {a : α} :
    onHost action r = .ok a r' ↔ ∃ host, action r.host = .ok a host ∧ r' = { r with host } := by
  cases h : action r.host with
  | error e host => simp [onHost_of_error h]
  | ok b host =>
      rw [onHost_of_ok h]
      constructor
      · intro e
        cases e
        exact ⟨host, rfl, rfl⟩
      · rintro ⟨host', e, rfl⟩
        cases e
        rfl

/-- An engine that is open lets a request pass. -/
theorem requireOpen_of_opened (h : r.engine.phase = .opened) : requireOpen r = .ok () r := by
  simp only [requireOpen, Engine.requireOpen, h]

/-! ### One partition -/

/-- The store's own format is one of those that can be asked for. -/
theorem addPartition_eq (id : Int32) :
    addPartition id r = addPartitionAs (r.engine.settings.spec id) r :=
  Action.bind_of_ok (engine_apply r)

section Opened

variable (hphase : r.engine.phase = .opened)
include hphase

/-- A partition of the store's own and of a new id is opened, and registered if that succeeds. -/
theorem addPartitionAs_eq (spec : PartitionSpec) :
    addPartitionAs spec r =
      if spec.store ≠ r.engine.settings.store then
        .error (.request (.foreignStore spec.store r.engine.settings.store)) r
      else if r.engine.hasOpen spec.id then .error (.duplicatePartition spec.id) r
      else match r.engine.backend.attach r.engine.folder spec r.host with
        | .ok h host => .ok h ⟨Engine.reported
            { r.engine with registry := r.engine.registry ++ [(spec.id, h)] } host.tree, host⟩
        | .error e host => .error e { r with host } := by
  rw [addPartitionAs, Action.bind_of_ok (requireOpen_of_opened hphase),
    Action.bind_of_ok (engine_apply r)]
  by_cases hstore : spec.store ≠ r.engine.settings.store
  · rw [if_pos hstore, if_pos hstore]
    rfl
  · rw [if_neg hstore, if_neg hstore]
    by_cases hopen : r.engine.hasOpen spec.id = true
    · rw [if_pos hopen, if_pos hopen]
      rfl
    · rw [if_neg hopen, if_neg hopen]
      cases hattach : r.engine.backend.attach r.engine.folder spec r.host with
      | ok h host => exact Action.bind_of_ok (onHost_of_ok hattach)
      | error e host => exact Action.bind_of_error (onHost_of_error hattach)

/-- A registered partition is dropped, and taken out of the registry if that succeeds. -/
theorem removePartition_eq (id : Int32) :
    removePartition id r = match r.engine.handle? id with
      | none => .ok () r
      | some h => match r.engine.backend.drop h r.host with
        | .ok () host => .ok () ⟨Engine.reported { r.engine with
            registry := r.engine.registry.filter fun entry => entry.1 != id } host.tree, host⟩
        | .error e host => .error e { r with host } := by
  rw [removePartition, Action.bind_of_ok (requireOpen_of_opened hphase),
    Action.bind_of_ok (engine_apply r)]
  cases r.engine.handle? id with
  | none => rfl
  | some h =>
      simp only
      cases hdrop : r.engine.backend.drop h r.host with
      | ok _ host => exact Action.bind_of_ok (onHost_of_ok hdrop)
      | error e host => exact Action.bind_of_error (onHost_of_error hdrop)

/-- A request for what a partition holds is one to the partition of that id, if it is registered. -/
theorem opened_bind_eq (id : Int32) (request : Handle → EngineAction α) :
    (opened id >>= request) r = match r.engine.handle? id with
      | none => .error (.unknownPartition id) r
      | some h => request h r := by
  have hopened : opened id r = match r.engine.handle? id with
      | none => .error (.unknownPartition id) r
      | some h => .ok h r := by
    rw [opened, Action.bind_of_ok (requireOpen_of_opened hphase),
      Action.bind_of_ok (engine_apply r)]
    cases r.engine.handle? id <;> rfl
  cases hlookup : r.engine.handle? id with
  | none =>
      rw [hlookup] at hopened
      exact Action.bind_of_error hopened
  | some h =>
      rw [hlookup] at hopened
      exact Action.bind_of_ok hopened

/-- While the engine is open a put is one on the partition of that id, if there is one. -/
theorem put_eq (id : Int32) (key value : Bytes) :
    put id key value r = match r.engine.handle? id with
      | none => .error (.unknownPartition id) r
      | some h => onHost (r.engine.backend.put h key value) r := opened_bind_eq hphase id _

/-- While the engine is open a get is one on the partition of that id, if there is one. -/
theorem get_eq (id : Int32) (key : Bytes) :
    get id key r = match r.engine.handle? id with
      | none => .error (.unknownPartition id) r
      | some h => onHost (r.engine.backend.get h key) r := opened_bind_eq hphase id _

/-- While the engine is open a delete is one on the partition of that id, if there is one. -/
theorem delete_eq (id : Int32) (key : Bytes) :
    delete id key r = match r.engine.handle? id with
      | none => .error (.unknownPartition id) r
      | some h => onHost (r.engine.backend.delete h key) r := opened_bind_eq hphase id _

/-- While the engine is open a sync goes through the registry, up to the first failure. -/
theorem sync_eq : sync r =
    (r.engine.registry.forM fun (_, h) => onHost (r.engine.backend.sync h) :
      EngineAction Unit) r := by
  rw [sync, Action.bind_of_ok (requireOpen_of_opened hphase), Action.bind_of_ok (engine_apply r)]

end Opened

/-! ### One partition after another -/

/-- Nothing failed in a sequence of attempts just if the first one succeeded, and all others did. -/
theorem forEachAttempt_cons_eq_none_iff {action : ι → EngineAction Unit}
    {i : ι} {rest : List ι} :
    forEachAttempt action (i :: rest) r = .ok none r' ↔
      ∃ r₁, action i r = .ok () r₁ ∧ forEachAttempt action rest r₁ = .ok none r' := by
  rw [forEachAttempt]
  cases haction : action i r with
  | ok u r₁ =>
      have hattempt : attempt (action i) r = .ok (.ok ()) r₁ := by
        simp only [attempt, haction]
      rw [Action.bind_of_ok hattempt]
      constructor
      · intro h
        obtain ⟨later, r₂, hrest, hlast⟩ := Action.bind_eq_ok_iff.1 h
        cases hlast
        exact ⟨r₁, rfl, hrest⟩
      · rintro ⟨r₂, e, hrest⟩
        cases e
        rw [Action.bind_of_ok hrest]
        rfl
  | error e r₁ =>
      have hattempt : attempt (action i) r = .ok (.error e) r₁ := by
        simp only [attempt, haction]
      rw [Action.bind_of_ok hattempt]
      constructor
      · intro h
        obtain ⟨later, r₂, -, hlast⟩ := Action.bind_eq_ok_iff.1 h
        cases hlast
      · rintro ⟨r₂, e, -⟩
        cases e

section Loops

variable {action : ι → HostAction Unit} {inv : List ι → Host → Prop} {items : List ι}

/-- Where every operation succeeds and hands an invariant on to the rest, all of them succeed. -/
theorem forM_onHost (step : ∀ i rest host, inv (i :: rest) host →
      ∃ host', action i host = .ok () host' ∧ inv rest host') (h : inv items r.host) :
    ∃ host, (items.forM fun i => onHost (action i) : EngineAction Unit) r =
      .ok () { r with host } ∧ inv [] host := by
  induction items generalizing r with
  | nil => exact ⟨r.host, rfl, h⟩
  | cons i rest ih =>
      obtain ⟨host₁, hfirst, hinv⟩ := step i rest r.host h
      obtain ⟨host₂, hrest, hlast⟩ := @ih { r with host := host₁ } hinv
      exact ⟨host₂, (Action.bind_of_ok (onHost_of_ok hfirst)).trans hrest, hlast⟩

/-- A sequence of operations that is left at the first failure keeps what each of them keeps,
whether it succeeds or not. -/
theorem after_forM_onHost {inv : Host → Prop} (step : ∀ i ∈ items, ∀ host, inv host →
      inv (Action.after (action i host))) (h : inv r.host) :
    ∃ host, Action.after ((items.forM fun i => onHost (action i) : EngineAction Unit) r) =
      { r with host } ∧ inv host := by
  induction items generalizing r with
  | nil => exact ⟨r.host, rfl, h⟩
  | cons i rest ih =>
      have hstep := step i (List.mem_cons_self ..) r.host h
      show ∃ host, Action.after ((onHost (action i) >>= fun _ =>
        rest.forM fun i => onHost (action i) : EngineAction Unit) r) = { r with host } ∧ inv host
      cases hfirst : action i r.host with
      | ok _ host₁ =>
          rw [hfirst] at hstep
          rw [Action.bind_of_ok (onHost_of_ok hfirst)]
          exact @ih { r with host := host₁ } (fun j hj => step j (List.mem_cons_of_mem _ hj)) hstep
      | error e host₁ =>
          rw [hfirst] at hstep
          rw [Action.bind_of_error (onHost_of_error hfirst)]
          exact ⟨host₁, rfl, hstep⟩

/-- A sequence of attempts keeps what each of them keeps, and has an answer in any case. -/
theorem after_forEachAttempt_onHost {inv : Host → Prop} (step : ∀ i ∈ items, ∀ host, inv host →
      inv (Action.after (action i host))) (h : inv r.host) :
    ∃ failure? host, forEachAttempt (fun i => onHost (action i)) items r =
      .ok failure? { r with host } ∧ inv host := by
  induction items generalizing r with
  | nil => exact ⟨none, r.host, rfl, h⟩
  | cons i rest ih =>
      have hstep := step i (List.mem_cons_self ..) r.host h
      -- Whatever the first attempt comes to, the others follow, and its failure comes first.
      obtain ⟨first, host₁, hfirst, hinv⟩ : ∃ first host₁, attempt (onHost (action i)) r =
          .ok first { r with host := host₁ } ∧ inv host₁ := by
        cases haction : action i r.host with
        | ok _ host₁ =>
            rw [haction] at hstep
            exact ⟨.ok (), host₁, by simp only [attempt, onHost_of_ok haction], hstep⟩
        | error e host₁ =>
            rw [haction] at hstep
            exact ⟨.error e, host₁, by simp only [attempt, onHost_of_error haction], hstep⟩
      obtain ⟨later, host₂, hrest, hlast⟩ := @ih { r with host := host₁ }
        (fun j hj => step j (List.mem_cons_of_mem _ hj)) hinv
      rw [forEachAttempt, Action.bind_of_ok hfirst, Action.bind_of_ok hrest]
      cases first with
      | ok _ => exact ⟨later, host₂, rfl, hlast⟩
      | error e => exact ⟨some e, host₂, rfl, hlast⟩

/-- Where every one of them succeeds and hands an invariant on to the rest, nothing fails. -/
theorem forEachAttempt_onHost (step : ∀ i rest host, inv (i :: rest) host →
      ∃ host', action i host = .ok () host' ∧ inv rest host') (h : inv items r.host) :
    ∃ host, forEachAttempt (fun i => onHost (action i)) items r = .ok none { r with host } ∧
      inv [] host := by
  induction items generalizing r with
  | nil => exact ⟨r.host, rfl, h⟩
  | cons i rest ih =>
      obtain ⟨host₁, hfirst, hinv⟩ := step i rest r.host h
      obtain ⟨host₂, hrest, hlast⟩ := @ih { r with host := host₁ } hinv
      exact ⟨host₂, forEachAttempt_cons_eq_none_iff.2 ⟨_, onHost_of_ok hfirst, hrest⟩, hlast⟩

/-- Where nothing failed in a sequence of attempts, an invariant was handed on to the end. -/
theorem inv_of_forEachAttempt (step : ∀ i rest host host', inv (i :: rest) host →
      action i host = .ok () host' → inv rest host') (h : inv items r.host)
    (hall : forEachAttempt (fun i => onHost (action i)) items r = .ok none r') :
    inv [] r'.host := by
  induction items generalizing r with
  | nil =>
      cases hall
      exact h
  | cons i rest ih =>
      obtain ⟨r₁, hfirst, hrest⟩ := forEachAttempt_cons_eq_none_iff.1 hall
      obtain ⟨host, hrun, rfl⟩ := onHost_eq_ok_iff.1 hfirst
      exact ih (step i rest r.host host h hrun) hrest

end Loops

/-! ### The end of an engine -/

section

variable (hphase : r.engine.phase = .opened)
include hphase

/-- An open engine gives up its registry and closes one partition after another. -/
theorem close_eq : close r = (do
    let failure? ← forEachAttempt (fun (_, h) => onHost (r.engine.backend.close h))
      r.engine.registry
    modifyEngine fun e => { e with phase := .closed }
    match failure? with
    | none => pure ()
    | some failure => throw failure : EngineAction Unit)
      ⟨{ r.engine with registry := [] }, r.host⟩ := by
  rw [close, Action.bind_of_ok (engine_apply r), hphase]
  exact Action.bind_of_ok (modifyEngine_apply ..)

/-- It drops one partition after another, then its folder, and has come to its end. -/
theorem removeStore_eq : removeStore r = (do
    let failure? ← forEachAttempt (fun (_, h) => onHost (r.engine.backend.drop h))
      r.engine.registry
    let removal ← attempt removeFolder
    modifyEngine fun e => { e with phase := .dropped }
    report
    match failure?, removal with
    | some failure, _ => throw failure
    | none, .error failure => throw failure
    | none, .ok () => pure () : EngineAction Unit)
      ⟨{ r.engine with registry := [] }, r.host⟩ := by
  rw [removeStore, Action.bind_of_ok (requireOpen_of_opened hphase),
    Action.bind_of_ok (engine_apply r)]
  exact Action.bind_of_ok (modifyEngine_apply ..)

end

/-- Closing succeeds if nothing fails in closing one partition after another. -/
theorem close_eq_ok_iff (hphase : r.engine.phase = .opened) :
    close r = .ok () r' ↔ ∃ r₁,
      forEachAttempt (fun (_, h) => onHost (r.engine.backend.close h)) r.engine.registry
        ⟨{ r.engine with registry := [] }, r.host⟩ = .ok none r₁ ∧
      r' = { r₁ with engine := { r₁.engine with phase := .closed } } := by
  rw [close_eq hphase]
  constructor
  · intro h
    obtain ⟨failure?, r₁, heach, h⟩ := Action.bind_eq_ok_iff.1 h
    rw [Action.bind_of_ok (modifyEngine_apply ..)] at h
    cases failure? with
    | some failure => cases h
    | none =>
        cases h
        exact ⟨r₁, heach, rfl⟩
  · rintro ⟨r₁, heach, rfl⟩
    rw [Action.bind_of_ok heach]
    rfl

/-- Closing ends an engine's life, whether it succeeds or not. -/
theorem after_close {inv : Host → Prop} (hphase : r.engine.phase = .opened)
    (step : ∀ entry ∈ r.engine.registry, ∀ host, inv host →
      inv (Action.after (r.engine.backend.close entry.2 host))) (h : inv r.host) :
    ∃ host, Action.after (close r) =
      ⟨{ r.engine with registry := [], phase := .closed }, host⟩ ∧ inv host := by
  obtain ⟨failure?, host, heach, hinv⟩ := @after_forEachAttempt_onHost _
    ⟨{ r.engine with registry := [] }, r.host⟩
    (fun (entry : Int32 × Handle) => r.engine.backend.close entry.2) r.engine.registry inv step h
  refine ⟨host, ?_, hinv⟩
  rw [close_eq hphase, Action.bind_of_ok heach, Action.bind_of_ok (modifyEngine_apply ..)]
  cases failure? <;> rfl

/-- So does removing the store. -/
theorem after_removeStore {inv : Host → Prop} (hphase : r.engine.phase = .opened)
    (step : ∀ entry ∈ r.engine.registry, ∀ host, inv host →
      inv (Action.after (r.engine.backend.drop entry.2 host)))
    (folder : ∀ host, inv host →
      inv (Action.after (HostAction.onTree r.engine.folder.remove host))) (h : inv r.host) :
    ∃ host, Action.after (removeStore r) = ⟨Engine.reported
      { r.engine with registry := [], phase := .dropped } host.tree, host⟩ ∧ inv host := by
  obtain ⟨failure?, host₁, heach, hinv⟩ := @after_forEachAttempt_onHost _
    ⟨{ r.engine with registry := [] }, r.host⟩
    (fun (entry : Int32 × Handle) => r.engine.backend.drop entry.2) r.engine.registry inv step h
  -- The engine removes its folder or leaves it, and keeps the failure in mind.
  obtain ⟨removal, host₂, hremove, hinv'⟩ : ∃ removal host₂,
      attempt removeFolder ⟨{ r.engine with registry := [] }, host₁⟩ =
        .ok removal ⟨{ r.engine with registry := [] }, host₂⟩ ∧ inv host₂ := by
    have hfolder := folder host₁ hinv
    cases howns : Engine.ownsFolder { r.engine with registry := [] } with
    | false =>
        refine ⟨.ok (), host₁, ?_, hinv⟩
        simp only [attempt]
        rw [removeFolder, Action.bind_of_ok (engine_apply _)]
        simp [howns]
    | true =>
        have hrun : removeFolder ⟨{ r.engine with registry := [] }, host₁⟩ =
            (do let _ ← onHost (HostAction.onTree r.engine.folder.remove) : EngineAction Unit)
              ⟨{ r.engine with registry := [] }, host₁⟩ := by
          rw [removeFolder, Action.bind_of_ok (engine_apply _), if_pos howns]
        cases hremove : HostAction.onTree r.engine.folder.remove host₁ with
        | ok removed host₂ =>
            rw [hremove] at hfolder
            refine ⟨.ok (), host₂, ?_, hfolder⟩
            simp only [attempt, hrun]
            rw [Action.bind_of_ok (onHost_of_ok hremove)]
            rfl
        | error e host₂ =>
            rw [hremove] at hfolder
            refine ⟨.error e, host₂, ?_, hfolder⟩
            simp only [attempt, hrun]
            rw [Action.bind_of_error (onHost_of_error hremove)]
  refine ⟨host₂, ?_, hinv'⟩
  rw [removeStore_eq hphase, Action.bind_of_ok heach, Action.bind_of_ok hremove,
    Action.bind_of_ok (modifyEngine_apply ..)]
  cases failure? with
  | some failure => rfl
  | none => cases removal <;> rfl

/-- Removing the store succeeds if nothing fails in dropping one partition after another, nor in
removing the folder then. -/
theorem removeStore_eq_ok_iff (hphase : r.engine.phase = .opened) :
    removeStore r = .ok () r' ↔ ∃ r₁ r₂,
      forEachAttempt (fun (_, h) => onHost (r.engine.backend.drop h)) r.engine.registry
        ⟨{ r.engine with registry := [] }, r.host⟩ = .ok none r₁ ∧
      removeFolder r₁ = .ok () r₂ ∧
      r' = ⟨Engine.reported { r₂.engine with phase := .dropped } r₂.host.tree, r₂.host⟩ := by
  rw [removeStore_eq hphase]
  constructor
  · -- A failure of a drop is the answer whatever becomes of the folder, so a success had none.
    intro h
    obtain ⟨failure?, r₁, heach, h⟩ := Action.bind_eq_ok_iff.1 h
    obtain ⟨removal, r₂, hattempt, h⟩ := Action.bind_eq_ok_iff.1 h
    rw [Action.bind_of_ok (modifyEngine_apply ..)] at h
    cases failure? with
    | some failure => cases h
    | none =>
        rw [attempt] at hattempt
        split at hattempt
        · rename_i hfolder
          cases hattempt
          cases h
          exact ⟨r₁, r₂, heach, hfolder, rfl⟩
        · cases hattempt
          cases h
  · rintro ⟨r₁, r₂, heach, hfolder, rfl⟩
    have hattempt : attempt removeFolder r₁ = .ok (.ok ()) r₂ := by
      simp only [attempt, hfolder]
    rw [Action.bind_of_ok heach, Action.bind_of_ok hattempt]
    rfl

/-- The partitions are left as they are once they were dropped. -/
theorem exists_of_removeStore (hphase : r.engine.phase = .opened) (h : removeStore r = .ok () r') :
    ∃ r₁, forEachAttempt (fun (_, h) => onHost (r.engine.backend.drop h)) r.engine.registry
      ⟨{ r.engine with registry := [] }, r.host⟩ = .ok none r₁ ∧
      r'.host.partitions = r₁.host.partitions := by
  obtain ⟨r₁, r₂, heach, hfolder, rfl⟩ := (removeStore_eq_ok_iff hphase).1 h
  refine ⟨r₁, heach, ?_⟩
  -- Removing the folder has to do with the tree alone.
  rw [removeFolder, Action.bind_of_ok (engine_apply r₁)] at hfolder
  split at hfolder
  · obtain ⟨removed, r₃, hremove, hpure⟩ := Action.bind_eq_ok_iff.1 hfolder
    cases hpure
    obtain ⟨host, hrun, rfl⟩ := onHost_eq_ok_iff.1 hremove
    obtain ⟨t, -, rfl⟩ := HostAction.onTree_eq_ok_iff.1 hrun
    rfl
  · cases hfolder
    rfl

end EngineAction

end PartitionStore
