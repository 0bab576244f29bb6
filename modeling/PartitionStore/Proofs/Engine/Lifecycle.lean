import PartitionStore.Proofs.Engine.Opening

/-!
# `PartitionStore.Proofs.Engine.Lifecycle`: the phases of an engine's life

An engine is open until it is closed or its store is removed, and neither is ever undone.
Nothing that a backend does has a part in that. An operation may fail wherever it likes, the
two that end an engine's life included: these have given up the registry by then, and the
phase follows. So the phase is told by the calls alone (`EnginePhase.next`).

`Lifetime` follows an engine through its calls. In between its host is at the mercy of
others, who may change files and partitions.

The one thing that is asked of the backend is that it changes nothing when it lists what is
on disk. A closed engine still answers that.

* `EngineCall.next_of_alive`, `EngineCall.obeyed`: one call, in each phase.
* `Lifetime.alive`: any number of them.
* `life_of_engine`: an engine from its opening on.
-/

set_option autoImplicit false

namespace PartitionStore

/-- What an engine is called for: one of the requests, or what is on disk. -/
inductive EngineCall where
  | request (made : Request)
  | idsOnDisk
  deriving DecidableEq, Repr

namespace EngineCall

/-- The call, made to an engine. -/
def run : EngineCall → EngineAction (Reply ⊕ List Int32)
  | request made => do pure (.inl (← made.run))
  | idsOnDisk => do pure (.inr (← EngineAction.idsOnDisk))

/-- The engine and its host after the call, whether it succeeds or not. -/
def next (call : EngineCall) (r : Running) : Running := Action.after (call.run r)

end EngineCall

/-- The phase after a call. An open engine is ended by two of them, whatever comes of it. -/
def EnginePhase.next : EnginePhase → EngineCall → EnginePhase
  | opened, .request .close => closed
  | opened, .request .removeStore => dropped
  | phase, _ => phase

/-- No call changes a phase that is not the first one. -/
theorem EnginePhase.next_of_ended {phase : EnginePhase} (hended : phase ≠ .opened)
    (call : EngineCall) : phase.next call = phase := by
  cases phase with
  | opened => exact absurd rfl hended
  | closed | dropped => rfl

/-- No call leaves a phase that is the end. -/
theorem EnginePhase.foldl_next_of_ended {phase : EnginePhase} (hended : phase ≠ .opened)
    (calls : List EngineCall) : calls.foldl EnginePhase.next phase = phase := by
  induction calls with
  | nil => rfl
  | cons call rest ih => rw [List.foldl_cons, next_of_ended hended, ih]

/-- An engine is called again and again. Between the calls the registry may come into another
order, and others may do anything to the host. -/
inductive Lifetime : Running → List EngineCall → Running → Prop where
  | done (r : Running) : Lifetime r [] r
  | meanwhile {r final : Running} {registry : List (Int32 × Handle)} {host : Host}
      {calls : List EngineCall} (perm : registry.Perm r.engine.registry)
      (rest : Lifetime ⟨{ r.engine with registry }, host⟩ calls final) : Lifetime r calls final
  | call {r final : Running} {call : EngineCall} {calls : List EngineCall}
      (rest : Lifetime (call.next r) calls final) : Lifetime r (call :: calls) final

/-- To list what is on disk changes nothing. -/
def Backend.OnlyLists (b : Backend) : Prop :=
  ∀ d host, Action.after (b.idsOnDisk d host) = host

/-- The engine has the backend, and partitions only while it is open. -/
structure Alive (b : Backend) (r : Running) : Prop where
  backend : r.engine.backend = b
  ended : r.engine.phase ≠ .opened → r.engine.registry = []

/-- What an engine makes of a call in each phase of its life. -/
structure EngineCall.Obeyed (call : EngineCall) (r : Running) : Prop where
  phase : (call.next r).engine.phase = r.engine.phase.next call
  closed : r.engine.phase = .closed → ∀ made, call = .request made →
    call.run r = if made = .close then .ok (.inl .done) r else .error .engineNotOpen r
  dropped : r.engine.phase = .dropped → call.run r = .error .engineDropped r
  kept : r.engine.phase ≠ .opened → call.next r = r

variable {b : Backend} {c : EngineSettings} {listener : Option Listener} {e : Engine}
  {host₀ host : Host} {r final : Running} {call : EngineCall} {calls : List EngineCall}

/-- What asks for nothing of hosts and registries is kept by every backend. -/
theorem Backend.keeps_trivial (b : Backend) (d : StoreFolder) :
    b.Keeps d (fun _ => True) fun _ _ => True where
  perm _ _ := trivial
  attach _ _ _ := trivial
  attach_error _ _ _ := trivial
  put _ _ _ _ := trivial
  get _ _ _ := trivial
  delete _ _ _ := trivial
  sync _ _ := trivial
  drop _ _ _ _ := trivial
  drop_error _ _ _ := trivial

namespace EngineCall

/-- What a request leaves behind is what serving it does. -/
theorem next_request (made : Request) (r : Running) :
    (request made).next r = (made.serve r).2 := by
  rw [next, run, Action.after_bind fun _ _ => rfl, Request.serve_snd]

/-- To ask what is on disk has to do with the host alone. -/
theorem engine_next_idsOnDisk (r : Running) : (idsOnDisk.next r).engine = r.engine := by
  rw [next, run, Action.after_bind fun _ _ => rfl, EngineAction.idsOnDisk,
    Action.bind_of_ok (EngineAction.engine_apply r)]
  split
  · rfl
  · cases hlist : r.engine.backend.idsOnDisk r.engine.folder r.host with
    | ok ids host => rw [EngineAction.onHost_of_ok hlist]; rfl
    | error fault host => rw [EngineAction.onHost_of_error hlist]; rfl

/-! ### An open engine -/

/-- The two requests that end an engine's life do so whatever they are answered with, and leave
nothing registered. -/
theorem next_of_ends {made : Request} (hphase : r.engine.phase = .opened)
    (hlast : made.isLast = true) :
    ((request made).next r).engine.phase = r.engine.phase.next (request made) ∧
      ((request made).next r).engine.backend = r.engine.backend ∧
      ((request made).next r).engine.folder = r.engine.folder ∧
      ((request made).next r).engine.registry = [] := by
  rw [next_request, hphase]
  cases made with
  | close =>
      obtain ⟨host, hafter, -⟩ := @EngineAction.after_close r (fun _ => True) hphase
        (fun _ _ _ _ => trivial) trivial
      rw [Request.serve_snd_close, hafter]
      exact ⟨rfl, rfl, rfl, rfl⟩
  | removeStore =>
      obtain ⟨host, hafter, -⟩ := @EngineAction.after_removeStore r (fun _ => True) hphase
        (fun _ _ _ _ => trivial) (fun _ _ => trivial) trivial
      rw [Request.serve_snd_removeStore, hafter]
      exact ⟨Engine.phase_reported .., Engine.backend_reported .., Engine.folder_reported ..,
        Engine.registry_reported ..⟩
  | addPartition | addPartitionAs | removePartition | put | get | delete | sync => cases hlast

/-- No other request ends an engine's life, whatever its operations come to. -/
theorem next_of_goesOn {made : Request} (hphase : r.engine.phase = .opened)
    (hlast : made.isLast = false) :
    r.engine.phase.next (request made) = .opened ∧
      ((request made).next r).engine.phase = .opened ∧
      ((request made).next r).engine.backend = r.engine.backend := by
  have live : Live r.engine.backend r.engine.folder (fun _ _ => True) r :=
    ⟨hphase, rfl, rfl, trivial⟩
  have served := (Backend.keeps_trivial _ _).serve live hlast fun _ _ _ _ => trivial
  rw [next_request]
  refine ⟨?_, served.phase, served.backend⟩
  rw [hphase]
  cases made with
  | close | removeStore => cases hlast
  | addPartition | addPartitionAs | removePartition | put | get | delete | sync => rfl

/-- A call to an open engine leads to the phase that the call stands for, and the engine stays
alive. -/
theorem next_of_opened (hphase : r.engine.phase = .opened) (call : EngineCall) :
    (call.next r).engine.phase = r.engine.phase.next call ∧
      Alive r.engine.backend (call.next r) := by
  cases call with
  | idsOnDisk =>
      have hsame := engine_next_idsOnDisk r
      rw [hsame, hphase]
      exact ⟨rfl, by rw [hsame], fun hended => absurd (hsame ▸ hphase) hended⟩
  | request made =>
      cases hlast : made.isLast with
      | true =>
          obtain ⟨hnext, hbackend, -, hregistry⟩ := next_of_ends hphase hlast
          exact ⟨hnext, hbackend, fun _ => hregistry⟩
      | false =>
          obtain ⟨hopened, hnext, hbackend⟩ := next_of_goesOn hphase hlast
          exact ⟨hnext.trans hopened.symm, hbackend, fun hended => absurd hnext hended⟩

/-! ### An engine after its end -/

/-- A closed engine can be closed again, and refuses every other request. -/
theorem run_of_closed (hphase : r.engine.phase = .closed) (made : Request) :
    (request made).run r =
      if made = .close then .ok (.inl .done) r else .error .engineNotOpen r := by
  have hrun := Request.run_of_closed hphase made
  by_cases hclose : made = .close
  · rw [if_pos hclose] at hrun ⊢
    exact Action.bind_of_ok hrun
  · rw [if_neg hclose] at hrun ⊢
    exact Action.bind_of_error hrun

/-- A dropped engine refuses every call. -/
theorem run_of_dropped (hphase : r.engine.phase = .dropped) (call : EngineCall) :
    call.run r = .error .engineDropped r := by
  cases call with
  | request made => exact Action.bind_of_error (Request.run_of_dropped hphase made)
  | idsOnDisk =>
      have hrefuse : EngineAction.idsOnDisk r = .error .engineDropped r := by
        rw [EngineAction.idsOnDisk, Action.bind_of_ok (EngineAction.engine_apply r),
          if_pos hphase]
        rfl
      exact Action.bind_of_error hrefuse

/-- What an ended engine is called for changes nothing. -/
theorem next_of_ended (lists : r.engine.backend.OnlyLists) (hphase : r.engine.phase ≠ .opened)
    (call : EngineCall) : call.next r = r := by
  cases hr : r.engine.phase with
  | opened => exact absurd hr hphase
  | dropped =>
      rw [next, run_of_dropped hr]
      rfl
  | closed =>
      cases call with
      | request made =>
          rw [next, run_of_closed hr]
          split <;> rfl
      | idsOnDisk =>
          -- A closed engine still lists, and its backend leaves the host alone.
          have hhost := lists r.engine.folder r.host
          rw [next, run, Action.after_bind fun _ _ => rfl, EngineAction.idsOnDisk,
            Action.bind_of_ok (EngineAction.engine_apply r), if_neg (by simp [hr])]
          cases hlist : r.engine.backend.idsOnDisk r.engine.folder r.host with
          | ok ids host =>
              rw [hlist] at hhost
              obtain rfl : host = r.host := hhost
              rw [EngineAction.onHost_of_ok hlist]
              rfl
          | error fault host =>
              rw [hlist] at hhost
              obtain rfl : host = r.host := hhost
              rw [EngineAction.onHost_of_error hlist]
              rfl

/-! ### One call, and any number of them -/

/-- So in every phase a call leads where the phases say. -/
theorem next_of_alive (lists : b.OnlyLists) (alive : Alive b r) (call : EngineCall) :
    (call.next r).engine.phase = r.engine.phase.next call ∧ Alive b (call.next r) := by
  obtain rfl := alive.backend
  by_cases hphase : r.engine.phase = .opened
  · exact next_of_opened hphase call
  · rw [next_of_ended lists hphase]
    exact ⟨(EnginePhase.next_of_ended hphase call).symm, alive⟩

/-- What an engine makes of a call is settled by the phase that it is in. -/
theorem obeyed (lists : b.OnlyLists) (alive : Alive b r) (call : EngineCall) : call.Obeyed r where
  phase := (next_of_alive lists alive call).1
  closed hphase made hcall := hcall ▸ run_of_closed hphase made
  dropped hphase := run_of_dropped hphase call
  kept hphase := next_of_ended (alive.backend.symm ▸ lists) hphase call

end EngineCall

/-- And so do any number of calls, by induction on the lifetime. -/
theorem Lifetime.alive (run : Lifetime r calls final) (lists : b.OnlyLists) (alive : Alive b r) :
    final.engine.phase = calls.foldl EnginePhase.next r.engine.phase ∧ Alive b final := by
  -- Others have no part in the phase and the backend, and cannot fill an empty registry.
  induction run with
  | done r => exact ⟨rfl, alive⟩
  | meanwhile perm rest ih =>
      refine ih ⟨alive.backend, fun hphase => ?_⟩
      rw [alive.ended hphase] at perm
      exact List.perm_nil.1 perm
  | call rest ih =>
      obtain ⟨hphase, alive⟩ := EngineCall.next_of_alive lists alive _
      obtain ⟨hfinal, alive⟩ := ih alive
      exact ⟨by rw [hfinal, hphase, List.foldl_cons], alive⟩

/-- The steps of an opening that succeeded, with any backend and listener. -/
theorem exists_of_openWith (hopen : Engine.openWith c b listener host₀ = .ok e host) :
    ∃ d t registry host₁, StoreFolder.named c.root c.store = .ok d ∧
      Engine.prepare d c host₀.tree = .ok () t ∧
      Restore.openAll b d c { host₀ with tree := t } = .ok registry host₁ ∧
      Engine.keepRecord d c host₁.tree = .ok () host.tree ∧ host.partitions = host₁.partitions ∧
      e = Engine.reported { settings := c, folder := d, backend := b, registry, phase := .opened,
                            listener, reports := [] } host.tree := by
  obtain ⟨d, host₁, hnamed, hopen⟩ := Action.bind_eq_ok_iff.1 hopen
  obtain ⟨_, host₂, hprepare, hopen⟩ := Action.bind_eq_ok_iff.1 hopen
  obtain ⟨registry, host₃, hall, hopen⟩ := Action.bind_eq_ok_iff.1 hopen
  obtain ⟨_, host₄, hkeep, hlast⟩ := Action.bind_eq_ok_iff.1 hopen
  obtain ⟨t, htree, rfl⟩ := HostAction.onTree_eq_ok_iff.1 hprepare
  obtain ⟨u, htree', rfl⟩ := HostAction.onTree_eq_ok_iff.1 hkeep
  cases hd : StoreFolder.named c.root c.store with
  | error fault =>
      rw [hd] at hnamed
      cases hnamed
  | ok folder =>
      rw [hd] at hnamed
      cases hnamed
      cases hlast
      exact ⟨d, t, registry, host₃, rfl, htree, hall, htree', rfl, rfl⟩

/-- An engine that comes up is open. -/
theorem alive_of_open (hopen : Engine.openWith c b listener host₀ = .ok e host) :
    e.phase = .opened ∧ Alive b ⟨e, host⟩ := by
  obtain ⟨d, t, registry, host₁, -, -, -, -, -, rfl⟩ := exists_of_openWith hopen
  have hphase := Engine.phase_reported
    { settings := c, folder := d, backend := b, registry, phase := .opened, listener,
      reports := [] } host.tree
  exact ⟨hphase, Engine.backend_reported .., fun hended => absurd hphase hended⟩

/-! ### Backends that only list -/

/-- To look for ids changes nothing for either kind of backend. -/
theorem Backend.onlyLists_ofKind (k : BackendKind) : (Backend.ofKind k).OnlyLists := by
  intro d host
  cases k with
  | table => exact (Backend.idsOnDisk_table d host).1
  | inMemory => rfl

/-- A listing that fails by plan changes nothing, either. -/
theorem Backend.OnlyLists.withFaults (lists : b.OnlyLists) (faults : Backend.Faults) :
    (b.withFaults faults).OnlyLists := by
  intro d host
  cases hfault : faults.idsOnDisk with
  | true => simp only [Backend.withFaults, hfault]; rfl
  | false =>
      simp only [Backend.withFaults, hfault, Bool.false_eq_true, if_false]
      exact lists d host

/-! ### The life of an engine -/

/-- Whatever the operations of its backend come to, an engine is open until the first call that
ends its life, and what it was ended as it remains. It has partitions only while it is open. An
engine that has ended refuses what it is called for and changes nothing. -/
theorem life_of_engine (lists : b.OnlyLists)
    (hopen : Engine.openWith c b listener host₀ = .ok e host)
    (run : Lifetime ⟨e, host⟩ calls r) :
    r.engine.phase = calls.foldl EnginePhase.next .opened ∧
      (r.engine.phase ≠ .opened → r.engine.registry = [] ∧
        ∀ later final, Lifetime r later final → final.engine.phase = r.engine.phase) ∧
      ∀ call : EngineCall, call.Obeyed r := by
  obtain ⟨hstart, alive⟩ := alive_of_open hopen
  obtain ⟨hphase, alive⟩ := run.alive lists alive
  refine ⟨by rw [hphase, hstart], fun hended => ⟨alive.ended hended, fun later final rest => ?_⟩,
    EngineCall.obeyed lists alive⟩
  rw [(rest.alive lists alive).1, EnginePhase.foldl_next_of_ended hended]

/-- The metadata partition cannot be closed. -/
def metadataStuck : Backend.Faults := { (default : Backend.Faults) with close := [-1] }

set_option maxRecDepth 10000 in
/-- A partition that cannot be closed does not keep the engine from its end. -/
theorem life_of_engine_that_fails_to_close : ∃ e host r r',
    Engine.openWith (settingsUnder ⟨"."⟩) (Backend.table.withFaults metadataStuck) none
        (Host.ofTree FileTree.empty) = .ok e host ∧
      EngineAction.close ((EngineCall.request (.addPartition 7)).next ⟨e, host⟩) =
        .error (Backend.Faults.error "close") r' ∧
      Lifetime ⟨e, host⟩ [.request (.addPartition 7), .request .close, .idsOnDisk] r ∧
      r.engine.phase = .closed ∧ r.engine.registry = [] ∧
      ∀ call : EngineCall, call.Obeyed r := by
  have key : Action.succeedsWith
      (Engine.openWith (settingsUnder ⟨"."⟩) (Backend.table.withFaults metadataStuck) none)
      (Host.ofTree FileTree.empty) (fun e host =>
        Action.failsWith EngineAction.close ((EngineCall.request (.addPartition 7)).next ⟨e, host⟩)
          fun failure _ => decide (failure = Backend.Faults.error "close")) = true := by
    decide +kernel
  obtain ⟨e, host, hopen, key⟩ := Action.exists_of_succeedsWith key
  obtain ⟨failure, r', hclose, key⟩ := Action.exists_of_failsWith key
  obtain rfl := of_decide_eq_true key
  have run : Lifetime ⟨e, host⟩ [.request (.addPartition 7), .request .close, .idsOnDisk] _ :=
    .call (.call (.call (.done _)))
  obtain ⟨hphase, hended, hobeyed⟩ := life_of_engine
    ((Backend.onlyLists_ofKind .table).withFaults metadataStuck) hopen run
  have hclosed : [EngineCall.request (.addPartition 7), .request .close, .idsOnDisk].foldl
    EnginePhase.next .opened = .closed := rfl
  rw [hclosed] at hphase
  exact ⟨e, host, _, r', hopen, hclose, run, hphase, (hended (by simp [hphase])).1, hobeyed⟩

end PartitionStore
