import PartitionStore.Proofs.Engine.Lifecycle

/-!
# `PartitionStore.Proofs.Engine.Gauges`: whether the reported number of partitions is current

An engine that is listened to reports how many partitions are open when it comes up, and
again after each change of its registry, with one exception. Closing gives the registry up
and reports nothing. So what was reported last is how many partitions are open as long as
the engine is not closed, and where it was closed it is how many were open by then.

* `Listened.next`: one call.
* `Lifetime.listened`: any number of them.
* `count_current_iff`: an engine from its opening on.
-/

set_option autoImplicit false

namespace PartitionStore

/-- The value that was reported last for the gauge of a name. -/
def Engine.lastReport? (e : Engine) (name : String) : Option Nat :=
  (e.reports.reverse.find? fun gauge => gauge.name == name).map Gauge.value

/-- What was reported last for the number of partitions is how many are open. -/
def Engine.CountCurrent (e : Engine) : Prop := e.lastReport? Gauge.countName = some e.openCount

instance (e : Engine) : Decidable e.CountCurrent :=
  inferInstanceAs (Decidable (e.lastReport? Gauge.countName = some e.openCount))

/-- On the way from `start` to `final` the engine was closed, with as many partitions open. -/
def ClosedWith (start : Running) (calls : List EngineCall) (final : Running) (count : Nat) : Prop :=
  ∃ earlier before later, calls = earlier ++ .request .close :: later ∧
    Lifetime start earlier before ∧ before.engine.phase = .opened ∧
    before.engine.openCount = count ∧
    Lifetime ((EngineCall.request .close).next before) later final

/-- The engine is listened to, has partitions only while it is open, and its count is current
unless it is closed. -/
structure Listened (e : Engine) : Prop where
  listens : e.listener.isSome = true
  ended : e.phase ≠ .opened → e.registry = []
  current : e.phase ≠ .closed → e.CountCurrent

/-- What a call other than closing makes of an open engine: it is as it was, or it has reported. -/
inductive Engine.Told (e : Engine) : Engine → Prop where
  | same : Told e e
  | reported (e' : Engine) (t : FileTree) (listener : e'.listener = e.listener)
      (ended : e'.phase ≠ .opened → e'.registry = []) : Told e (e'.reported t)

variable {b : Backend} {c : EngineSettings} {listener : Listener} {e e' : Engine}
  {host₀ host : Host} {r final start : Running} {call : EngineCall} {calls : List EngineCall}
  {count : Nat}

namespace Engine

/-! ### Reports -/

/-- To report gauges leaves the number of open partitions as it is. -/
@[simp] theorem openCount_reported (e : Engine) (t : FileTree) :
    (e.reported t).openCount = e.openCount := by
  rw [openCount, registry_reported, openCount]

/-- To report gauges leaves the listener as it is. -/
@[simp] theorem listener_reported (e : Engine) (t : FileTree) :
    (e.reported t).listener = e.listener := by
  unfold reported
  split <;> simp [*]

/-- What a listener was just told is current. -/
theorem countCurrent_reported (hlistens : e.listener.isSome = true) (t : FileTree) :
    (e.reported t).CountCurrent := by
  obtain ⟨listener, hlistener⟩ := Option.isSome_iff_exists.1 hlistens
  rw [CountCurrent, openCount_reported]
  -- The count is the last thing that is reported.
  simp [lastReport?, reported, hlistener]

end Engine

/-- So it is of an engine that is open, or has no partitions left. -/
theorem Listened.of_reported (hlistens : e.listener.isSome = true)
    (hended : e.phase ≠ .opened → e.registry = []) (t : FileTree) : Listened (e.reported t) where
  listens := by rwa [Engine.listener_reported]
  ended := by rwa [Engine.phase_reported, Engine.registry_reported]
  current _ := Engine.countCurrent_reported hlistens t

/-- What was told of a change is current if what was told before was. -/
theorem Engine.Told.listened (told : e.Told e') (listened : Listened e) : Listened e' := by
  cases told with
  | same => exact listened
  | reported e' t hlistener hended =>
      exact .of_reported (hlistener ▸ listened.listens) hended t

/-! ### One call -/

/-- An operation on the host leaves the engine as it is. -/
theorem EngineAction.engine_after_onHost {α : Type} (action : HostAction α) (r : Running) :
    (Action.after (onHost action r)).engine = r.engine := by
  rw [onHost]
  split <;> rfl

/-- A request for what one partition holds leaves the engine as it is. -/
theorem EngineAction.engine_after_onPartition {α : Type} {id : Int32}
    {action : Handle → HostAction α} {asked : EStateM.Result StoreError Running α}
    (hasked : asked = match r.engine.handle? id with
      | none => .error (.unknownPartition id) r
      | some h => onHost (action h) r) : (Action.after asked).engine = r.engine := by
  rw [hasked]
  cases r.engine.handle? id with
  | none => rfl
  | some h => exact engine_after_onHost (action h) r

section Opened

variable (hphase : r.engine.phase = .opened)
include hphase

/-- Whatever comes of adding a partition, a registry that has grown was reported. -/
theorem EngineAction.told_addPartitionAs (spec : PartitionSpec) :
    r.engine.Told (Action.after (addPartitionAs spec r)).engine := by
  rw [addPartitionAs_eq hphase]
  split
  · exact .same
  split
  · exact .same
  · split
    · exact .reported _ _ rfl fun hended => absurd hphase hended
    · exact .same

/-- So was one that has lost a partition. -/
theorem EngineAction.told_removePartition (id : Int32) :
    r.engine.Told (Action.after (removePartition id r)).engine := by
  rw [removePartition_eq hphase]
  split
  · exact .same
  · split
    · exact .reported _ _ rfl fun hended => absurd hphase hended
    · exact .same

/-- Every call but closing leaves an open engine as it was, or has it report. -/
theorem EngineCall.told_next (hclose : call ≠ .request .close) :
    r.engine.Told (call.next r).engine := by
  cases call with
  | idsOnDisk =>
      rw [engine_next_idsOnDisk]
      exact .same
  | request made =>
      have hsame (engine : Engine) (h : engine = r.engine) : r.engine.Told engine := h ▸ .same
      rw [next_request]
      -- What changes the registry reports after it; a request to one partition leaves the engine as
      -- it is.
      cases made with
      | close => exact absurd rfl hclose
      | addPartition id =>
          rw [Request.serve_snd_addPartition, EngineAction.addPartition_eq]
          exact EngineAction.told_addPartitionAs hphase _
      | addPartitionAs spec =>
          rw [Request.serve_snd_addPartitionAs]
          exact EngineAction.told_addPartitionAs hphase spec
      | removePartition id =>
          rw [Request.serve_snd_removePartition]
          exact EngineAction.told_removePartition hphase id
      | put id key value =>
          rw [Request.serve_snd_put]
          exact hsame _ (EngineAction.engine_after_onPartition (EngineAction.put_eq hphase ..))
      | get id key =>
          rw [Request.serve_snd_get]
          exact hsame _ (EngineAction.engine_after_onPartition (EngineAction.get_eq hphase ..))
      | delete id key =>
          rw [Request.serve_snd_delete]
          exact hsame _ (EngineAction.engine_after_onPartition (EngineAction.delete_eq hphase ..))
      | sync =>
          rw [Request.serve_snd_sync, EngineAction.sync_eq hphase]
          obtain ⟨host, hafter, -⟩ := @EngineAction.after_forM_onHost _ r
            (fun (entry : Int32 × Handle) => r.engine.backend.sync entry.2) r.engine.registry
            (fun _ => True) (fun _ _ _ _ => trivial) trivial
          rw [hafter]
          exact .same
      | removeStore =>
          obtain ⟨host, hafter, -⟩ := @EngineAction.after_removeStore r (fun _ => True) hphase
            (fun _ _ _ _ => trivial) (fun _ _ => trivial) trivial
          rw [Request.serve_snd_removeStore, hafter]
          exact .reported _ _ rfl fun _ => rfl

/-- Closing gives the registry up, and reports nothing. -/
theorem EngineCall.engine_next_close :
    ((request .close).next r).engine = { r.engine with registry := [], phase := .closed } := by
  obtain ⟨host, hafter, -⟩ := @EngineAction.after_close r (fun _ => True) hphase
    (fun _ _ _ _ => trivial) trivial
  rw [next_request, Request.serve_snd_close, hafter]

end Opened

/-- No call changes an engine that has ended. -/
theorem EngineCall.engine_next_of_ended (hended : r.engine.phase ≠ .opened) (call : EngineCall) :
    (call.next r).engine = r.engine := by
  cases hphase : r.engine.phase with
  | opened => exact absurd hphase hended
  | dropped =>
      rw [next, run_of_dropped hphase]
      rfl
  | closed =>
      cases call with
      | idsOnDisk => exact engine_next_idsOnDisk r
      | request made =>
          rw [next, run_of_closed hphase]
          split <;> rfl

/-- The count stays current with every call, unless the engine is closed. -/
theorem Listened.next (listened : Listened r.engine) (call : EngineCall) :
    Listened (call.next r).engine := by
  by_cases hphase : r.engine.phase = .opened
  · by_cases hclose : call = .request .close
    · rw [hclose, EngineCall.engine_next_close hphase]
      exact ⟨listened.listens, fun _ => rfl, fun hopen => absurd rfl hopen⟩
    · exact (EngineCall.told_next hphase hclose).listened listened
  · rw [EngineCall.engine_next_of_ended hphase]
    exact listened

/-- No other call closes an open engine. -/
theorem EnginePhase.next_ne_closed {phase : EnginePhase} (hphase : phase = .opened)
    (hclose : call ≠ .request .close) : phase.next call ≠ .closed := by
  subst hphase
  unfold next
  split
  · exact absurd rfl hclose
  · simp
  · simp

/-! ### Any number of calls -/

/-- What holds of an engine in any order of its registry, and after each of the calls if it held
before, holds in the end. The host has no part in it. -/
theorem Lifetime.invariant (inv : Engine → Prop) (run : Lifetime r calls final)
    (reorder : ∀ (e : Engine) (registry : List (Int32 × Handle)), inv e →
      registry.Perm e.registry → inv { e with registry })
    (step : ∀ call ∈ calls, ∀ r : Running, inv r.engine → inv (EngineCall.next call r).engine)
    (start : inv r.engine) : inv final.engine := by
  induction run with
  | done r => exact start
  | meanwhile perm rest ih => exact ih step (reorder _ _ start perm)
  | call rest ih =>
      exact ih (fun call hcall => step call (List.mem_cons_of_mem _ hcall))
        (step _ (List.mem_cons_self ..) _ start)

/-- The order of the registry makes no difference to how many there are. -/
theorem Listened.reorder (listened : Listened e) {registry : List (Int32 × Handle)}
    (perm : registry.Perm e.registry) : Listened { e with registry } where
  listens := listened.listens
  ended hended := by
    rw [listened.ended hended] at perm
    exact List.perm_nil.1 perm
  current hopen := by
    have hcurrent : e.lastReport? Gauge.countName = some e.registry.length :=
      listened.current hopen
    rw [← perm.length_eq] at hcurrent
    exact hcurrent

/-- So what was told last is current after any number of calls, by induction on the lifetime. -/
theorem Lifetime.listened (run : Lifetime r calls final) (listened : Listened r.engine) :
    Listened final.engine :=
  run.invariant Listened (fun _ _ listened perm => listened.reorder perm)
    (fun call _ _ listened => listened.next call) listened

/-- An engine that has ended stays what it is. -/
theorem Lifetime.engine_of_ended (run : Lifetime r calls final) (hended : r.engine.phase ≠ .opened)
    (hregistry : r.engine.registry = []) : final.engine = r.engine := by
  refine run.invariant (· = r.engine) (fun e registry he perm => ?_)
    (fun call _ r' hr' => ?_) rfl
  · subst he
    rw [hregistry] at perm
    obtain ⟨⟨settings, folder, backend, registry', phase, listener, reports⟩, host⟩ := r
    obtain rfl : registry' = [] := hregistry
    rw [List.perm_nil.1 perm]
  · rw [EngineCall.engine_next_of_ended (hr' ▸ hended), hr']

/-- After a close the engine tells as many partitions as were open before, and has none. -/
theorem ClosedWith.reports (closed : ClosedWith start calls final count)
    (listened : Listened start.engine) :
    final.engine.lastReport? Gauge.countName = some count ∧ final.engine.openCount = 0 := by
  obtain ⟨earlier, before, later, -, hbefore, hphase, hcount, hlater⟩ := closed
  have hclose := EngineCall.engine_next_close hphase
  have hfinal := hlater.engine_of_ended (by simp [hclose]) (by rw [hclose])
  have hcurrent := (hbefore.listened listened).current (by simp [hphase])
  rw [hfinal, hclose]
  exact ⟨hcount ▸ hcurrent, rfl⟩

/-- Where the count is not current the engine was closed with partitions open. -/
theorem Lifetime.exists_closedWith (run : Lifetime start calls final)
    (listened : Listened start.engine) (hphase : start.engine.phase = .opened)
    (hstale : ¬final.engine.CountCurrent) :
    ∃ count, count ≠ 0 ∧ ClosedWith start calls final count := by
  induction run with
  | done r => exact absurd (listened.current (by simp [hphase])) hstale
  | meanwhile perm rest ih =>
      obtain ⟨count, hcount, earlier, before, later, hcalls, hbefore, hclosed⟩ :=
        ih (listened.reorder perm) hphase hstale
      exact ⟨count, hcount, earlier, before, later, hcalls, .meanwhile perm hbefore, hclosed⟩
  | @call r final call calls rest ih =>
      have listened' := listened.next call
      by_cases hclose : call = .request .close
      · -- This is the close, so partitions were open, or else what was reported last still holds.
        subst hclose
        have hnext := EngineCall.engine_next_close hphase
        have hfinal := rest.engine_of_ended (by simp [hnext]) (by rw [hnext])
        refine ⟨_, fun hnone => hstale ?_, [], r, calls, rfl, .done r, hphase, rfl, rest⟩
        have hcurrent : r.engine.lastReport? Gauge.countName = some r.engine.openCount :=
          listened.current (by simp [hphase])
        rw [hnone] at hcurrent
        rw [hfinal, hnext]
        exact hcurrent
      · by_cases hnext : (call.next r).engine.phase = .opened
        · obtain ⟨count, hcount, earlier, before, later, rfl, hbefore, hclosed⟩ :=
            ih listened' hnext hstale
          exact ⟨count, hcount, call :: earlier, before, later, rfl, .call hbefore, hclosed⟩
        · -- The store was removed, and the count is that of then.
          have hfinal := rest.engine_of_ended hnext (listened'.ended hnext)
          rw [hfinal] at hstale
          have hdropped := (EngineCall.next_of_opened hphase call).1
          exact absurd (listened'.current (hdropped ▸ EnginePhase.next_ne_closed hphase hclose)) hstale

/-! ### An engine from its opening on -/

/-- An engine that comes up has told how many partitions it has. -/
theorem listened_of_open (hopen : Engine.openWith c b (some listener) host₀ = .ok e host) :
    Listened e := by
  obtain ⟨d, t, registry, host₁, -, -, -, -, -, rfl⟩ := exists_of_openWith hopen
  exact .of_reported rfl (fun hended => absurd rfl hended) _

/-- The number of partitions that was reported last is current, whatever the calls to the engine
came to, as long as the engine is not closed. To close it reports nothing, so from then on the
number is that of the partitions which were open by then, and it is current if there were none. -/
theorem count_current_iff (hopen : Engine.openWith c b (some listener) host₀ = .ok e host)
    (run : Lifetime ⟨e, host⟩ calls r) :
    (r.engine.phase ≠ .closed → r.engine.CountCurrent) ∧
      (∀ count, ClosedWith ⟨e, host⟩ calls r count →
        r.engine.lastReport? Gauge.countName = some count ∧ r.engine.openCount = 0) ∧
      (r.engine.CountCurrent ↔ ¬∃ count, count ≠ 0 ∧ ClosedWith ⟨e, host⟩ calls r count) := by
  have listened := listened_of_open hopen
  have hclosed (count : Nat) (closed : ClosedWith ⟨e, host⟩ calls r count) :=
    closed.reports listened
  refine ⟨(run.listened listened).current, hclosed, fun hcurrent => ?_, fun hnot => ?_⟩
  · rintro ⟨count, hcount, closed⟩
    obtain ⟨hlast, hnone⟩ := hclosed count closed
    rw [Engine.CountCurrent, hlast, hnone] at hcurrent
    exact hcount (Option.some.inj hcurrent)
  · by_contra hstale
    exact hnot (run.exists_closedWith listened (alive_of_open hopen).1 hstale)

set_option maxRecDepth 10000 in
/-- The count follows a partition that is added and one that is removed, with a listener that fails
each time. It does not follow the close: then two partitions are reported, and none is open. -/
theorem count_current_until_close : ∃ e host r r',
    Engine.openWith (settingsUnder ⟨"."⟩) Backend.table (some .failing)
        (Host.ofTree FileTree.empty) = .ok e host ∧
      Lifetime ⟨e, host⟩ [.request (.addPartition 5), .request (.addPartition 7),
        .request (.removePartition 5)] r ∧
      r.engine.openCount = 2 ∧ r.engine.CountCurrent ∧
      Lifetime r [.request .close] r' ∧ ¬r'.engine.CountCurrent ∧
      r'.engine.lastReport? Gauge.countName = some 2 ∧ r'.engine.openCount = 0 := by
  let calls : List EngineCall := [.request (.addPartition 5), .request (.addPartition 7),
    .request (.removePartition 5)]
  have key : Action.succeedsWith
      (Engine.openWith (settingsUnder ⟨"."⟩) Backend.table (some .failing))
      (Host.ofTree FileTree.empty) (fun e host =>
        let r := calls.foldl (fun r call => call.next r) ⟨e, host⟩
        decide (r.engine.phase = .opened) && decide (r.engine.openCount = 2)) = true := by
    decide +kernel
  obtain ⟨e, host, hopen, key⟩ := Action.exists_of_succeedsWith key
  simp only [Bool.and_eq_true, decide_eq_true_eq] at key
  obtain ⟨hphase, hcount⟩ := key
  let r := calls.foldl (fun r call => call.next r) ⟨e, host⟩
  let r' := (EngineCall.request .close).next r
  have run : Lifetime ⟨e, host⟩ calls r := .call (.call (.call (.done r)))
  have whole : Lifetime ⟨e, host⟩ (calls ++ [.request .close]) r' :=
    .call (.call (.call (.call (.done r'))))
  have closed : ClosedWith ⟨e, host⟩ (calls ++ [.request .close]) r' 2 :=
    ⟨calls, r, [], rfl, run, hphase, hcount, .done r'⟩
  -- The run up to the close, and the whole of it.
  obtain ⟨hcurrent, -, -⟩ := count_current_iff hopen run
  obtain ⟨-, hreports, hiff⟩ := count_current_iff hopen whole
  exact ⟨e, host, r, r', hopen, run, hcount, hcurrent (by simp [r, hphase]), .call (.done r'),
    fun h => hiff.1 h ⟨2, by decide, closed⟩, hreports 2 closed⟩

end PartitionStore
