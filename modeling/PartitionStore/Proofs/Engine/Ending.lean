import PartitionStore.Proofs.Engine.HandleCalls
import PartitionStore.Proofs.Engine.Lifecycle
import PartitionStore.Proofs.FileTree.Removing

/-!
# `PartitionStore.Proofs.Engine.Ending`: an engine's end goes through, whatever fails

An engine that is closed, or whose store is removed, works on all its partitions once more,
and a partition that fails must not keep the others from their turn. What happens is a sweep:
one attempt for each registered partition, in the order of the registry, each on what the one
before it left (`Sweep`). The theorem is about every backend, so any of the attempts may fail,
and about every registry, so their order may be any.

* `forEachAttempt_eq`: the engine's loop is a sweep, and its answer the first failure.
* `Sweep.holds_of_ok`: what a successful attempt achieves for its partition holds in the end,
  provided that no attempt for another one undoes it.
* `closed_of_sweep`, `deleted_of_sweep`: so it is with closing and with dropping, where the
  backend's operations are those of the partitions, or fail before they reach one
  (`Backend.Releases`).
* `ends_whatever_fails`: the two requests that end an engine's life.
-/

set_option autoImplicit false

namespace PartitionStore

open FileTree

/-! ### Sweeps -/

/-- The failure that an attempt came to. -/
def failureOf : Except StoreError Unit → Option StoreError
  | .ok _ => none
  | .error e => some e

/-- One attempt of a sweep: the registered partition that it is for, and what came of it. -/
structure Attempt where
  entry : Int32 × Handle
  outcome : Except StoreError Unit

/-- The failure of an attempt, if it failed. -/
def Attempt.failure? (a : Attempt) : Option StoreError := failureOf a.outcome

/-- An operation is attempted for one partition after another. Each attempt starts from the host
that the one before it left, whatever came of that. -/
inductive Sweep (op : Handle → HostAction Unit) : Host → List Attempt → Host → Prop where
  | done (host : Host) : Sweep op host [] host
  | attempt {host last : Host} {entry : Int32 × Handle} {rest : List Attempt}
      (later : Sweep op (Action.after (op entry.2 host)) rest last) :
      Sweep op host (⟨entry, Action.answer (op entry.2 host)⟩ :: rest) last

/-- The partitions of a sweep, in the order of their turns. -/
abbrev turnsOf (log : List Attempt) : List (Int32 × Handle) := log.map Attempt.entry

/-- The first failure of a sweep. -/
def firstFailure? (log : List Attempt) : Option StoreError := log.findSome? Attempt.failure?

variable {op : Handle → HostAction Unit} {host last : Host} {log : List Attempt} {r : Running}
  {b : Backend}

/-- There is no first failure exactly if nothing failed. -/
theorem firstFailure?_eq_none_iff :
    firstFailure? log = none ↔ ∀ a ∈ log, a.outcome = .ok () := by
  rw [firstFailure?, List.findSome?_eq_none_iff]
  refine forall₂_congr fun a _ => ?_
  rw [Attempt.failure?]
  cases a.outcome <;> simp [failureOf]

/-- What each attempt keeps is kept in the end. -/
theorem Sweep.inv {inv : Host → Prop} (sweep : Sweep op host log last)
    (step : ∀ h host, inv host → inv (Action.after (op h host))) (h : inv host) : inv last := by
  induction sweep with
  | done host => exact h
  | attempt later ih => exact ih (step _ _ h)

/-- What a successful attempt achieves for its partition, and no other attempt undoes, holds in
the end. -/
theorem Sweep.holds_of_ok {goal : Handle → Host → Prop} (sweep : Sweep op host log last)
    (achieves : ∀ h host host', op h host = .ok () host' → goal h host')
    (keeps : ∀ g h host, goal h host → goal h (Action.after (op g host))) :
    ∀ a ∈ log, a.outcome = .ok () → goal a.entry.2 last := by
  induction sweep with
  | done host => simp
  | @attempt host last entry rest later ih =>
      intro a ha hok
      rcases List.mem_cons.1 ha with rfl | hrest
      · refine later.inv (fun g host => keeps g _ host) ?_
        cases hrun : op entry.2 host with
        | ok _ host' => exact achieves _ _ _ hrun
        | error e host' =>
            rw [hrun] at hok
            cases hok
      · exact ih a hrest hok

/-- An attempt on the host keeps what came of it as its answer. -/
theorem EngineAction.attempt_onHost (action : HostAction Unit) (r : Running) :
    EngineAction.attempt (EngineAction.onHost action) r =
      .ok (Action.answer (action r.host)) { r with host := Action.after (action r.host) } := by
  rw [EngineAction.attempt]
  cases hrun : action r.host with
  | ok _ host => simp only [onHost_of_ok hrun, Action.answer, Action.after]
  | error e host => simp only [onHost_of_error hrun, Action.answer, Action.after]

/-- The engine's loop makes one attempt for each entry, and answers the first failure. -/
theorem forEachAttempt_eq (op : Handle → HostAction Unit) (entries : List (Int32 × Handle))
    (r : Running) : ∃ log host, Sweep op r.host log host ∧ turnsOf log = entries ∧
      EngineAction.forEachAttempt (fun entry => EngineAction.onHost (op entry.2)) entries r =
        .ok (firstFailure? log) { r with host } := by
  induction entries generalizing r with
  | nil => exact ⟨[], r.host, .done _, rfl, rfl⟩
  | cons entry rest ih =>
      obtain ⟨log, host, sweep, hentries, hrest⟩ :=
        ih { r with host := Action.after (op entry.2 r.host) }
      refine ⟨_, host, .attempt sweep, congrArg (entry :: ·) hentries, ?_⟩
      rw [EngineAction.forEachAttempt, Action.bind_of_ok (EngineAction.attempt_onHost _ r),
        Action.bind_of_ok hrest]
      simp only [firstFailure?, List.findSome?_cons, Attempt.failure?]
      cases Action.answer (op entry.2 r.host) <;> rfl

/-! ### What the attempts achieve -/

/-- The operations that end a partition are those of the host, or fail before they reach it. -/
structure Backend.Releases (b : Backend) : Prop where
  close : ∀ h host, b.close h host = HostAction.close h host ∨ ∃ e, b.close h host = .error e host
  drop : ∀ h host, b.drop h host = HostAction.drop h host ∨ ∃ e, b.drop h host = .error e host

/-- Either kind of backend lets go of what it was told to close or drop. -/
theorem Backend.releases_ofKind (k : BackendKind) : (Backend.ofKind k).Releases :=
  ⟨fun h host => .inl (by rw [Backend.close_ofKind]),
    fun h host => .inl (by rw [Backend.drop_ofKind])⟩

/-- A planted failure comes first, and leaves the host as it is. -/
theorem Backend.failingFor_cases {α : Type} (name : String) (ids : List Int32) (h : Handle)
    (action : HostAction α) (host : Host) :
    Backend.failingFor name ids h action host = action host ∨
      ∃ e, Backend.failingFor name ids h action host = .error e host := by
  rw [Backend.failingFor, Action.bind_of_ok (Action.get_apply host)]
  split
  · exact .inr ⟨_, rfl⟩
  · exact .inl rfl

/-- So does one whose operations fail at will, where they do not. -/
theorem Backend.Releases.withFaults (releases : b.Releases) (faults : Backend.Faults) :
    (b.withFaults faults).Releases := by
  refine ⟨fun h host => ?_, fun h host => ?_⟩
  · rcases failingFor_cases "close" faults.close h (b.close h) host with e | failed
    · exact (releases.close h host).imp e.trans fun ⟨failure, hrun⟩ => ⟨failure, e.trans hrun⟩
    · exact .inr failed
  · rcases failingFor_cases "drop" faults.drop h (b.drop h) host with e | failed
    · exact (releases.drop h host).imp e.trans fun ⟨failure, hrun⟩ => ⟨failure, e.trans hrun⟩
    · exact .inr failed

/-- Where the operation succeeds, so does the host's one. -/
theorem ok_of_released {real : Handle → HostAction Unit} {h : Handle} {host' : Host}
    (hop : op h host = real h host ∨ ∃ e, op h host = .error e host)
    (hrun : op h host = .ok () host') : real h host = .ok () host' := by
  rcases hop with e | ⟨e, hfail⟩
  · rwa [← e]
  · cases hfail.symm.trans hrun

/-- Every partition whose close succeeded is closed in the end. -/
theorem closed_of_sweep (releases : b.Releases) (sweep : Sweep b.close host log last) :
    ∀ a ∈ log, a.outcome = .ok () → (last.partition a.entry.2).closed = true := by
  have achieves : ∀ h host host', b.close h host = .ok () host' →
      (host'.partition h).closed = true := fun h host _ hrun =>
    HostAction.closed_of_close (ok_of_released (releases.close h host) hrun)
  refine sweep.holds_of_ok achieves fun g h host hclosed => ?_
  rcases releases.close g host with e | ⟨e, hfail⟩
  · rw [e]
    exact ((HostAction.confines_close g host).each h).closed hclosed
  · rw [hfail]
    exact hclosed

/-- Dropping a partition leaves any one as it was, or dropped. -/
theorem partition_after_drop (g h : Handle) (host : Host) :
    (Action.after (HostAction.drop g host)).partition h = host.partition h ∨
      (Action.after (HostAction.drop g host)).partition h = (host.partition h).dropped := by
  cases hdrop : (host.partition g).drop host.tree with
  | error e t =>
      rw [HostAction.drop_of_error hdrop]
      exact .inl rfl
  | ok part t =>
      obtain rfl : part = (host.partition g).dropped := Partition.eq_dropped_of_drop hdrop
      rw [HostAction.drop_of_ok hdrop]
      by_cases hgh : h = g
      · subst hgh
        by_cases hh : h < host.partitions.length
        · exact .inr (Host.partition_setPartition_self _ _ hh)
        · -- A handle that was never given out stands for the same partition as before.
          have hnone : host.partitions.length ≤ h := Nat.le_of_not_lt hh
          refine .inl ?_
          simp [Action.after, Host.setPartition, Host.partition, hnone]
      · exact .inl (Host.partition_setPartition_of_ne _ _ hgh)

/-- Dropping a partition puts nothing into the tree. -/
theorem less_drop (part : Partition) (t : FileTree) : Less t (Action.after (part.drop t)) := by
  cases hstorage : part.storage with
  | memory =>
      rw [Partition.drop_of_memory hstorage]
      exact .refl t
  | table dir dirty =>
      have hremove := Less.removeDirAll dir t
      rw [Partition.drop_eq hstorage]
      split
      · split <;>
          · rename_i hrun
            rwa [hrun] at hremove
      · exact .refl t

/-- The partition is closed and holds nothing, and if its directory is that of an id, the path of
the directory leads nowhere. -/
structure Deleted (h : Handle) (host : Host) : Prop where
  closed : (host.partition h).closed = true
  entries : (host.partition h).entries = SortedMap.empty
  gone : ∀ (d : StoreFolder) id, (host.partition h).storage.dir? = some (d.partitionPath id) →
    host.tree.exists (d.partitionPath id) = false

/-- The path of a partition's directory ends in its name. -/
theorem StoreFolder.getLast?_partitionPath (d : StoreFolder) (id : Int32) :
    (d.partitionPath id).steps.getLast? = some (.down (Naming.dirName d.store id)) := by
  rw [partitionPath, Naming.partitionPath, Path.steps_join (d.isPlainName_dir id)]
  simp

/-- A partition that was dropped is deleted: closed, empty, and without its directory. -/
theorem deleted_of_drop {h : Handle} {host' : Host}
    (hdrop : HostAction.drop h host = .ok () host') : Deleted h host' := by
  cases hrun : (host.partition h).drop host.tree with
  | error e t => cases (HostAction.drop_of_error hrun).symm.trans hdrop
  | ok part t =>
      obtain rfl := Partition.eq_dropped_of_drop hrun
      cases (HostAction.drop_of_ok hrun).symm.trans hdrop
      by_cases hh : h < host.partitions.length
      · have hself := Host.partition_setPartition_self ({ host with tree := t } : Host)
          (host.partition h).dropped hh
        refine ⟨by rw [hself]; rfl, by rw [hself]; rfl, fun d id hdir => ?_⟩
        rw [hself, Partition.dropped, Storage.dir?_settled] at hdir
        obtain ⟨dirty, hstorage⟩ := Storage.eq_table_of_dir? hdir
        rw [Partition.drop_eq hstorage] at hrun
        show t.exists (d.partitionPath id) = false
        split at hrun
        · split at hrun
          · rename_i hremove
            cases hrun
            exact exists_of_removeDirAll (d.getLast?_partitionPath id)
              (d.endsWithSlash_partitionPath id) hremove
          · cases hrun
        · rename_i hthere
          cases hrun
          exact Bool.eq_false_iff.2 hthere
      · -- A handle that was never given out stands for a partition in memory.
        have hreleased : (({ host with tree := t } : Host).setPartition h
            (host.partition h).dropped).partition h = Host.released := by
          have hnone : host.partitions.length ≤ h := Nat.le_of_not_lt hh
          simp [Host.setPartition, Host.partition, hnone]
        refine ⟨by rw [hreleased]; rfl, by rw [hreleased]; rfl, fun d id hdir => ?_⟩
        rw [hreleased] at hdir
        cases hdir

/-- No other drop brings a partition back. -/
theorem Deleted.drop {h : Handle} (deleted : Deleted h host) (g : Handle) :
    Deleted h (Action.after (HostAction.drop g host)) := by
  have less : Less host.tree (Action.after (HostAction.drop g host)).tree := by
    rw [HostAction.tree_after_drop]
    exact less_drop _ _
  have continues := (HostAction.confines_drop g host).each h
  refine ⟨continues.closed deleted.closed, ?_, fun d id hdir => ?_⟩
  · rcases partition_after_drop g h host with e | e
    · rw [e, deleted.entries]
    · rw [e]
      rfl
  · rw [continues.dir] at hdir
    exact less.exists_eq_false (deleted.gone d id hdir)

/-- Nor does anything that puts nothing into the tree and leaves the partitions alone. -/
theorem Deleted.of_less {h : Handle} {t : FileTree} (deleted : Deleted h host)
    (less : Less host.tree t) : Deleted h { host with tree := t } :=
  ⟨deleted.closed, deleted.entries, fun d id hdir => less.exists_eq_false (deleted.gone d id hdir)⟩

/-- Every partition whose drop succeeded is deleted in the end. -/
theorem deleted_of_sweep (releases : b.Releases) (sweep : Sweep b.drop host log last) :
    ∀ a ∈ log, a.outcome = .ok () → Deleted a.entry.2 last := by
  refine sweep.holds_of_ok
    (fun h host _ hrun => deleted_of_drop (ok_of_released (releases.drop h host) hrun))
    fun g h host deleted => ?_
  rcases releases.drop g host with e | ⟨e, hfail⟩
  · rw [e]
    exact deleted.drop g
  · rw [hfail]
    exact deleted

/-! ### The end of an engine -/

/-- What an engine does with its folder in the end: it removes the folder that it answers for. -/
def Engine.lastRemoval (e : Engine) : HostAction Unit :=
  if e.ownsFolder then do
    let _ ← HostAction.onTree e.folder.remove
  else pure ()

/-- To remove the folder is the last thing that the engine does on its host. -/
theorem EngineAction.removeFolder_eq (r : Running) :
    EngineAction.removeFolder r = EngineAction.onHost r.engine.lastRemoval r := by
  rw [removeFolder, Action.bind_of_ok (engine_apply r), Engine.lastRemoval]
  split
  · cases hremove : HostAction.onTree r.engine.folder.remove r.host with
    | ok removed host =>
        have hrun : (do let _ ← HostAction.onTree r.engine.folder.remove : HostAction Unit) r.host =
            .ok () host := Action.bind_of_ok hremove
        rw [onHost_of_ok hrun, Action.bind_of_ok (onHost_of_ok hremove)]
        rfl
    | error e host =>
        have hrun : (do let _ ← HostAction.onTree r.engine.folder.remove : HostAction Unit) r.host =
            .error e host := Action.bind_of_error hremove
        rw [onHost_of_error hrun, Action.bind_of_error (onHost_of_error hremove)]
  · rfl

/-- The answer of a request that ended with a failure, or with none. -/
def endedWith (failure? : Option StoreError) (r : Running) :
    EStateM.Result StoreError Running Unit :=
  match failure? with
  | none => .ok () r
  | some failure => .error failure r

/-- The end is a success exactly if there was no failure. -/
theorem exists_endedWith_eq_ok_iff {failure? : Option StoreError} :
    (∃ r', endedWith failure? r = .ok () r') ↔ failure? = none := by
  cases failure? <;> simp [endedWith]

/-- An outcome is no failure exactly if it is a success. -/
theorem failureOf_eq_none_iff {outcome : Except StoreError Unit} :
    failureOf outcome = none ↔ outcome = .ok () := by
  cases outcome <;> simp [failureOf]

/-- A folder that was removed is not there any more. -/
theorem StoreFolder.isThere_of_remove {d : StoreFolder} {t u : FileTree} {removed : Bool}
    (h : d.remove t = .ok removed u) : d.isThere u = false := by
  rw [remove, Action.bind_of_ok (Action.get_apply t)] at h
  split at h
  · obtain ⟨_, t', hremove, hpure⟩ := Action.bind_eq_ok_iff.1 h
    cases hpure
    exact exists_of_removeDirAll d.getLast?_path d.endsWithSlash_path
      (StoreAction.ofFiles_eq_ok_iff.1 hremove)
  · rename_i hthere
    cases h
    exact Bool.eq_false_iff.2 hthere

/-- To remove the folder leaves less, or the same. -/
theorem StoreFolder.less_remove (d : StoreFolder) (t : FileTree) :
    Less t (Action.after (d.remove t)) := by
  rw [remove, Action.bind_of_ok (Action.get_apply t)]
  split
  · have hremove := Less.removeDirAll d.path t
    rw [Action.after_bind fun _ _ => rfl]
    cases hrun : Files.removeDirAll d.path t with
    | ok _ u =>
        rw [hrun] at hremove
        rwa [StoreAction.io_of_ok hrun]
    | error e u =>
        rw [hrun] at hremove
        rwa [StoreAction.io_of_error hrun]
  · exact .refl t

/-- Removing the folder leaves less of the tree, and the partitions as they were. -/
theorem Engine.after_lastRemoval (e : Engine) (host : Host) :
    ∃ t, Action.after (e.lastRemoval host) = { host with tree := t } ∧ Less host.tree t := by
  rw [Engine.lastRemoval]
  split
  · refine ⟨_, ?_, e.folder.less_remove host.tree⟩
    rw [Action.after_bind fun _ _ => rfl, HostAction.after_onTree]
  · exact ⟨host.tree, rfl, .refl _⟩

/-- A folder that was removed is not there. -/
theorem Engine.isThere_of_lastRemoval {e : Engine} {host host' : Host}
    (howns : e.ownsFolder = true) (h : e.lastRemoval host = .ok () host') :
    e.folder.isThere host'.tree = false := by
  rw [Engine.lastRemoval, if_pos howns] at h
  obtain ⟨removed, host₁, hremove, hpure⟩ := Action.bind_eq_ok_iff.1 h
  cases hpure
  obtain ⟨t, hrun, rfl⟩ := HostAction.onTree_eq_ok_iff.1 hremove
  exact StoreFolder.isThere_of_remove hrun

/-- Closing an engine attempts to close every registered partition, and the first failure among
them is the answer. -/
theorem EngineAction.exists_close_eq (hphase : r.engine.phase = .opened) :
    ∃ log host, Sweep r.engine.backend.close r.host log host ∧
      turnsOf log = r.engine.registry ∧
      EngineAction.close r = endedWith (firstFailure? log)
        ⟨{ r.engine with registry := [], phase := .closed }, host⟩ := by
  obtain ⟨log, host, sweep, hentries, heach⟩ := forEachAttempt_eq r.engine.backend.close
    r.engine.registry ⟨{ r.engine with registry := [] }, r.host⟩
  refine ⟨log, host, sweep, hentries, ?_⟩
  rw [close_eq hphase, Action.bind_of_ok heach, Action.bind_of_ok (modifyEngine_apply ..)]
  cases firstFailure? log <;> rfl

/-- Removing a store attempts to drop every registered partition, and then to remove the folder.
The first failure is the answer. -/
theorem EngineAction.exists_removeStore_eq (hphase : r.engine.phase = .opened) :
    ∃ log swept, Sweep r.engine.backend.drop r.host log swept ∧
      turnsOf log = r.engine.registry ∧
      EngineAction.removeStore r = endedWith
        ((firstFailure? log).or (failureOf (Action.answer (r.engine.lastRemoval swept))))
        ⟨Engine.reported { r.engine with registry := [], phase := .dropped }
          (Action.after (r.engine.lastRemoval swept)).tree,
          Action.after (r.engine.lastRemoval swept)⟩ := by
  obtain ⟨log, swept, sweep, hentries, heach⟩ := forEachAttempt_eq r.engine.backend.drop
    r.engine.registry ⟨{ r.engine with registry := [] }, r.host⟩
  refine ⟨log, swept, sweep, hentries, ?_⟩
  have hattempt : attempt removeFolder ⟨{ r.engine with registry := [] }, swept⟩ =
      .ok (Action.answer (r.engine.lastRemoval swept))
        ⟨{ r.engine with registry := [] }, Action.after (r.engine.lastRemoval swept)⟩ := by
    rw [attempt, removeFolder_eq]
    exact attempt_onHost _ _
  rw [removeStore_eq hphase, Action.bind_of_ok heach, Action.bind_of_ok hattempt,
    Action.bind_of_ok (modifyEngine_apply ..)]
  cases firstFailure? log <;> cases Action.answer (r.engine.lastRemoval swept) <;> rfl

/-- Closing an engine and removing its store go through with all registered partitions, in the
order of the registry, once for each, and removing goes on to the folder, whatever fails on the
way. The engine has ended then, and the answer is the first failure. -/
theorem ends_whatever_fails (r : Running) (hphase : r.engine.phase = .opened) :
    (∃ log host, Sweep r.engine.backend.close r.host log host ∧
        turnsOf log = r.engine.registry ∧
        EngineAction.close r = endedWith (firstFailure? log)
          ⟨{ r.engine with registry := [], phase := .closed }, host⟩ ∧
        ((∃ r', EngineAction.close r = .ok () r') ↔ ∀ a ∈ log, a.outcome = .ok ()) ∧
        (r.engine.backend.Releases → ∀ a ∈ log, a.outcome = .ok () →
          (host.partition a.entry.2).closed = true)) ∧
      ∃ log swept removal host, Sweep r.engine.backend.drop r.host log swept ∧
        turnsOf log = r.engine.registry ∧
        Action.answer (r.engine.lastRemoval swept) = removal ∧
        Action.after (r.engine.lastRemoval swept) = host ∧
        EngineAction.removeStore r = endedWith ((firstFailure? log).or (failureOf removal))
          ⟨Engine.reported { r.engine with registry := [], phase := .dropped } host.tree, host⟩ ∧
        ((∃ r', EngineAction.removeStore r = .ok () r') ↔
          (∀ a ∈ log, a.outcome = .ok ()) ∧ removal = .ok ()) ∧
        (r.engine.ownsFolder = true → removal = .ok () →
          r.engine.folder.isThere host.tree = false) ∧
        (r.engine.backend.Releases → ∀ a ∈ log, a.outcome = .ok () →
          Deleted a.entry.2 host) := by
  constructor
  · obtain ⟨log, host, sweep, hentries, hclose⟩ := EngineAction.exists_close_eq hphase
    refine ⟨log, host, sweep, hentries, hclose, ?_, fun releases => closed_of_sweep releases sweep⟩
    rw [hclose, exists_endedWith_eq_ok_iff, firstFailure?_eq_none_iff]
  · obtain ⟨log, swept, sweep, hentries, hremove⟩ := EngineAction.exists_removeStore_eq hphase
    refine ⟨log, swept, _, _, sweep, hentries, rfl, rfl, hremove, ?_, fun howns hok => ?_,
      fun releases a ha hok => ?_⟩
    · rw [hremove, exists_endedWith_eq_ok_iff, Option.or_eq_none_iff, firstFailure?_eq_none_iff,
        failureOf_eq_none_iff]
    · cases hlast : r.engine.lastRemoval swept with
      | error e host =>
          rw [hlast] at hok
          cases hok
      | ok _ host => exact Engine.isThere_of_lastRemoval howns hlast
    · -- What the drops deleted is not brought back by removing the folder.
      obtain ⟨t, hafter, less⟩ := r.engine.after_lastRemoval swept
      rw [hafter]
      exact (deleted_of_sweep releases sweep a ha hok).of_less less

/-- The metadata partition can neither be closed nor dropped. -/
def metadataHeld : Backend.Faults :=
  { (default : Backend.Faults) with close := [-1], drop := [-1] }

set_option maxRecDepth 10000 in
/-- A metadata partition that cannot be dropped keeps neither the other partition nor the folder
from being removed. Its failure is the answer. -/
theorem ends_though_metadata_held : ∃ e host r log swept r',
    Engine.openWith (settingsUnder ⟨"."⟩) (Backend.table.withFaults metadataHeld) none
        (Host.ofTree FileTree.empty) = .ok e host ∧
      r = (EngineCall.request (.addPartition 7)).next ⟨e, host⟩ ∧
      Sweep r.engine.backend.drop r.host log swept ∧ (turnsOf log).map Prod.fst = [-1, 7] ∧
      EngineAction.removeStore r = .error (Backend.Faults.error "drop") r' ∧
      r.host.tree.exists (r.engine.folder.partitionPath 7) = true ∧
      r'.engine.registry = [] ∧ r'.engine.phase = .dropped ∧
      r'.engine.folder.isThere r'.host.tree = false := by
  have key : Action.succeedsWith
      (Engine.openWith (settingsUnder ⟨"."⟩) (Backend.table.withFaults metadataHeld) none)
      (Host.ofTree FileTree.empty) (fun e host =>
        let r := (EngineCall.request (.addPartition 7)).next ⟨e, host⟩
        decide (r.engine.phase = .opened) && decide (r.engine.registry.map Prod.fst = [-1, 7]) &&
          r.host.tree.exists (r.engine.folder.partitionPath 7) &&
          Action.failsWith EngineAction.removeStore r fun failure r' =>
            decide (failure = Backend.Faults.error "drop") && r'.engine.registry.isEmpty &&
              decide (r'.engine.phase = .dropped) &&
              !r'.engine.folder.isThere r'.host.tree) = true := by decide +kernel
  obtain ⟨e, host, hopen, key⟩ := Action.exists_of_succeedsWith key
  simp only [Bool.and_eq_true, decide_eq_true_eq] at key
  obtain ⟨⟨⟨hphase, hregistry⟩, hthere⟩, hfails⟩ := key
  obtain ⟨failure, r', hremove, key⟩ := Action.exists_of_failsWith hfails
  simp only [Bool.and_eq_true, decide_eq_true_eq, Bool.not_eq_true', List.isEmpty_iff] at key
  obtain ⟨⟨⟨rfl, hempty⟩, hdropped⟩, hgone⟩ := key
  obtain ⟨-, log, swept, -, -, sweep, hentries, -⟩ := ends_whatever_fails _ hphase
  exact ⟨e, host, _, log, swept, r', hopen, rfl, sweep, by rw [hentries, hregistry], hremove,
    hthere, hempty, hdropped, hgone⟩

end PartitionStore
