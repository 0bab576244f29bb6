import PartitionStore.Proofs.Engine.HandleCalls
import PartitionStore.Proofs.Engine.Opening

/-!
# `PartitionStore.Proofs.Engine.SpentHandles`: handles of closed partitions

A handle outlives its partition: the engine may close or drop the partition, and
make another one of the same id in the same directory. `Shared` follows an engine and
the handles of its partitions through any sequence of requests and calls. Whatever
happens, a partition that is closed stays closed, and keeps its id and its directory.

So its handle is harmless but for one call. Dropping does not look whether the
partition is closed, and takes what it finds in the directory by then: the table of a
partition made anew, or that of a closed engine.

* `Shared.sharing`: what all steps keep.
* `SharedStep.closed_of_ends`: the steps that close a partition.
* `spent_handle_changes_tree_iff`: what a spent handle can still do.
-/

set_option autoImplicit false

namespace PartitionStore

open FileTree Naming

/-- What an engine and the handles of its partitions are used for. -/
inductive SharedStep where
  /-- The engine is asked for something. -/
  | ask (request : Request)
  /-- A partition is used by its handle. -/
  | call (h : Handle) (call : HandleCall)
  deriving DecidableEq, Repr

/-- The engine and the host after the step, whether it succeeds or not. -/
def SharedStep.next : SharedStep → Running → Running
  | ask request, r => (request.serve r).2
  | call h made, r => { r with host := made.next h r.host }

/-- An engine and the handles of its partitions are used in turn. The registry may be in another
order before any of the steps. -/
inductive Shared : Running → List SharedStep → Running → Prop where
  | done (r : Running) : Shared r [] r
  | step {r final : Running} {registry : List (Int32 × Handle)} {step : SharedStep}
      {steps : List SharedStep} (perm : registry.Perm r.engine.registry)
      (rest : Shared (step.next ⟨{ r.engine with registry }, r.host⟩) steps final) :
      Shared r (step :: steps) final

/-- The registry may stay in the order it is in. -/
theorem Shared.cons {r final : Running} {step : SharedStep} {steps : List SharedStep}
    (rest : Shared (step.next r) steps final) : Shared r (step :: steps) final :=
  @Shared.step r final r.engine.registry step steps (List.Perm.refl _) rest

variable {d : StoreFolder} {c : EngineSettings} {e : Engine} {host₀ host host' : Host}
  {h : Handle} {r r' : Running} {step : SharedStep} {steps later : List SharedStep}

/-! ### What is kept -/

/-- All partitions of the first host go on, and every partition has the directory of its id. -/
structure Shares (d : StoreFolder) (host₀ host : Host) : Prop where
  persists : Persists host₀ host
  placed : ∀ h, h < host.partitions.length →
    (host.partition h).storage.dir? = some (d.partitionPath (host.partition h).id)

/-- The engine has partitions with tables, in the folder. -/
structure Sharing (d : StoreFolder) (host₀ : Host) (r : Running) : Prop where
  backend : r.engine.backend = Backend.table
  folder : r.engine.folder = d
  shares : Shares d host₀ r.host

/-- A partition is opened in its directory. -/
theorem Partition.placed_of_openTable {dir : Path} {spec : PartitionSpec} {t u : FileTree}
    {part : Partition} (hopen : Partition.openTable dir spec t = .ok part u) :
    part.id = spec.id ∧ part.storage.dir? = some dir := by
  obtain ⟨_, t₁, -, hopen⟩ := Action.bind_eq_ok_iff.1 hopen
  rw [Action.bind_of_ok (Action.get_apply t₁)] at hopen
  split at hopen
  · obtain ⟨table, t₂, -, hopen⟩ := Action.bind_eq_ok_iff.1 hopen
    split at hopen
    · cases hopen
      exact ⟨rfl, rfl⟩
    · cases hopen
  · obtain ⟨_, t₂, -, hopen⟩ := Action.bind_eq_ok_iff.1 hopen
    cases hopen
    exact ⟨rfl, rfl⟩

namespace Shares

theorem confines (shares : Shares d host₀ host) (confines : Confines h host host') :
    Shares d host₀ host' := by
  refine ⟨shares.persists.trans confines.persists, fun g hg => ?_⟩
  have hg' : g < host.partitions.length := confines.length ▸ hg
  have continues := confines.each g
  rw [continues.dir, continues.id]
  exact shares.placed g hg'

theorem setTree (shares : Shares d host₀ host) (t : FileTree) :
    Shares d host₀ { host with tree := t } := shares.confines (.setTree 0 host t)

/-- A partition is added, or there is a failure. -/
theorem attach (shares : Shares d host₀ host) (spec : PartitionSpec) :
    Shares d host₀ (Action.after (Backend.table.attach d spec host)) := by
  rcases Backend.attach_table_cases d spec host with ⟨part, t, hopen, hok⟩ | ⟨e, t, herror, -⟩
  · rw [hok]
    obtain ⟨hid, hdir⟩ := Partition.placed_of_openTable hopen
    refine ⟨shares.persists.trans (.add host t part), fun g hg => ?_⟩
    show ((host.add part).partition g).storage.dir? =
      some (d.partitionPath ((host.add part).partition g).id)
    have hlast : g < host.partitions.length ∨ g = host.partitions.length := by
      rw [← Nat.lt_succ_iff_lt_or_eq]
      simpa [Action.after] using hg
    rcases hlast with hold | rfl
    · rw [Host.partition_add_of_lt _ _ hold]
      exact shares.placed g hold
    · rw [Host.partition_add_self, hdir, hid]
  · rw [herror]
    exact shares.setTree t

end Shares

/-- Every operation of an engine keeps this, whatever its outcome. -/
theorem keeps_shares (d : StoreFolder) (host₀ : Host) :
    Backend.table.Keeps d (fun _ => True) (fun host _ => Shares d host₀ host) where
  perm shares _ := shares
  attach {_ _ spec _ _} shares _ hattach := by
    have hafter := shares.attach spec
    rwa [hattach] at hafter
  attach_error {_ _ spec _ _} shares _ hattach := by
    have hafter := shares.attach spec
    rwa [hattach] at hafter
  put key value shares _ := shares.confines (HostAction.confines_put _ key value _)
  get key shares _ := (HostAction.after_get _ key _).symm ▸ shares
  delete key shares _ := shares.confines (HostAction.confines_delete _ key _)
  sync shares _ := shares.confines (HostAction.confines_sync _ _)
  drop {_ _ _ h _} shares _ _ hdrop := by
    have hafter := shares.confines (HostAction.confines_drop h _)
    rwa [show HostAction.drop h _ = _ from hdrop] at hafter
  drop_error {_ _ _ h _ _} shares _ hdrop := by
    have hafter := shares.confines (HostAction.confines_drop h _)
    rwa [show HostAction.drop h _ = _ from hdrop] at hafter

namespace Sharing

/-- A request keeps it, also one that ends the engine's life or comes after that. -/
theorem serve (sharing : Sharing d host₀ r) (request : Request) :
    Sharing d host₀ (request.serve r).2 := by
  -- An engine that has ended refuses; an open one keeps its handles apart in each operation.
  cases hphase : r.engine.phase with
  | closed =>
      rw [Request.serve_snd, Request.run_of_closed hphase]
      split <;> exact sharing
  | dropped =>
      rw [Request.serve_snd, Request.run_of_dropped hphase]
      exact sharing
  | opened =>
      have hclose := fun (entry : Int32 × Handle) (_ : entry ∈ r.engine.registry) host
          (shares : Shares d host₀ host) => shares.confines (HostAction.confines_close entry.2 host)
      have hdrop := fun (entry : Int32 × Handle) (_ : entry ∈ r.engine.registry) host
          (shares : Shares d host₀ host) => shares.confines (HostAction.confines_drop entry.2 host)
      cases hlast : request.isLast with
      | false =>
          have live : Live Backend.table d (fun host _ => Shares d host₀ host) r :=
            ⟨hphase, sharing.backend, sharing.folder, sharing.shares⟩
          have live' := (keeps_shares d host₀).serve live hlast fun _ _ _ _ => trivial
          exact ⟨live'.backend, live'.folder, live'.inv⟩
      | true =>
          cases request with
          | close =>
              rw [Request.serve_snd_close]
              obtain ⟨host, hafter, shares⟩ := EngineAction.after_close hphase
                (sharing.backend ▸ hclose) sharing.shares
              rw [hafter]
              exact ⟨sharing.backend, sharing.folder, shares⟩
          | removeStore =>
              rw [Request.serve_snd_removeStore]
              have hremove : ∀ host, Shares d host₀ host → Shares d host₀
                  (Action.after (HostAction.onTree r.engine.folder.remove host)) := by
                intro host shares
                rw [HostAction.onTree]
                split <;> exact shares.setTree _
              obtain ⟨host, hafter, shares⟩ := EngineAction.after_removeStore hphase
                (sharing.backend ▸ hdrop) hremove sharing.shares
              rw [hafter]
              exact ⟨by simpa using sharing.backend, by simpa using sharing.folder, shares⟩
          | _ => cases hlast

theorem next (sharing : Sharing d host₀ r) (step : SharedStep) :
    Sharing d host₀ (step.next r) := by
  cases step with
  | ask request => exact sharing.serve request
  | call h call =>
      exact ⟨sharing.backend, sharing.folder, sharing.shares.confines (call.confines h r.host)⟩

end Sharing

/-- So do any number of steps. -/
theorem Shared.sharing (run : Shared r steps r') (sharing : Sharing d host₀ r) :
    Sharing d host₀ r' := by
  induction run with
  | done r => exact sharing
  | @step r final registry step steps perm rest ih =>
      have start : Sharing d host₀ ⟨{ r.engine with registry }, r.host⟩ :=
        ⟨sharing.backend, sharing.folder, sharing.shares⟩
      exact ih (start.next step)

/-- An engine that was brought up has it. -/
theorem sharing_of_open {t : FileTree} (hkind : c.backend = .table)
    (hopen : Engine.open c (Host.ofTree t) = .ok e host) :
    Sharing e.folder (Host.ofTree t) ⟨e, host⟩ := by
  obtain ⟨d, t₁, registry, host₁, t₂, -, -, hall, -, rfl, rfl⟩ := exists_of_open hopen
  rw [hkind] at hall ⊢
  rw [show Backend.ofKind .table = Backend.table from rfl] at hall
  have start : Shares d (Host.ofTree t) ⟨t₁, (Host.ofTree t).partitions⟩ :=
    ⟨⟨Nat.le_refl _, nofun⟩, nofun⟩
  obtain ⟨ids, -, opens⟩ := (keeps_shares d (Host.ofTree t)).openAll (c := c) start
    (fun host => (Backend.idsOnDisk_table d host).1) fun ids host' => by
      exact (Backend.idsOnDisk_table d _).2 ids host'
  rw [show Restore.openAll Backend.table d c ⟨t₁, (Host.ofTree t).partitions⟩ = _ from hall] at opens
  exact ⟨rfl, rfl, opens.2.setTree t₂⟩

/-! ### Spent handles -/

/-- The step closes the partition behind the handle or deletes its storage, and succeeds. The
engine does so to one partition when it removes that, and to all when it is closed or its store
is removed. -/
def SharedStep.Ends (step : SharedStep) (h : Handle) (r : Running) : Prop :=
  match step with
  | .call g .close => g = h ∧ ∃ host, HostAction.close h r.host = .ok () host
  | .call g .drop => g = h ∧ ∃ host, HostAction.drop h r.host = .ok () host
  | .ask (.removePartition id) => r.engine.phase = .opened ∧ r.engine.handle? id = some h ∧
      ∃ r', EngineAction.removePartition id r = .ok () r'
  | .ask .close => r.engine.phase = .opened ∧ h ∈ r.engine.registry.map Prod.snd ∧
      ∃ r', EngineAction.close r = .ok () r'
  | .ask .removeStore => r.engine.phase = .opened ∧ h ∈ r.engine.registry.map Prod.snd ∧
      ∃ r', EngineAction.removeStore r = .ok () r'
  | _ => False

/-- Where all partitions of a registry were released without a failure, all of them are closed. -/
theorem closed_of_forEachAttempt {release : Handle → HostAction Unit}
    (confines : ∀ h host, Confines h host (Action.after (release h host)))
    (closed : ∀ {h host host'}, release h host = .ok () host' → (host'.partition h).closed = true)
    {registry : List (Int32 × Handle)}
    (hall : EngineAction.forEachAttempt (fun (entry : Int32 × Handle) =>
      EngineAction.onHost (release entry.2)) registry r = .ok none r') :
    ∀ entry ∈ registry, (r'.host.partition entry.2).closed = true := by
  have step : ∀ (i : Int32 × Handle) rest host host',
      (∀ entry ∈ registry, entry ∈ i :: rest ∨ (host.partition entry.2).closed = true) →
        release i.2 host = .ok () host' →
          ∀ entry ∈ registry, entry ∈ rest ∨ (host'.partition entry.2).closed = true := by
    intro i rest host host' h hrun entry hentry
    have confined := confines i.2 host
    rw [hrun] at confined
    rcases h entry hentry with htodo | hclosed
    · rcases List.mem_cons.1 htodo with rfl | hrest
      · exact .inr (closed hrun)
      · exact .inl hrest
    · exact .inr ((confined.each _).closed hclosed)
  have hinv : ∀ entry ∈ registry, entry ∈ [] ∨ (r'.host.partition entry.2).closed = true :=
    @EngineAction.inv_of_forEachAttempt (Int32 × Handle) r r' (fun entry => release entry.2)
      (fun todo host => ∀ entry ∈ registry,
        entry ∈ todo ∨ (host.partition entry.2).closed = true) registry
      step (fun entry hentry => .inl hentry) hall
  exact fun entry hentry => (hinv entry hentry).resolve_left (by simp)

/-- A partition that was closed or dropped is closed. -/
theorem SharedStep.closed_of_ends (sharing : Sharing d host₀ r) (ends : step.Ends h r) :
    ((step.next r).host.partition h).closed = true := by
  -- One case for each way in which a handle can come to its end.
  match step, ends with
  | .call _ .close, ⟨rfl, host, hclose⟩ =>
      show ((HandleCall.close.next _ r.host).partition _).closed = true
      rw [HandleCall.next_close, hclose]
      exact HostAction.closed_of_close hclose
  | .call _ .drop, ⟨rfl, host, hdrop⟩ =>
      show ((HandleCall.drop.next _ r.host).partition _).closed = true
      rw [HandleCall.next_drop, hdrop]
      exact HostAction.closed_of_drop hdrop
  | .ask (.removePartition id), ⟨hphase, hlookup, r', hremove⟩ =>
      rw [next, Request.serve_of_ok (Action.bind_of_ok hremove)]
      rw [EngineAction.removePartition_eq hphase, sharing.backend, hlookup] at hremove
      cases hdrop : Backend.table.drop h r.host with
      | error e host => simp [hdrop] at hremove
      | ok _ host =>
          simp only [hdrop] at hremove
          cases hremove
          exact HostAction.closed_of_drop hdrop
  | .ask .close, ⟨hphase, hmem, r', hclose⟩ =>
      rw [next, Request.serve_of_ok (Action.bind_of_ok hclose)]
      obtain ⟨r₁, hall, rfl⟩ := (EngineAction.close_eq_ok_iff hphase).1 hclose
      obtain ⟨entry, hentry, rfl⟩ := List.mem_map.1 hmem
      rw [sharing.backend] at hall
      exact closed_of_forEachAttempt HostAction.confines_close HostAction.closed_of_close hall
        entry hentry
  | .ask .removeStore, ⟨hphase, hmem, r', hremove⟩ =>
      rw [next, Request.serve_of_ok (Action.bind_of_ok hremove)]
      obtain ⟨r₁, hall, hsame⟩ := EngineAction.exists_of_removeStore hphase hremove
      obtain ⟨entry, hentry, rfl⟩ := List.mem_map.1 hmem
      rw [sharing.backend] at hall
      have hclosed := closed_of_forEachAttempt HostAction.confines_drop HostAction.closed_of_drop
        hall entry hentry
      rw [Host.partition] at hclosed ⊢
      rwa [hsame]

/-- A spent handle is harmless but for being dropped once more. Once a partition was closed or
dropped, whatever happens then: no call by its handle changes what another partition holds, and
none but a drop changes anything. A drop changes the tree unless there is nothing that it could
remove at the path of the directory, which is the one of the partition's id. -/
theorem spent_handle_changes_tree_iff {t : FileTree} (hkind : c.backend = .table)
    (hopen : Engine.open c (Host.ofTree t) = .ok e host) (run : Shared ⟨e, host⟩ steps r)
    (hknown : h < r.host.partitions.length) (spent : (r.host.partition h).closed = true)
    (run' : Shared r later r') :
    (r'.host.partition h).closed = true ∧ ∀ call : HandleCall,
      (∀ g, g ≠ h → (call.next h r'.host).partition g = r'.host.partition g) ∧
        (call ≠ .drop → call.next h r'.host = r'.host) ∧
        ((call.next h r'.host).tree ≠ r'.host.tree ↔ call = .drop ∧
          ¬r'.host.tree.Spares (e.folder.partitionPath (r.host.partition h).id)) := by
  have sharing := run.sharing (sharing_of_open hkind hopen)
  have sharing' : Sharing e.folder r.host r' := run'.sharing
    ⟨sharing.backend, sharing.folder, .refl _, sharing.shares.placed⟩
  have continues := sharing'.shares.persists.each h hknown
  have hclosed := continues.closed spent
  refine ⟨hclosed, fun call => ⟨(call.confines h r'.host).others,
    HandleCall.next_of_closed hclosed, ?_⟩⟩
  by_cases hdrop : call = .drop
  · subst hdrop
    -- The directory is that of the id, whatever was made of it since.
    have hdir := sharing'.shares.placed h (Nat.lt_of_lt_of_le hknown
      sharing'.shares.persists.known)
    rw [continues.id] at hdir
    have hlast : (e.folder.partitionPath (r.host.partition h).id).steps.getLast? =
        some (.down (dirName e.folder.store (r.host.partition h).id)) := by
      rw [StoreFolder.partitionPath, partitionPath, Path.steps_join (e.folder.isPlainName_dir _)]
      simp
    rw [HandleCall.tree_next_drop, Ne, Partition.drop_tree_eq_iff hdir hlast
      (e.folder.endsWithSlash_partitionPath _)]
    simp
  · rw [HandleCall.next_of_closed hclosed hdrop]
    simp [hdrop]

set_option maxRecDepth 10000 in
/-- The handle of a partition that was dropped leaves the partition alone that is made in its place,
until it is dropped by that handle: then the new table is gone. -/
theorem new_table_lost_by_spent_handle : ∃ e host r r',
    Engine.open (settingsUnder ⟨"."⟩) (Host.ofTree FileTree.empty) = .ok e host ∧
      Shared ⟨e, host⟩ [.ask (.addPartition 5), .ask (.removePartition 5)] r ∧
      (r.host.partition 1).id = 5 ∧ (r.host.partition 1).closed = true ∧
      Shared r [.ask (.addPartition 5)] r' ∧
      (∀ call : HandleCall, call ≠ .drop → call.next 1 r'.host = r'.host) ∧
      (HandleCall.drop.next 1 r'.host).partition 2 = r'.host.partition 2 ∧
      (HandleCall.drop.next 1 r'.host).tree ≠ r'.host.tree ∧
      r'.host.tree.exists (Partition.tableFile (e.folder.partitionPath 5)) = true ∧
      (HandleCall.drop.next 1 r'.host).tree.exists
        (Partition.tableFile (e.folder.partitionPath 5)) = false := by
  -- The run is evaluated at once, and its results are read off below.
  have key : Action.succeedsWith (Engine.open (settingsUnder ⟨"."⟩)) (Host.ofTree FileTree.empty)
      (fun e host =>
        let r := (SharedStep.ask (.removePartition 5)).next
          ((SharedStep.ask (.addPartition 5)).next ⟨e, host⟩)
        let r' := (SharedStep.ask (.addPartition 5)).next r
        let table := Partition.tableFile (e.folder.partitionPath 5)
        decide (1 < r.host.partitions.length) && decide ((r.host.partition 1).id = 5) &&
          (r.host.partition 1).closed && r'.host.tree.exists table &&
          r'.host.tree.exists (e.folder.partitionPath 5) &&
          decide (r'.host.tree.find .itself (e.folder.partitionPath 5) = .ok (["s_5", "s"], .dir)) &&
          !(HandleCall.drop.next 1 r'.host).tree.exists table) = true := by decide +kernel
  obtain ⟨e, host, hopen, key⟩ := Action.exists_of_succeedsWith key
  simp only [Bool.and_eq_true, decide_eq_true_eq, Bool.not_eq_true'] at key
  obtain ⟨⟨⟨⟨⟨⟨hknown, hid⟩, spent⟩, hthere⟩, hdir⟩, hfind⟩, hgone⟩ := key
  have run := (Shared.done ((SharedStep.ask (.removePartition 5)).next
    ((SharedStep.ask (.addPartition 5)).next ⟨e, host⟩))).cons.cons
  have run' := (Shared.done ((SharedStep.ask (.addPartition 5)).next
    ((SharedStep.ask (.removePartition 5)).next
      ((SharedStep.ask (.addPartition 5)).next ⟨e, host⟩)))).cons
  obtain ⟨-, harmless⟩ := spent_handle_changes_tree_iff rfl hopen run hknown spent run'
  refine ⟨e, host, _, _, hopen, run, hid, spent, run', fun call => (harmless call).2.1,
    (harmless .drop).1 2 (by decide), (harmless .drop).2.2.2 ⟨rfl, fun hspares => ?_⟩, hthere,
    hgone⟩
  rw [hid] at hspares
  obtain ⟨data, hdata⟩ := hspares hdir _ _ hfind
  cases hdata

end PartitionStore
