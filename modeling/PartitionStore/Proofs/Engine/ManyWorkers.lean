import PartitionStore.Proofs.Engine.FailedOpen
import PartitionStore.Proofs.Engine.Parallel
import PartitionStore.Proofs.StoreFolder.Guarding

/-!
# `PartitionStore.Proofs.Engine.ManyWorkers`: opening a store with many workers

The backends open partitions apart: tables where the store's folder stands, without links in it,
and partitions in memory everywhere. Planted failures make no difference to that. So it makes no
difference how many workers bring a store up.

An opening has three parts. What comes before the partitions are opened (`Engine.before`) and what
comes after that (`Engine.behind`) is done by one worker alone, and in between are the crews
(`Engine.openBy`).

* `Backend.opensApart_table`, `Backend.opensApart_inMemory`, `Backend.OpensApart.withFaults`: the
  backends.
* `Engine.seen_openBy`: crews of any two sizes bring up the same engine.
* `seen_openWith_ofKind`: so it is with either backend; with tables in every store without links.
* `restores_as_one_by_one`: crews, and whole openings, with any backend that opens partitions apart.
-/

set_option autoImplicit false

namespace PartitionStore

open FileTree Naming StoreFolder
open PartitionStore.Partition (Slot)

variable {b : Backend} {d : StoreFolder} {c : EngineSettings} {own : Int32 → Location → Prop}
  {fit : Host → Prop} {host₀ host host' : Host} {ids : List Int32} {id : Int32} {loc : Location}
  {t u : FileTree}

/-! ### Backends that open partitions apart -/

/-- Trees that are the same for a partition have the same slot for it. -/
theorem SameFor.slot_eq (same : SameFor (fun i => Slot.Has (dirName d.store i :: loc)) id t u) :
    d.slot loc u id = d.slot loc t id :=
  slot_eq_iff.2 fun l hl => same l fun _ hj h => hj (eq_of_has h hl)

/-- What opening a table answers, and what it leaves. -/
theorem Standing.attach_table (standing : Standing d loc host.tree) (hstore : c.store = d.store)
    (id : Int32) : Settled d c loc [id] host.tree
        (Action.after (Backend.table.attach d (c.spec id) host)).tree ∧
      host.partitions <+: (Action.after (Backend.table.attach d (c.spec id) host)).partitions ∧
      (∀ h u, Backend.table.attach d (c.spec id) host = .ok h u →
        h < u.partitions.length ∧ d.slot loc u.tree id = (d.opening c loc host.tree id).2) ∧
      Backend.table.comesTo d c host id = (d.opened c loc host.tree id).map Prod.snd := by
  -- A single attachment is the restore of one id; its outcome is read off the list of one.
  have restored := standing.attach hstore id
  rw [Backend.comesTo]
  cases hattach : Backend.table.attach d (c.spec id) host with
  | error e u =>
      rw [Action.bind_of_error hattach] at restored
      obtain ⟨settled, hgrows, herror⟩ := restored
      obtain ⟨i, hi, herror⟩ := exists_of_mapM_eq_error herror
      rw [List.mem_singleton.1 hi] at herror
      rw [herror]
      exact ⟨settled, hgrows, fun _ _ hok => by (cases hok), rfl⟩
  | ok h u =>
      rw [Action.bind_of_ok hattach] at restored
      obtain ⟨settled, hgrows, hslots, parts, hparts, holds⟩ := restored
      obtain ⟨part, hpart⟩ := forall_of_mapM_eq_ok hparts id (List.mem_singleton_self id)
      rw [List.mapM_cons, List.mapM_nil, hpart] at hparts
      cases hparts
      obtain ⟨-, hhandle⟩ := (List.forall₂_cons.1 holds).1
      refine ⟨settled, hgrows, fun h' u' hok => ?_, ?_⟩
      · cases hok
        exact ⟨(List.getElem?_eq_some_iff.1 hhandle).1, hslots id (List.mem_singleton_self id)⟩
      · show Except.ok (u.partition h) = _
        rw [hpart, Host.partition, List.getD_eq_getElem?_getD, hhandle]
        rfl

namespace Backend

/-- Tables in a folder that stands: the storage of a partition is its slot. -/
theorem opensApart_table (hstore : c.store = d.store) (loc : Location) :
    Backend.table.OpensApart d c (fun id => Slot.Has (dirName d.store id :: loc))
      fun host => Standing d loc host.tree where
  disjoint hi hj := eq_of_has hi hj
  keeps id standing := (standing.attach_table hstore id).1.standing
  grows id standing := (standing.attach_table hstore id).2.1
  registers standing hattach := ((standing.attach_table hstore _).2.2.1 _ _ hattach).1
  confined {host id l} standing hl := by
    have settled := (standing.attach_table hstore id).1
    -- A place that is no other slot's either is outside all slots, and nothing changes there.
    by_cases hother : ∃ j, Slot.Has (dirName d.store j :: loc) l
    · obtain ⟨j, hj⟩ := hother
      have hne : j ∉ [id] := fun h => hl (List.mem_singleton.1 h ▸ hj)
      exact slot_eq_iff.1 (settled.others j hne) l hj
    · exact settled.same l fun j hj => hother ⟨j, hj⟩
  comesTo {host host' id} standing standing' same := by
    rw [(standing.attach_table hstore id).2.2.2, (standing'.attach_table hstore id).2.2.2,
      StoreFolder.opened, StoreFolder.opened, d.opening_congr c same.slot_eq]
  stored {host host' id h h' u u'} standing standing' same hattach hattach' l hl := by
    have hslot := ((standing.attach_table hstore id).2.2.1 h u hattach).2
    have hslot' := ((standing'.attach_table hstore id).2.2.1 h' u' hattach').2
    rw [d.opening_congr c same.slot_eq] at hslot'
    exact slot_eq_iff.1 (hslot'.trans hslot.symm) l hl
  lists {host ids host'} standing hids := by
    obtain ⟨hsame, hnodup⟩ := Backend.idsOnDisk_table d host
    rw [hids] at hsame
    obtain rfl : host' = host := hsame
    exact ⟨hnodup ids _ hids, standing⟩

/-- Partitions in memory have no storage, and never fail to open. -/
theorem opensApart_inMemory (d : StoreFolder) (c : EngineSettings) :
    Backend.inMemory.OpensApart d c (fun _ _ => False) fun _ => True where
  disjoint hi := hi.elim
  keeps _ _ := trivial
  grows _ _ := List.prefix_append ..
  registers {host id h host'} _ hattach := by
    cases hattach
    simp [Host.add]
  confined _ _ := rfl
  comesTo {host host' id} _ _ _ := by
    show Except.ok ((host'.add (Partition.inMemory (c.spec id))).partition _) =
      Except.ok ((host.add (Partition.inMemory (c.spec id))).partition _)
    rw [Host.partition_add_self, Host.partition_add_self]
  stored _ _ _ _ _ _ hl := hl.elim
  lists {host ids host'} _ hids := by
    cases hids
    exact ⟨List.nodup_nil, trivial⟩

/-- Partitions that fail to open wherever they are leave the others alone. -/
theorem OpensApart.withFaults (apart : b.OpensApart d c own fit) (faults : Faults) :
    (b.withFaults faults).OpensApart d c own fit := by
  -- An opening is that of the backend, or it fails at once.
  have hcases (id : Int32) :
      (b.withFaults faults).attach d (c.spec id) = b.attach d (c.spec id) ∨
        ∃ e, (b.withFaults faults).attach d (c.spec id) = throw e := by
    by_cases hfails : faults.attach.contains id = true
    · exact .inr ⟨_, if_pos hfails⟩
    · exact .inl (if_neg hfails)
  refine ⟨apart.disjoint, ?_, ?_, ?_, ?_, ?_, ?_, ?_⟩
  · intro host id hfit
    rcases hcases id with h | ⟨e, h⟩
    · rw [h]
      exact apart.keeps id hfit
    · rw [h]
      exact hfit
  · intro host id hfit
    rcases hcases id with h | ⟨e, h⟩
    · rw [h]
      exact apart.grows id hfit
    · rw [h]
      exact List.prefix_refl _
  · intro host id handle host' hfit hok
    rcases hcases id with h | ⟨e, h⟩
    · rw [h] at hok
      exact apart.registers hfit hok
    · rw [h] at hok
      cases hok
  · intro host id loc hfit hloc
    rcases hcases id with h | ⟨e, h⟩
    · rw [h]
      exact apart.confined hfit hloc
    · rw [h]
      rfl
  · intro host host' id hfit hfit' same
    rcases hcases id with h | ⟨e, h⟩
    · have hcomes := apart.comesTo hfit hfit' same
      rw [Backend.comesTo, Backend.comesTo] at hcomes ⊢
      rwa [h]
    · rw [Backend.comesTo, Backend.comesTo, h]
      rfl
  · intro host host' id handle handle' u u' hfit hfit' same hok hok' loc hloc
    rcases hcases id with h | ⟨e, h⟩
    · rw [h] at hok hok'
      exact apart.stored hfit hfit' same hok hok' hloc
    · rw [h] at hok
      cases hok
  · intro host ids host' hfit hids
    simp only [Backend.withFaults] at hids
    split at hids
    · cases hids
    · exact apart.lists hfit hids

end Backend

/-! ### Opening an engine with a crew -/

/-- The partitions of the ids are opened by a crew, which may follow another schedule each time. -/
def Restore.FollowsSchedules (b : Backend) (d : StoreFolder) (c : EngineSettings)
    (opening : List Int32 → HostAction (List (Int32 × Handle))) : Prop :=
  ∀ ids host, ∃ schedule, (crewAfter b d c ids host schedule).isDone = true ∧
    opening ids host = (crewAfter b d c ids host schedule).answer

/-- The running definition is one of these ways. -/
theorem Restore.followsSchedules_openData (b : Backend) (d : StoreFolder) (c : EngineSettings) :
    FollowsSchedules b d c (openData b d c) := fun ids host => by
  obtain ⟨schedule, hdone, hanswer⟩ :=
    Crew.exists_schedule_openStretches b d c (stretches c.workers ids) host
  exact ⟨schedule, hdone, hanswer.symm⟩

theorem Crew.after_answer (crew : Crew) : Action.after crew.answer = crew.host := by
  rw [answer]
  cases crew.joined <;> rfl

/-- All ways, with whatever number of workers, come to the same. -/
theorem Backend.OpensApart.shown_eq_of_follows (apart : b.OpensApart d c own fit) (hfit : fit host)
    (hnodup : ids.Nodup) {opening opening' : List Int32 → HostAction (List (Int32 × Handle))}
    {workers : Nat} (hopening : Restore.FollowsSchedules b d c opening)
    (hopening' : Restore.FollowsSchedules b d { c with workers } opening') :
    Restore.shown (opening ids host) = Restore.shown (opening' ids host) ∧
      host.partitions <+: (Action.after (opening ids host)).partitions ∧
      host.partitions <+: (Action.after (opening' ids host)).partitions := by
  obtain ⟨schedule, hdone, hanswer⟩ := hopening ids host
  obtain ⟨schedule', hdone', hanswer'⟩ := hopening' ids host
  have sound (workers : Nat) (schedule : List Nat) : Crew.Sound b d c own fit host
      ((Crew.start host (Restore.stretches workers ids)).run b d c schedule) :=
    (Crew.Sound.start hfit (by rwa [flatten_stretches])).run apart hfit schedule
  rw [hanswer, hanswer', Crew.after_answer, Crew.after_answer]
  refine ⟨(sound _ _).shown_eq (sound _ _) hdone hdone' ?_, (sound _ _).grows, (sound _ _).grows⟩
  exact (Restore.stretches_crewAfter b d c ids host schedule).trans
    (Restore.stretches_crewAfter b d { c with workers } ids host schedule').symm

namespace Engine

/-- How far an opening has come when it is the turn of the partitions found on disk. -/
structure Halfway where
  folder : StoreFolder
  /-- The metadata partition, if it is to be opened. -/
  metadata : List (Int32 × Handle)
  /-- The ids of the others that are on disk. -/
  ids : List Int32

/-- Whatever is done before the partitions found on disk are opened. -/
def before (c : EngineSettings) (b : Backend) : HostAction Halfway := do
  let d ← HostAction.ofExcept (StoreFolder.named c.root c.store)
  HostAction.onTree (prepare d c)
  let onDisk ← b.idsOnDisk d
  let metadata ← (if c.withMetadata then Restore.openStretch b d c [metadataId] else pure [] :
    HostAction (List (Int32 × Handle)))
  pure ⟨d, metadata, onDisk.filter (· != metadataId)⟩

/-- Whatever is done once all partitions are open. -/
def behind (c : EngineSettings) (b : Backend) (listener : Option Listener) (d : StoreFolder)
    (registry : List (Int32 × Handle)) : HostAction Engine := do
  HostAction.onTree (keepRecord d c)
  let host ← get
  let engine : Engine :=
    { settings := c, folder := d, backend := b, registry, phase := .opened, listener, reports := [] }
  pure (engine.reported host.tree)

/-- Opens a store as `openWith` does, but the partitions found on disk in another way. -/
def openBy (opening : StoreFolder → List Int32 → HostAction (List (Int32 × Handle)))
    (c : EngineSettings) (b : Backend) (listener : Option Listener) : HostAction Engine := do
  let half ← before c b
  let data ← (if c.withData then opening half.folder half.ids else pure [] :
    HostAction (List (Int32 × Handle)))
  behind c b listener half.folder (half.metadata ++ data)

/-- What is seen of an opening: the engine, the partitions and the tree, or the error. It is not
seen which handles there are, nor how many workers were asked for. -/
def seen : EStateM.Result StoreError Host Engine →
    Except StoreError (Engine × List (Int32 × Partition) × FileTree)
  | .ok e host => .ok ({ e with settings := { e.settings with workers := 1 }, registry := [] },
      host.registered e.registry, host.tree)
  | .error e _ => .error e

theorem openWith_eq_openBy (c : EngineSettings) (b : Backend) (listener : Option Listener) :
    openWith c b listener = openBy (fun d => Restore.openData b d c) c b listener := by
  cases hmetadata : c.withMetadata <;> cases hdata : c.withData <;>
    simp [openWith, openBy, before, behind, Restore.openAll, hmetadata, hdata]

/-- What is done in the end hangs on what is seen of the partitions. -/
theorem seen_behind {listener : Option Listener} {registry registry' : List (Int32 × Handle)}
    (hregistry : host.registered registry = host'.registered registry')
    (htree : host.tree = host'.tree) (workers : Nat) :
    seen (behind c b listener d registry host) =
      seen (behind { c with workers } b listener d registry' host') := by
  have hlength : registry.length = registry'.length := by
    have := congrArg List.length hregistry
    rwa [Host.registered, Host.registered, List.length_map, List.length_map] at this
  rw [behind, behind]
  cases hkeep : keepRecord d c host.tree with
  | error e t =>
      have hkeep' : keepRecord d { c with workers } host'.tree = .error e t := htree ▸ hkeep
      rw [Action.bind_of_error (HostAction.onTree_of_error hkeep),
        Action.bind_of_error (HostAction.onTree_of_error hkeep')]
      rfl
  | ok _ t =>
      have hkeep' : keepRecord d { c with workers } host'.tree = .ok () t := htree ▸ hkeep
      rw [Action.bind_of_ok (HostAction.onTree_of_ok hkeep),
        Action.bind_of_ok (HostAction.onTree_of_ok hkeep')]
      have hregistry' : (Host.mk t host.partitions).registered registry =
          (Host.mk t host'.partitions).registered registry' := hregistry
      -- What is reported is the number of partitions and the size of the tree, which agree.
      cases listener with
      | none =>
          show Except.ok (_, (Host.mk t host.partitions).registered registry, t) = _
          rw [hregistry']
          rfl
      | some listener =>
          show Except.ok (_, (Host.mk t host.partitions).registered registry, t) = _
          rw [hregistry']
          simp only [reported, openCount, hlength]
          rfl

section

variable (apart : b.OpensApart d c own fit)
  (hnamed : ∀ d', StoreFolder.named c.root c.store = .ok d' → d' = d)
  (hprepared : ∀ t, prepare d c host₀.tree = .ok () t → fit { host₀ with tree := t })
include apart hnamed hprepared

/-- When it is the turn of the partitions found on disk, all is as it should be. -/
theorem of_before {half : Halfway} (h : before c b host₀ = .ok half host) :
    half.folder = d ∧ fit host ∧ half.ids.Nodup ∧
      ∀ entry ∈ half.metadata, entry.2 < host.partitions.length := by
  obtain ⟨folder, host₁, hfolder, hrest⟩ := Action.bind_eq_ok_iff.1 h
  obtain ⟨_, host₂, hprepare, hlisting⟩ := Action.bind_eq_ok_iff.1 hrest
  obtain ⟨found, host₃, hfound, hopening⟩ := Action.bind_eq_ok_iff.1 hlisting
  obtain ⟨metadata, host₄, hmetadata, hlast⟩ := Action.bind_eq_ok_iff.1 hopening
  obtain ⟨rfl, rfl⟩ : folder = d ∧ host₁ = host₀ := by
    cases hd : StoreFolder.named c.root c.store with
    | error e =>
        rw [hd] at hfolder
        cases hfolder
    | ok d' =>
        rw [hd] at hfolder
        cases hfolder
        exact ⟨hnamed _ hd, rfl⟩
  obtain ⟨t, htree, rfl⟩ := HostAction.onTree_eq_ok_iff.1 hprepare
  obtain ⟨hnodup, hfit⟩ := apart.lists (hprepared t htree) hfound
  cases hlast
  refine ⟨rfl, ?_⟩
  split at hmetadata
  · -- The metadata partition is opened on a host that is fit.
    obtain ⟨handle, host₅, hattach, hpure⟩ := Action.bind_eq_ok_iff.1 hmetadata
    cases hpure
    have hkept := apart.keeps metadataId hfit
    rw [hattach] at hkept
    refine ⟨hkept, hnodup.filter _, fun entry hentry => ?_⟩
    rw [List.mem_singleton.1 hentry]
    exact apart.registers hfit hattach
  · cases hmetadata
    exact ⟨hfit, hnodup.filter _, by simp⟩

/-- Crews of any two sizes bring up the same engine. -/
theorem seen_openBy {opening opening' : StoreFolder → List Int32 →
      HostAction (List (Int32 × Handle))} {workers : Nat}
    (hopening : Restore.FollowsSchedules b d c (opening d))
    (hopening' : Restore.FollowsSchedules b d { c with workers } (opening' d))
    (listener : Option Listener) : seen (openBy opening c b listener host₀) =
      seen (openBy opening' { c with workers } b listener host₀) := by
  have hbefore' : before { c with workers } b = before c b := rfl
  rw [openBy, openBy, hbefore']
  cases hbefore : before c b host₀ with
  | error e host =>
      rw [Action.bind_of_error hbefore, Action.bind_of_error hbefore]
  | ok half host =>
      obtain ⟨hfolder, hfit, hnodup, hmetadata⟩ := of_before apart hnamed hprepared hbefore
      rw [Action.bind_of_ok hbefore, Action.bind_of_ok hbefore, hfolder]
      by_cases hdata : c.withData = true
      swap
      · rw [if_neg hdata, if_neg hdata]
        exact seen_behind rfl rfl workers
      rw [if_pos hdata, if_pos hdata]
      obtain ⟨hshown, hgrows, hgrows'⟩ :=
        apart.shown_eq_of_follows hfit hnodup hopening hopening'
      rcases Restore.cases_of_shown_eq hshown with ⟨e, u, u', hfirst, hsecond⟩ |
        ⟨registry, registry', u, u', hfirst, hsecond, hregistered, htree⟩
      · rw [Action.bind_of_error hfirst, Action.bind_of_error hsecond]
        rfl
      · rw [hfirst] at hgrows
        rw [hsecond] at hgrows'
        rw [Action.bind_of_ok hfirst, Action.bind_of_ok hsecond]
        refine seen_behind ?_ htree workers
        -- The metadata partition was open before, and is what it was.
        rw [Host.registered, Host.registered, List.map_append, List.map_append]
        exact congrArg₂ _ ((Host.registered_of_prefix hgrows hmetadata).trans
          (Host.registered_of_prefix hgrows' hmetadata).symm) hregistered

end

end Engine

/-- A folder that was made ready stands. -/
theorem Sited.standing_of_prepare (sited : Sited d loc t)
    (hprepare : Engine.prepare d c t = .ok () u) : Standing d loc u := by
  obtain ⟨htext, place, hway⟩ := way_of_prepare hprepare
  have within := sited.prepare_within c
  rw [hprepare] at within
  exact (sited.congr within.links).standing htext hway

/-- With either backend, failures planted or not, a store comes up in the same way with all numbers
of workers, or fails to. With tables this takes that the store has no links. -/
theorem seen_openWith_ofKind {kind : BackendKind}
    (hnamed : StoreFolder.named c.root c.store = .ok d)
    (sited : kind = .table → Sited d loc host.tree) (faults : Backend.Faults)
    (listener : Option Listener) (workers : Nat) :
    Engine.seen (Engine.openWith c ((Backend.ofKind kind).withFaults faults) listener host) =
      Engine.seen (Engine.openWith { c with workers } ((Backend.ofKind kind).withFaults faults)
        listener host) := by
  have hfolder (d' : StoreFolder) (hd : StoreFolder.named c.root c.store = .ok d') : d' = d :=
    Except.ok.inj (hd.symm.trans hnamed)
  rw [Engine.openWith_eq_openBy, Engine.openWith_eq_openBy]
  cases kind with
  | table =>
      have apart := Backend.opensApart_table (c := c) (d := d) (store_of_named hnamed).2 loc
      exact Engine.seen_openBy (apart.withFaults faults) hfolder
        (fun t => (sited rfl).standing_of_prepare) (Restore.followsSchedules_openData _ _ _)
        (Restore.followsSchedules_openData _ _ _) listener
  | inMemory =>
      exact Engine.seen_openBy ((Backend.opensApart_inMemory d c).withFaults faults) hfolder
        (fun _ _ => trivial) (Restore.followsSchedules_openData _ _ _)
        (Restore.followsSchedules_openData _ _ _) listener

/-- It makes no difference by how many workers the partitions of ascending ids are opened, nor in
what order they have their turns. The ids are shared out without a failure. The answer is that of
opening one partition after another: on success one for each id, and each id was tried once; else
the error of the smallest id that fails. So an engine comes up in the same way, whatever number of
workers is set. -/
theorem restores_as_one_by_one (apart : b.OpensApart d c own fit) :
    (∀ (ids : List Int32) (host : Host), ids.Pairwise (· < ·) → fit host →
      Restore.stretches? c.workers ids = some (Restore.stretches c.workers ids) ∧
        (∀ schedule, (Restore.crewAfter b d c ids host schedule).isDone = true →
          (Restore.crewAfter b d c ids host schedule).AsOneByOne b d c host ids) ∧
        Restore.shown (Restore.openData b d c ids host) =
          Restore.shown (Restore.openStretch b d c ids host)) ∧
      ∀ (host : Host) (listener : Option Listener),
        (∀ d', StoreFolder.named c.root c.store = .ok d' → d' = d) →
        (∀ t, Engine.prepare d c host.tree = .ok () t → fit { host with tree := t }) →
        (∀ opening, Restore.FollowsSchedules b d c (opening d) →
          Engine.seen (Engine.openBy opening c b listener host) =
            Engine.seen (Engine.openWith { c with workers := 1 } b listener host)) ∧
          Engine.seen (Engine.openWith c b listener host) =
            Engine.seen (Engine.openWith { c with workers := 1 } b listener host) := by
  constructor
  · intro ids host hascending hfit
    have hnodup : ids.Nodup := hascending.imp fun {i j} hlt e => by
      rw [e, Int32.lt_iff_toInt_lt] at hlt
      omega
    -- Every schedule of the crew keeps what makes it sound, and a sound crew that is done has done
    -- as one worker would.
    have hcrew (schedule : List Nat)
        (hdone : (Restore.crewAfter b d c ids host schedule).isDone = true) :
        (Restore.crewAfter b d c ids host schedule).AsOneByOne b d c host ids :=
      ((Crew.Sound.start hfit (by rwa [flatten_stretches])).run apart hfit schedule).asOneByOne
        apart hfit hdone (Restore.stretches_crewAfter b d c ids host schedule) hascending
    refine ⟨Restore.stretches?_eq c.workers ids, hcrew, ?_⟩
    obtain ⟨schedule, hdone, hanswer⟩ := Restore.followsSchedules_openData b d c ids host
    rw [hanswer]
    exact (hcrew schedule hdone).same
  · intro host listener hnamed hprepared
    have hone := Restore.followsSchedules_openData b d { c with workers := 1 }
    refine ⟨fun opening hopening => ?_, ?_⟩
    · rw [Engine.openWith_eq_openBy]
      exact Engine.seen_openBy apart hnamed hprepared hopening hone listener
    · rw [Engine.openWith_eq_openBy, Engine.openWith_eq_openBy]
      exact Engine.seen_openBy apart hnamed hprepared (Restore.followsSchedules_openData b d c) hone
        listener

/-- Two workers share the ids from 0 to 3, of which 1 and 2 fail to open. The second one is the
first to fail, and the error is that of the first one all the same. -/
theorem restores_with_two_workers :
    ∃ (b : Backend) (c : EngineSettings) (d : StoreFolder) (crew : Crew),
      b = Backend.table.withFaults { (default : Backend.Faults) with attach := [1, 2] } ∧
      c = { settingsUnder ⟨"."⟩ with workers := 2 } ∧
      crew = Restore.crewAfter b d c [0, 1, 2, 3] (Host.ofTree looseTable) [1, 0, 0] ∧
      crew.isDone = true ∧ crew.tried = [2, 0, 1] ∧
      crew.AsOneByOne b d c (Host.ofTree looseTable) [0, 1, 2, 3] ∧
      Restore.shown crew.answer = .error (Backend.Faults.error "create 1") ∧
      Engine.seen (Engine.openWith c b none (Host.ofTree looseTable)) =
        Engine.seen (Engine.openWith { c with workers := 1 } b none (Host.ofTree looseTable)) := by
  let d : StoreFolder := ⟨⟨"."⟩, "s", by decide⟩
  let c : EngineSettings := { settingsUnder ⟨"."⟩ with workers := 2 }
  let b := Backend.table.withFaults { (default : Backend.Faults) with attach := [1, 2] }
  have hnamed : StoreFolder.named ⟨"."⟩ "s" = .ok ⟨⟨"."⟩, "s", by decide⟩ := rfl
  have points : looseTable.PointsTo ⟨"."⟩ [] := rfl
  have sited : Sited d ["s"] looseTable := ⟨⟨[], rfl, points⟩, linkFree_looseTable _⟩
  have standing : Standing d ["s"] looseTable := sited.standing_of_isDir (by decide +kernel)
  obtain ⟨hcrews, hopen⟩ := restores_as_one_by_one
    ((Backend.opensApart_table (c := c) (d := d) rfl ["s"]).withFaults
      { (default : Backend.Faults) with attach := [1, 2] })
  have hdone : (Restore.crewAfter b d c [0, 1, 2, 3] (Host.ofTree looseTable) [1, 0, 0]).isDone =
      true := by decide +kernel
  have htried : (Restore.crewAfter b d c [0, 1, 2, 3] (Host.ofTree looseTable) [1, 0, 0]).tried =
      [2, 0, 1] := by decide +kernel
  have hjoined : (Restore.crewAfter b d c [0, 1, 2, 3] (Host.ofTree looseTable) [1, 0, 0]).joined =
      .error (Backend.Faults.error "create 1") := by decide +kernel
  refine ⟨b, c, d, _, rfl, rfl, rfl, hdone, htried,
    (hcrews [0, 1, 2, 3] (Host.ofTree looseTable) (by decide) standing).2.1 [1, 0, 0] hdone, ?_,
    (hopen (Host.ofTree looseTable) none (fun d' hd => Except.ok.inj (hd.symm.trans hnamed))
      fun t => sited.standing_of_prepare).2⟩
  rw [Crew.answer, hjoined]
  rfl

end PartitionStore
