import PartitionStore.Proofs.Engine.Slots
import PartitionStore.Proofs.Engine.Workers

/-!
# `PartitionStore.Proofs.Engine.Parallel`: many workers come to what one comes to

A backend opens partitions apart (`Backend.OpensApart`) if each of them has a storage of its own, the
places of the tree that `own` gives it, and opening it neither changes anything elsewhere nor hangs
on what the storages of the others hold. This is asked for on the hosts that are `fit` only: two
partitions of which one is a link to the other share a storage, whatever the backend.

From then on the number of workers makes no difference, nor whose turn it is (`Crew.Sound` is what a
turn keeps): everything that a crew comes to is said by what each partition alone comes to on the
host that was there at first (`Backend.comesTo`).

* `Crew.Sound.turn`, `Crew.Sound.run`: one turn, and all of them.
* `Crew.Sound.answer_eq`: the answer of a crew that is done.
* `restores_as_one_by_one`: so the answer is that of opening the partitions one after another, and
  opening an engine comes to the same for all numbers of workers.
-/

set_option autoImplicit false

namespace PartitionStore

open FileTree Naming StoreFolder

/-! ### Partitions that are opened apart -/

/-- What opening a partition comes to. -/
def Backend.comesTo (b : Backend) (d : StoreFolder) (c : EngineSettings) (host : Host)
    (id : Int32) : Except StoreError Partition :=
  match b.attach d (c.spec id) host with
  | .ok h host' => .ok (host'.partition h)
  | .error e _ => .error e

/-- The partition that is opened, with its id. -/
def Backend.finds (b : Backend) (d : StoreFolder) (c : EngineSettings) (host : Host)
    (id : Int32) : Except StoreError (Int32 × Partition) :=
  (b.comesTo d c host id).map (Prod.mk id)

/-- The trees are the same, but for the storages of other partitions. -/
def SameFor (own : Int32 → Location → Prop) (id : Int32) (t u : FileTree) : Prop :=
  ∀ loc, (∀ j, j ≠ id → ¬own j loc) → u.node? loc = t.node? loc

/-- Opening a partition hangs on the partition's own storage and changes nothing else, on all hosts
that are fit. -/
structure Backend.OpensApart (b : Backend) (d : StoreFolder) (c : EngineSettings)
    (own : Int32 → Location → Prop) (fit : Host → Prop) : Prop where
  /-- No place belongs to two storages. -/
  disjoint : ∀ {i j loc}, own i loc → own j loc → i = j
  keeps : ∀ {host} id, fit host → fit (Action.after (b.attach d (c.spec id) host))
  /-- Partitions that are open stay what they are. -/
  grows : ∀ {host} id, fit host →
    host.partitions <+: (Action.after (b.attach d (c.spec id) host)).partitions
  registers : ∀ {host id h host'}, fit host → b.attach d (c.spec id) host = .ok h host' →
    h < host'.partitions.length
  confined : ∀ {host id loc}, fit host → ¬own id loc →
    (Action.after (b.attach d (c.spec id) host)).tree.node? loc = host.tree.node? loc
  /-- The storages of others have no say in what it comes to. -/
  comesTo : ∀ {host host' id}, fit host → fit host' → SameFor own id host.tree host'.tree →
    b.comesTo d c host' id = b.comesTo d c host id
  /-- Nor in what the storage is afterwards. -/
  stored : ∀ {host host' id h h' u u'}, fit host → fit host' →
    SameFor own id host.tree host'.tree → b.attach d (c.spec id) host = .ok h u →
    b.attach d (c.spec id) host' = .ok h' u' → ∀ {loc}, own id loc →
    u'.tree.node? loc = u.tree.node? loc
  /-- No partition is found twice, and looking for them is of no consequence. -/
  lists : ∀ {host ids host'}, fit host → b.idsOnDisk d host = .ok ids host' →
    ids.Nodup ∧ fit host'

/-- What is seen of an opening: the partitions and the tree, or the error. The handles are of no
importance, and what a failure leaves in the tree is not promised. -/
def Restore.shown : EStateM.Result StoreError Host (List (Int32 × Handle)) →
    Except StoreError (List (Int32 × Partition) × FileTree)
  | .ok registry host => .ok (host.registered registry, host.tree)
  | .error e _ => .error e

section

variable {b : Backend} {d : StoreFolder} {c : EngineSettings} {own : Int32 → Location → Prop}
  {fit : Host → Prop} {host₀ host host' : Host} {ids : List Int32} {id : Int32}
  {e : StoreError}

/-- Two openings of which the same is seen. -/
theorem Restore.cases_of_shown_eq {r r' : EStateM.Result StoreError Host (List (Int32 × Handle))}
    (h : shown r = shown r') : (∃ e u u', r = .error e u ∧ r' = .error e u') ∨
      ∃ registry registry' u u', r = .ok registry u ∧ r' = .ok registry' u' ∧
        u.registered registry = u'.registered registry' ∧ u.tree = u'.tree := by
  cases r with
  | error e u =>
      cases r' with
      | error e' u' =>
          cases h
          exact .inl ⟨e, u, u', rfl, rfl⟩
      | ok registry' u' => cases h
  | ok registry u =>
      cases r' with
      | error e' u' => cases h
      | ok registry' u' =>
          obtain ⟨hregistered, htree⟩ := Prod.mk.inj (Except.ok.inj h)
          exact .inr ⟨registry, registry', u, u', rfl, rfl, hregistered, htree⟩

/-- A handle stands for the same partition on a host with more of them. -/
theorem Host.partition_of_prefix {h : Handle} (hgrows : host.partitions <+: host'.partitions)
    (hlt : h < host.partitions.length) : host'.partition h = host.partition h := by
  obtain ⟨more, hmore⟩ := hgrows
  rw [Host.partition, Host.partition, ← hmore, List.getD_eq_getElem?_getD,
    List.getElem?_append_left hlt, ← List.getD_eq_getElem?_getD]

/-- So do all handles of a registry. -/
theorem Host.registered_of_prefix {registry : List (Int32 × Handle)}
    (hgrows : host.partitions <+: host'.partitions)
    (hlt : ∀ entry ∈ registry, entry.2 < host.partitions.length) :
    host'.registered registry = host.registered registry :=
  List.map_congr_left fun entry hentry => by
    rw [Host.partition_of_prefix hgrows (hlt entry hentry)]

/-! ### Answers, one id after another -/

/-- Two answers of which the same is seen. -/
theorem cases_of_map_eq {ε α α' β : Type} {f : α → β} {g : α' → β} {x : Except ε α}
    {y : Except ε α'} (h : x.map f = y.map g) :
    (∃ e, x = .error e ∧ y = .error e) ∨ ∃ a a', x = .ok a ∧ y = .ok a' ∧ f a = g a' := by
  cases x with
  | error e =>
      cases y with
      | error e' =>
          cases h
          exact .inl ⟨e, rfl, rfl⟩
      | ok a' => cases h
  | ok a =>
      cases y with
      | error e' => cases h
      | ok a' => exact .inr ⟨a, a', rfl, rfl, Except.ok.inj h⟩

/-- What is found was opened. -/
theorem exists_of_finds_eq_ok {found : Int32 × Partition} (h : b.finds d c host id = .ok found) :
    ∃ part, b.comesTo d c host id = .ok part := by
  rw [Backend.finds] at h
  cases hcomes : b.comesTo d c host id with
  | error e =>
      rw [hcomes] at h
      cases h
  | ok part => exact ⟨part, rfl⟩

/-- What is found for ids comes in their order. -/
theorem map_fst_of_mapM_finds {found : List (Int32 × Partition)}
    (h : ids.mapM (b.finds d c host) = .ok found) : found.map Prod.fst = ids := by
  induction ids generalizing found with
  | nil =>
      cases h
      rfl
  | cons id rest ih =>
      rw [List.mapM_cons] at h
      cases hid : b.comesTo d c host id with
      | error e =>
          rw [Backend.finds, hid] at h
          cases h
      | ok part =>
          rw [Backend.finds, hid] at h
          cases hrest : rest.mapM (b.finds d c host) with
          | error e =>
              rw [hrest] at h
              cases h
          | ok more =>
              rw [hrest] at h
              cases h
              exact congrArg (id :: ·) (ih hrest)

/-- The first failure decides. -/
theorem mapM_eq_error_iff {ε α β : Type} {f : α → Except ε β} {xs : List α} {e : ε} :
    xs.mapM f = .error e ↔ ∃ front x back, xs = front ++ x :: back ∧
      (∀ y ∈ front, ∃ z, f y = .ok z) ∧ f x = .error e := by
  constructor
  · intro h
    induction xs with
    | nil => cases h
    | cons x rest ih =>
        rw [List.mapM_cons] at h
        cases hx : f x with
        | error e' =>
            rw [hx] at h
            cases h
            exact ⟨[], x, rest, rfl, by simp, hx⟩
        | ok z =>
            cases hrest : rest.mapM f with
            | ok zs =>
                rw [hx, hrest] at h
                cases h
            | error e' =>
                rw [hx, hrest] at h
                cases h
                obtain ⟨front, y, back, rfl, hfront, hy⟩ := ih hrest
                exact ⟨x :: front, y, back, rfl, List.forall_mem_cons.2 ⟨⟨z, hx⟩, hfront⟩, hy⟩
  · rintro ⟨front, x, back, rfl, hfront, hx⟩
    induction front with
    | nil =>
        rw [List.nil_append, List.mapM_cons, hx]
        rfl
    | cons y front ih =>
        obtain ⟨⟨z, hz⟩, hfront⟩ := List.forall_mem_cons.1 hfront
        rw [List.cons_append, List.mapM_cons, hz, ih hfront]
        rfl

/-- Of ascending ids the smallest one that fails decides. -/
theorem mapM_finds_eq_error_iff (hids : ids.Pairwise (· < ·)) :
    ids.mapM (b.finds d c host) = .error e ↔ ∃ id ∈ ids, b.comesTo d c host id = .error e ∧
      ∀ i ∈ ids, i < id → ∃ part, b.comesTo d c host i = .ok part := by
  have herror (i : Int32) : b.finds d c host i = .error e ↔ b.comesTo d c host i = .error e := by
    rw [Backend.finds]
    cases b.comesTo d c host i <;> simp [Except.map]
  have hok (i : Int32) :
      (∃ z, b.finds d c host i = .ok z) ↔ ∃ part, b.comesTo d c host i = .ok part := by
    rw [Backend.finds]
    cases b.comesTo d c host i <;> simp [Except.map]
  -- The ids ascend, so the first of the list that fails is the smallest one.
  have hasymm {i j : Int32} (h : i < j) : ¬j < i := by
    rw [Int32.lt_iff_toInt_lt] at h ⊢
    omega
  rw [mapM_eq_error_iff]
  constructor
  · rintro ⟨front, id, back, rfl, hfront, hid⟩
    refine ⟨id, by simp, (herror id).1 hid, fun i hi hlt => ?_⟩
    obtain ⟨-, hback, -⟩ := List.pairwise_append.1 hids
    rcases List.mem_append.1 hi with hi | hi
    · exact (hok i).1 (hfront i hi)
    · rcases List.mem_cons.1 hi with rfl | hi
      · exact absurd hlt (hasymm hlt)
      · exact absurd hlt (hasymm ((List.pairwise_cons.1 hback).1 i hi))
  · rintro ⟨id, hid, hfails, hsmaller⟩
    obtain ⟨front, back, rfl⟩ := List.append_of_mem hid
    obtain ⟨-, -, hbetween⟩ := List.pairwise_append.1 hids
    refine ⟨front, id, back, rfl, fun i hi => (hok i).2 ?_, (herror id).2 hfails⟩
    exact hsmaller i (by simp [hi]) (hbetween i hi id (List.mem_cons_self ..))

/-! ### What a turn keeps -/

/-- A worker opened what its partitions alone come to on the host that was there at first, and
stopped at the first one that fails there. -/
structure Worker.Sound (b : Backend) (d : StoreFolder) (c : EngineSettings) (host₀ host : Host)
    (w : Worker) : Prop where
  opened : ∀ entry ∈ w.opened, entry.2 < host.partitions.length ∧
    b.comesTo d c host₀ entry.1 = .ok (host.partition entry.2)
  going : w.failure? = none → w.stretch = w.opened.map Prod.fst ++ w.left
  stopped : ∀ e, w.failure? = some e → ∃ id, w.stretch = w.opened.map Prod.fst ++ id :: w.left ∧
    b.comesTo d c host₀ id = .error e

/-- A crew in the midst of its work on a host that was `host₀` at first. -/
structure Crew.Sound (b : Backend) (d : StoreFolder) (c : EngineSettings)
    (own : Int32 → Location → Prop) (fit : Host → Prop) (host₀ : Host) (crew : Crew) : Prop where
  fit : fit crew.host
  grows : host₀.partitions <+: crew.host.partitions
  workers : ∀ w ∈ crew.workers, w.Sound b d c host₀ crew.host
  /-- Each id was tried, or is still before its worker. -/
  untried : (crew.tried ++ (crew.workers.map Worker.left).flatten).Perm
    (crew.workers.map Worker.stretch).flatten
  nodup : (crew.workers.map Worker.stretch).flatten.Nodup
  /-- Storages of ids that were not tried are as they were. -/
  same : ∀ loc, (∀ id ∈ crew.tried, ¬own id loc) →
    crew.host.tree.node? loc = host₀.tree.node? loc
  /-- The others are as their opening alone would have left them. -/
  stored : ∀ id ∈ crew.tried, ∀ h host', b.attach d (c.spec id) host₀ = .ok h host' →
    ∀ loc, own id loc → crew.host.tree.node? loc = host'.tree.node? loc

namespace Worker.Sound

variable {w : Worker}

/-- What a worker has opened stays as it is while the others go on. -/
theorem mono (sound : w.Sound b d c host₀ host) (hgrows : host.partitions <+: host'.partitions) :
    w.Sound b d c host₀ host' := by
  refine ⟨fun entry hentry => ?_, sound.going, sound.stopped⟩
  obtain ⟨hlt, hopened⟩ := sound.opened entry hentry
  rw [Host.partition_of_prefix hgrows hlt]
  exact ⟨Nat.lt_of_lt_of_le hlt hgrows.length_le, hopened⟩

/-- The ids of partitions that were opened are answered with these. -/
theorem mapM_opened (sound : w.Sound b d c host₀ host) :
    (w.opened.map Prod.fst).mapM (b.finds d c host₀) = .ok (host.registered w.opened) := by
  have hall := sound.opened
  revert hall
  generalize w.opened = opened
  intro hall
  induction opened with
  | nil => rfl
  | cons entry rest ih =>
      obtain ⟨⟨-, hfirst⟩, hrest⟩ := List.forall_mem_cons.1 hall
      rw [List.map_cons, List.mapM_cons, ih hrest, Backend.finds, hfirst]
      rfl

/-- A worker that is done answers for its stretch. -/
theorem map_result (sound : w.Sound b d c host₀ host) (hdone : w.isDone = true) :
    w.result.map host.registered = w.stretch.mapM (b.finds d c host₀) := by
  rw [Worker.result]
  cases hfailure : w.failure? with
  | none =>
      have hleft : w.left = [] := by simpa [Worker.isDone, hfailure] using hdone
      rw [sound.going hfailure, hleft, List.append_nil, sound.mapM_opened]
      rfl
  | some e =>
      obtain ⟨id, hstretch, hid⟩ := sound.stopped e hfailure
      rw [hstretch, List.mapM_append, sound.mapM_opened, List.mapM_cons, Backend.finds, hid]
      rfl

end Worker.Sound

namespace Crew.Sound

variable {crew crew' : Crew} {front back : List Worker} {stretch left tried : List Int32}
  {opened : List (Int32 × Handle)}

/-- Before their first turn workers have done nothing. -/
theorem start (hfit : fit host₀) {stretches : List (List Int32)}
    (hnodup : stretches.flatten.Nodup) :
    Crew.Sound b d c own fit host₀ (Crew.start host₀ stretches) := by
  have hstretch : (stretches.map Worker.start).map Worker.stretch = stretches := by
    rw [List.map_map]
    exact List.map_id _
  have hleft : (stretches.map Worker.start).map Worker.left = stretches := by
    rw [List.map_map]
    exact List.map_id _
  refine ⟨hfit, List.prefix_refl _, ?_, ?_, ?_, fun _ _ => rfl, by simp [Crew.start]⟩
  · intro w hw
    obtain ⟨stretch, -, rfl⟩ := List.mem_map.1 hw
    exact ⟨by simp [Worker.start], fun _ => rfl, fun e he => by cases he⟩
  · rw [Crew.start, hstretch, hleft, List.nil_append]
  · rwa [Crew.start, hstretch]

/-- The partition that comes next was not tried before. -/
theorem not_mem_tried (sound : Crew.Sound b d c own fit host₀
    ⟨host, front ++ ⟨stretch, id :: left, opened, none⟩ :: back, tried⟩) : id ∉ tried := by
  have hnodup := sound.untried.nodup_iff.2 sound.nodup
  intro hid
  exact (List.nodup_append.1 hnodup).2.2 id hid id (by simp) rfl

/-- So its opening comes to what it would have come to at first. -/
theorem sameFor (sound : Crew.Sound b d c own fit host₀
    ⟨host, front ++ ⟨stretch, id :: left, opened, none⟩ :: back, tried⟩) :
    SameFor own id host₀.tree host.tree := fun loc hloc =>
  sound.same loc fun j hj => hloc j fun e => sound.not_mem_tried (e ▸ hj)

variable (apart : b.OpensApart d c own fit)
include apart

/-- After an opening all is as it should be, whatever it came to, if the worker is. -/
theorem step (hfit : fit host₀) (sound : Crew.Sound b d c own fit host₀
      ⟨host, front ++ ⟨stretch, id :: left, opened, none⟩ :: back, tried⟩) {w : Worker}
    (hstretch : w.stretch = stretch) (hleft : w.left = left)
    (hw : w.Sound b d c host₀ (Action.after (b.attach d (c.spec id) host))) :
    Crew.Sound b d c own fit host₀ ⟨Action.after (b.attach d (c.spec id) host),
      front ++ w :: back, tried ++ [id]⟩ := by
  have hsame := sound.sameFor
  have hnew := sound.not_mem_tried
  have hgrows := apart.grows id sound.fit
  refine ⟨apart.keeps id sound.fit, sound.grows.trans hgrows, ?_, ?_, ?_, ?_, ?_⟩
  · intro v hv
    rcases List.mem_append.1 hv with hv | hv
    · exact (sound.workers v (by simp [hv])).mono hgrows
    · rcases List.mem_cons.1 hv with rfl | hv
      · exact hw
      · exact (sound.workers v (by simp [hv])).mono hgrows
  · -- The id moves from those that are left to those that were tried.
    have huntried := sound.untried
    simp only [List.map_append, List.map_cons, List.flatten_append, List.flatten_cons,
      List.cons_append, hstretch, hleft, List.append_assoc, List.nil_append] at huntried ⊢
    exact (List.perm_middle.symm.append_left tried).trans huntried
  · have hnodup := sound.nodup
    simpa [hstretch] using hnodup
  · intro loc hloc
    have hid : ¬own id loc := hloc id (by simp)
    rw [apart.confined sound.fit hid]
    exact sound.same loc fun j hj => hloc j (by simp [hj])
  · intro j hj h₀ u₀ hattach₀ loc hloc
    rcases List.mem_append.1 hj with hj | hj
    · -- Storages of partitions that were tried before are not touched again.
      have hid : ¬own id loc := fun h => hnew (apart.disjoint hloc h ▸ hj)
      rw [apart.confined sound.fit hid]
      exact sound.stored j hj h₀ u₀ hattach₀ loc hloc
    · obtain rfl := List.mem_singleton.1 hj
      have hcomes := apart.comesTo hfit sound.fit hsame
      cases hattach : b.attach d (c.spec j) host with
      | error e u =>
          rw [Backend.comesTo, Backend.comesTo, hattach, hattach₀] at hcomes
          cases hcomes
      | ok h u => exact apart.stored hfit sound.fit hsame hattach₀ hattach hloc

/-- One turn keeps it. -/
theorem turn (hfit : fit host₀) (sound : Crew.Sound b d c own fit host₀ crew) (i : Nat) :
    Crew.Sound b d c own fit host₀ (crew.turn b d c i) := by
  rcases crew.turn_cases b d c i with hsame | ⟨front, stretch, id, left, opened, back, hworkers, h⟩
  · rwa [hsame]
  obtain ⟨host, workers, tried⟩ := crew
  obtain rfl : workers = front ++ ⟨stretch, id :: left, opened, none⟩ :: back := hworkers
  have hworker := sound.workers ⟨stretch, id :: left, opened, none⟩ (by simp)
  have hcomes := apart.comesTo hfit sound.fit sound.sameFor
  have hgrows := apart.grows id sound.fit
  -- The worker that had its turn has one more partition, or has failed at this one; the others are
  -- as they were.
  rcases h with ⟨h, host', hattach, hturn⟩ | ⟨e, host', hattach, hturn⟩
  · rw [hturn]
    simp only at hattach
    have hnext := sound.step apart hfit (w := ⟨stretch, left, opened ++ [(id, h)], none⟩) rfl rfl
    rw [hattach] at hnext hgrows
    refine hnext ⟨fun entry hentry => ?_, fun _ => ?_, fun e he => by cases he⟩
    · rcases List.mem_append.1 hentry with hentry | hentry
      · exact (hworker.mono hgrows).opened entry hentry
      · obtain rfl := List.mem_singleton.1 hentry
        rw [← hcomes, Backend.comesTo, hattach]
        exact ⟨apart.registers sound.fit hattach, rfl⟩
    · simpa using hworker.going rfl
  · rw [hturn]
    simp only at hattach
    have hnext := sound.step apart hfit (w := ⟨stretch, left, opened, some e⟩) rfl rfl
    rw [hattach] at hnext hgrows
    refine hnext ⟨(hworker.mono hgrows).opened, fun he => by (cases he), fun e' he => ?_⟩
    cases he
    refine ⟨id, hworker.going rfl, ?_⟩
    rw [← hcomes, Backend.comesTo, hattach]

/-- So do all turns. -/
theorem run (hfit : fit host₀) (sound : Crew.Sound b d c own fit host₀ crew)
    (schedule : List Nat) : Crew.Sound b d c own fit host₀ (crew.run b d c schedule) := by
  induction schedule generalizing crew with
  | nil => exact sound
  | cons i rest ih => exact ih (sound.turn apart hfit i)

end Crew.Sound

/-! ### What a crew comes to -/

namespace Crew

/-- Answers of workers are put together. -/
theorem map_joined {workers : List Worker} {f : Int32 → Except StoreError (Int32 × Partition)}
    (h : ∀ w ∈ workers, w.result.map host.registered = w.stretch.mapM f) :
    ((workers.mapM Worker.result).map List.flatten).map host.registered =
      (workers.map Worker.stretch).flatten.mapM f := by
  induction workers with
  | nil => rfl
  | cons w rest ih =>
      obtain ⟨hw, hrest⟩ := List.forall_mem_cons.1 h
      rw [List.map_cons, List.flatten_cons, List.mapM_append, ← hw, ← ih hrest, List.mapM_cons]
      cases w.result with
      | error e => rfl
      | ok opened =>
          cases rest.mapM Worker.result with
          | error e => rfl
          | ok more =>
              show Except.ok (host.registered (opened ++ more.flatten)) = _
              rw [Host.registered, List.map_append]
              rfl

/-- A turn changes no worker's stretch. -/
theorem stretches_turn (crew : Crew) (i : Nat) :
    (crew.turn b d c i).workers.map Worker.stretch = crew.workers.map Worker.stretch := by
  rcases crew.turn_cases b d c i with
    hsame | ⟨front, stretch, id, left, opened, back, hworkers, ⟨h, host, -, hturn⟩ |
      ⟨e, host, -, hturn⟩⟩
  · rw [hsame]
  · rw [hturn, hworkers]
    simp
  · rw [hturn, hworkers]
    simp

/-- No schedule does, by induction on it. -/
theorem stretches_run (crew : Crew) (schedule : List Nat) :
    (crew.run b d c schedule).workers.map Worker.stretch = crew.workers.map Worker.stretch := by
  induction schedule generalizing crew with
  | nil => rfl
  | cons i rest ih => exact (ih (crew.turn b d c i)).trans (crew.stretches_turn i)

/-- The workers start with the stretches that they were given. -/
theorem stretches_start (host : Host) (stretches : List (List Int32)) :
    (start host stretches).workers.map Worker.stretch = stretches := by
  rw [start, List.map_map]
  exact List.map_id _

/-- Where no worker failed nothing is left to do. -/
theorem left_of_joined {crew : Crew} {registry : List (Int32 × Handle)}
    (hdone : crew.isDone = true) (hjoined : crew.joined = .ok registry) :
    (crew.workers.map Worker.left).flatten = [] := by
  rw [joined] at hjoined
  cases hresults : crew.workers.mapM Worker.result with
  | error e =>
      rw [hresults] at hjoined
      cases hjoined
  | ok results =>
      rw [List.flatten_eq_nil_iff]
      intro left hleft
      obtain ⟨w, hw, rfl⟩ := List.mem_map.1 hleft
      obtain ⟨opened, hresult⟩ := forall_of_mapM_eq_ok hresults w hw
      have hwdone := List.all_eq_true.1 hdone w hw
      rw [Worker.result] at hresult
      cases hfailure : w.failure? with
      | none => simpa [Worker.isDone, hfailure] using hwdone
      | some e =>
          rw [hfailure] at hresult
          cases hresult

namespace Sound

variable {crew crew' : Crew}

/-- Each partition is answered with what its opening alone comes to. -/
theorem answer_eq (sound : Crew.Sound b d c own fit host₀ crew) (hdone : crew.isDone = true) :
    crew.joined.map crew.host.registered =
      (crew.workers.map Worker.stretch).flatten.mapM (b.finds d c host₀) :=
  Crew.map_joined fun w hw => (sound.workers w hw).map_result (List.all_eq_true.1 hdone w hw)

/-- When all workers are done without a failure, exactly the ids of their stretches were tried, in
some order. -/
theorem perm_of_joined (sound : Crew.Sound b d c own fit host₀ crew)
    {registry : List (Int32 × Handle)} (hdone : crew.isDone = true)
    (hjoined : crew.joined = .ok registry) :
    crew.tried.Perm (crew.workers.map Worker.stretch).flatten := by
  have hperm := sound.untried
  rwa [Crew.left_of_joined hdone hjoined, List.append_nil] at hperm

/-- Two crews that tried the same partitions, all of them with success, leave the same tree. -/
theorem tree_eq (sound : Crew.Sound b d c own fit host₀ crew)
    (sound' : Crew.Sound b d c own fit host₀ crew') (hperm : crew.tried.Perm crew'.tried)
    (hok : ∀ id ∈ crew.tried, ∃ part, b.comesTo d c host₀ id = .ok part) :
    crew.host.tree = crew'.host.tree := by
  refine ext_node? fun loc => ?_
  by_cases howned : ∃ id ∈ crew.tried, own id loc
  · obtain ⟨id, hid, hloc⟩ := howned
    obtain ⟨part, hpart⟩ := hok id hid
    cases hattach : b.attach d (c.spec id) host₀ with
    | error e u =>
        rw [Backend.comesTo, hattach] at hpart
        cases hpart
    | ok h u =>
        rw [sound.stored id hid h u hattach loc hloc,
          sound'.stored id (hperm.mem_iff.1 hid) h u hattach loc hloc]
  · have hnone (id : Int32) (hid : id ∈ crew.tried) : ¬own id loc := fun h => howned ⟨id, hid, h⟩
    rw [sound.same loc hnone, sound'.same loc fun id hid => hnone id (hperm.mem_iff.2 hid)]

/-- Two crews that had the same ids, shared out in whatever way, come to the same. -/
theorem shown_eq (sound : Crew.Sound b d c own fit host₀ crew)
    (sound' : Crew.Sound b d c own fit host₀ crew') (hdone : crew.isDone = true)
    (hdone' : crew'.isDone = true) (hids : (crew.workers.map Worker.stretch).flatten =
      (crew'.workers.map Worker.stretch).flatten) :
    Restore.shown crew.answer = Restore.shown crew'.answer := by
  have hanswer := sound.answer_eq hdone
  have hanswer' := sound'.answer_eq hdone'
  rw [← hids, ← hanswer] at hanswer'
  rw [Crew.answer, Crew.answer]
  rcases cases_of_map_eq hanswer' with ⟨e, hjoined', hjoined⟩ | ⟨registry', registry, hjoined',
    hjoined, hregistered⟩
  · rw [hjoined, hjoined']
    rfl
  · -- Where there is no failure both have tried all of the ids.
    have hperm := sound.perm_of_joined hdone hjoined
    have hperm' := sound'.perm_of_joined hdone' hjoined'
    rw [← hids] at hperm'
    have htree : crew.host.tree = crew'.host.tree := by
      refine sound.tree_eq sound' (hperm.trans hperm'.symm) fun id hid => ?_
      rw [hjoined] at hanswer
      obtain ⟨found, hfound⟩ := forall_of_mapM_eq_ok hanswer.symm id (hperm.mem_iff.1 hid)
      exact exists_of_finds_eq_ok hfound
    rw [hjoined, hjoined']
    show Except.ok (crew.host.registered registry, crew.host.tree) = _
    rw [← hregistered, htree]
    rfl

end Sound

end Crew

/-! ### Many workers and one -/

/-- The crew that opens the partitions of the ids, once its workers had the turns of the
schedule. -/
def Restore.crewAfter (b : Backend) (d : StoreFolder) (c : EngineSettings) (ids : List Int32)
    (host : Host) (schedule : List Nat) : Crew :=
  (Crew.start host (Restore.stretches c.workers ids)).run b d c schedule

/-- All stretches together are the ids that were shared out. -/
theorem Restore.stretches_crewAfter (b : Backend) (d : StoreFolder) (c : EngineSettings)
    (ids : List Int32) (host : Host) (schedule : List Nat) :
    ((crewAfter b d c ids host schedule).workers.map Worker.stretch).flatten = ids := by
  rw [crewAfter, Crew.stretches_run, Crew.stretches_start, flatten_stretches]

/-- The crew came to what it comes to if the partitions of the ids are opened one after another. -/
structure Crew.AsOneByOne (b : Backend) (d : StoreFolder) (c : EngineSettings) (host : Host)
    (ids : List Int32) (crew : Crew) : Prop where
  /-- It answers the same, and leaves the same tree if it succeeds. -/
  same : Restore.shown crew.answer = Restore.shown (Restore.openStretch b d c ids host)
  /-- Nothing is tried twice, and nothing else is. -/
  once : crew.tried.Nodup ∧ ∀ id ∈ crew.tried, id ∈ ids
  /-- If it succeeds there is one partition for each id, and each id was tried. -/
  all : ∀ found, Restore.shown crew.answer = .ok found →
    found.1.map Prod.fst = ids ∧ crew.tried.Perm ids
  /-- If it fails the error is that of the smallest id whose opening fails. -/
  smallest : ∀ e, Restore.shown crew.answer = .error e ↔
    ∃ id ∈ ids, b.comesTo d c host id = .error e ∧
      ∀ i ∈ ids, i < id → ∃ part, b.comesTo d c host i = .ok part

/-- What is shown of the crew's answer is what the workers have joined. -/
theorem Crew.shown_answer (crew : Crew) :
    (Restore.shown crew.answer).map Prod.fst = crew.joined.map crew.host.registered := by
  rw [answer]
  cases crew.joined <;> rfl

/-- Any crew that is done came to what one worker comes to. -/
theorem Crew.Sound.asOneByOne {crew : Crew} (apart : b.OpensApart d c own fit) (hfit : fit host₀)
    (sound : Crew.Sound b d c own fit host₀ crew) (hdone : crew.isDone = true)
    (hids : (crew.workers.map Worker.stretch).flatten = ids)
    (hascending : ids.Pairwise (· < ·)) : crew.AsOneByOne b d c host₀ ids := by
  have hnodup : ids.Nodup := hids ▸ sound.nodup
  have hanswer : (Restore.shown crew.answer).map Prod.fst = ids.mapM (b.finds d c host₀) := by
    rw [crew.shown_answer, sound.answer_eq hdone, hids]
  refine ⟨?_, ?_, ?_, ?_⟩
  · -- One after another is a crew of its own, with a single worker.
    obtain ⟨schedule, hdone', hone⟩ := Crew.exists_schedule_openStretches b d c [ids] host₀
    have hbegun : Crew.Sound b d c own fit host₀ (Crew.start host₀ [ids]) :=
      Crew.Sound.start hfit (by simpa using hnodup)
    have hids' : (crew.workers.map Worker.stretch).flatten =
        (((Crew.start host₀ [ids]).run b d c schedule).workers.map Worker.stretch).flatten := by
      rw [hids, Crew.stretches_run, Crew.stretches_start, List.flatten_singleton]
    rw [sound.shown_eq (hbegun.run apart hfit schedule) hdone hdone' hids', hone,
      Restore.openStretches_singleton]
  · have huntried := sound.untried
    rw [hids] at huntried
    exact ⟨(List.nodup_append.1 (huntried.nodup_iff.2 hnodup)).1,
      fun id hid => huntried.subset (List.mem_append_left _ hid)⟩
  · intro found hfound
    rw [hfound] at hanswer
    refine ⟨map_fst_of_mapM_finds hanswer.symm, ?_⟩
    cases hjoined : crew.joined with
    | error e =>
        rw [Crew.answer, hjoined] at hfound
        cases hfound
    | ok registry => exact hids ▸ sound.perm_of_joined hdone hjoined
  · intro e
    rw [← mapM_finds_eq_error_iff hascending, ← hanswer]
    cases Restore.shown crew.answer <;> simp [Except.map]

end

end PartitionStore
