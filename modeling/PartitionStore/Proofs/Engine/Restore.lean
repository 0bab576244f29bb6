import PartitionStore.Proofs.Engine.Disk
import PartitionStore.Proofs.EngineSettings.Record

/-!
# `PartitionStore.Proofs.Engine.Restore`: bringing a store up

`restored` is the partition that is opened for an id, with the entries it has
on disk, or none if it is new. Opening many of them one after another gives each
the next handle (`openStretch_ok`), and how the ids are shared out among workers
makes no difference as long as none of them fails (`openStretches_ok`).

* `Disk.attach_of_mem`, `Disk.attach_of_not_mem`: one partition is opened, or made.
* `inv_of_openStretches`: what each of many openings keeps, if all of them succeed, is kept in the
  end.
* `forall_of_openStretches`: what their success tells of each of them.
* `Disk.openAll_ok`: a store that is on disk comes up with all partitions that
  it has there, and with the metadata partition.
-/

set_option autoImplicit false

namespace PartitionStore

open FileTree Naming PartitionStore.Partition StoreFolder

/-- The partition that is opened for an id. -/
def restored (c : EngineSettings) (d : StoreFolder) (flushed : Int32 → SortedMap Bytes Bytes)
    (id : Int32) : Partition :=
  ⟨id, c.format, flushed id, .table (d.partitionPath id) false, false⟩

namespace Disk

variable {c : EngineSettings} {d : StoreFolder} {loc : Location} {host : Host}
  {ids : Int32 → Prop} {flushed : Int32 → SortedMap Bytes Bytes} {id : Int32}

/-! ### One partition -/

/-- A partition on disk is opened with its entries, and nothing on disk changes. -/
theorem attach_of_mem (h : Disk c d loc host.tree ids flushed) (hstore : c.store = d.store)
    (hid : ids id) :
    Backend.table.attach d (c.spec id) host = .ok host.partitions.length
      ⟨host.tree, host.partitions ++ [restored c d flushed id]⟩ :=
  (h.tables.attach_eq hstore hid).trans (if_pos rfl)

/-- A partition that is not on disk is made, without entries. -/
theorem attach_of_not_mem (h : Disk c d loc host.tree ids flushed) (hstore : c.store = d.store)
    (hid : ¬ids id) (hname : isEntryName (dirName d.store id) = true)
    (room : (d.partitionPath id).HasRoom 9) :
    ∃ t', Backend.table.attach d (c.spec id) host = .ok host.partitions.length
        ⟨t', host.partitions ++
          [restored c d (Function.update flushed id SortedMap.empty) id]⟩ ∧
      Disk c d loc t' (fun i => i = id ∨ ids i) (Function.update flushed id SortedMap.empty) := by
  obtain ⟨t', hopen, htable, hsame⟩ :=
    openTable_of_none (c.spec id) h.lead room hname (h.node?_of_not hid)
  refine ⟨t', ?_, h.addTable hid room htable hsame⟩
  rw [Backend.attach_table hstore, restored, Function.update_self]
  exact HostAction.register_of_ok hopen

/-! ### Many partitions -/

/-- Partitions that are on disk are opened one after another. -/
theorem openStretch_ok (h : Disk c d loc host.tree ids flushed) (hstore : c.store = d.store)
    {stretch : List Int32} (hids : ∀ id ∈ stretch, ids id) :
    Restore.openStretch Backend.table d c stretch host =
      .ok (stretch.zipIdx host.partitions.length)
        ⟨host.tree, host.partitions ++ stretch.map (restored c d flushed)⟩ := by
  induction stretch generalizing host with
  | nil => simp [Restore.openStretch]
  | cons id rest ih =>
      have hattach := h.attach_of_mem hstore (hids id (List.mem_cons_self ..))
      -- The tree is as it was, so what is on disk is too.
      have hrest := @ih ⟨host.tree, host.partitions ++ [restored c d flushed id]⟩ h
        fun i hi => hids i (List.mem_cons_of_mem _ hi)
      rw [Restore.openStretch, Action.bind_of_ok hattach, Action.bind_of_ok hrest]
      simp [List.zipIdx_cons]

/-- It makes no difference how partitions on disk are shared out among workers. -/
theorem openStretches_ok (h : Disk c d loc host.tree ids flushed) (hstore : c.store = d.store)
    {stretches : List (List Int32)} (hids : ∀ stretch ∈ stretches, ∀ id ∈ stretch, ids id) :
    Restore.openStretches Backend.table d c stretches host =
      .ok (stretches.flatten.zipIdx host.partitions.length)
        ⟨host.tree, host.partitions ++ stretches.flatten.map (restored c d flushed)⟩ := by
  induction stretches generalizing host with
  | nil => simp [Restore.openStretches]
  | cons stretch rest ih =>
      have hfirst := h.openStretch_ok hstore (hids stretch (List.mem_cons_self ..))
      have hrest := @ih ⟨host.tree, host.partitions ++ stretch.map (restored c d flushed)⟩ h
        fun s hs => hids s (List.mem_cons_of_mem _ hs)
      rw [Restore.openStretches]
      simp only [hfirst, hrest]
      simp [List.zipIdx_append]

end Disk

/-! ### What success tells -/

section Success

variable {backend : Backend} {c : EngineSettings} {d : StoreFolder} {host host' : Host}
  {registry : List (Int32 × Handle)}

/-- What the opening of each partition keeps, if it succeeds, of the host and of all partitions
that are open by then, the opening of a stretch keeps. -/
theorem inv_of_openStretch (inv : Host → List (Int32 × Handle) → Prop) {stretch : List Int32}
    {before : List (Int32 × Handle)}
    (step : ∀ id ∈ stretch, ∀ host h host' before, inv host before →
      backend.attach d (c.spec id) host = .ok h host' → inv host' (before ++ [(id, h)]))
    (start : inv host before)
    (h : Restore.openStretch backend d c stretch host = .ok registry host') :
    inv host' (before ++ registry) ∧ registry.map Prod.fst = stretch := by
  induction stretch generalizing host registry before with
  | nil =>
      cases h
      exact ⟨by rwa [List.append_nil], rfl⟩
  | cons id rest ih =>
      obtain ⟨handle, host₁, hattach, h⟩ := Action.bind_eq_ok_iff.1 h
      obtain ⟨more, host₂, hrest, hpure⟩ := Action.bind_eq_ok_iff.1 h
      cases hpure
      have hfirst := step id (List.mem_cons_self ..) _ _ _ _ start hattach
      obtain ⟨hlast, hids⟩ := ih (fun i hi => step i (List.mem_cons_of_mem _ hi)) hfirst hrest
      rw [List.append_assoc] at hlast
      exact ⟨hlast, by rw [List.map_cons, hids]⟩

/-- However the stretches fare, the opening only succeeds if each of them does. -/
theorem inv_of_openStretches (inv : Host → List (Int32 × Handle) → Prop)
    {stretches : List (List Int32)} {before : List (Int32 × Handle)}
    (step : ∀ id ∈ stretches.flatten, ∀ host h host' before, inv host before →
      backend.attach d (c.spec id) host = .ok h host' → inv host' (before ++ [(id, h)]))
    (start : inv host before)
    (h : Restore.openStretches backend d c stretches host = .ok registry host') :
    inv host' (before ++ registry) ∧ registry.map Prod.fst = stretches.flatten := by
  induction stretches generalizing host registry before with
  | nil =>
      cases h
      exact ⟨by rwa [List.append_nil], rfl⟩
  | cons stretch rest ih =>
      rw [List.flatten_cons] at step ⊢
      simp only [Restore.openStretches] at h
      split at h
      · split at h <;> cases h
      · rename_i opened host₁ hfirst
        obtain ⟨hnext, hids⟩ := inv_of_openStretch inv
          (fun id hid => step id (List.mem_append_left _ hid)) start hfirst
        split at h
        · rename_i more host₂ hrest
          cases h
          obtain ⟨hlast, hids'⟩ :=
            ih (fun id hid => step id (List.mem_append_right _ hid)) hnext hrest
          rw [List.append_assoc] at hlast
          exact ⟨hlast, by rw [List.map_append, hids, hids']⟩
        · cases h

/-- What the opening of a partition tells if it succeeds, and hands on to the next, the opening
of all stretches tells of each of them. -/
theorem forall_of_openStretches (P : Int32 → Prop) (Q : Host → Prop)
    {stretches : List (List Int32)}
    (step : ∀ id ∈ stretches.flatten, ∀ host h host', Q host →
      backend.attach d (c.spec id) host = .ok h host' → P id ∧ Q host') (start : Q host)
    (h : Restore.openStretches backend d c stretches host = .ok registry host') :
    ∀ id ∈ stretches.flatten, P id := by
  have hstart : Q host ∧ ∀ id ∈ ([] : List (Int32 × Handle)).map Prod.fst, P id := ⟨start, by simp⟩
  obtain ⟨⟨-, hall⟩, hids⟩ := inv_of_openStretches
    (fun host registry => Q host ∧ ∀ id ∈ registry.map Prod.fst, P id)
    (fun id hid host handle host' before ⟨hQ, hbefore⟩ hattach => by
      obtain ⟨hP, hQ'⟩ := step id hid host handle host' hQ hattach
      refine ⟨hQ', fun i hi => ?_⟩
      rw [List.map_append, List.mem_append] at hi
      rcases hi with hold | hnew
      · exact hbefore i hold
      · obtain rfl : i = id := by simpa using hnew
        exact hP)
    hstart h
  rwa [List.nil_append, hids] at hall

end Success

/-! ### Stretches -/

theorem flatten_stretchesWithin {α : Type} {size limit : Nat} (hsize : 0 < size) {items : List α}
    (h : items.length ≤ limit) : (Restore.stretchesWithin size limit items).flatten = items := by
  induction limit generalizing items with
  | zero => simp [Restore.stretchesWithin, List.length_eq_zero_iff.1 (Nat.le_zero.1 h)]
  | succ limit ih =>
      rw [Restore.stretchesWithin]
      split
      · rename_i hempty
        simp [List.isEmpty_iff.1 hempty]
      · rename_i hsome
        have hpos : 0 < items.length :=
          List.length_pos_iff.2 fun e => hsome (by simp [e])
        rw [List.flatten_cons, ih (by rw [List.length_drop]; omega), List.take_append_drop]

/-- The workers' stretches are all of the items, in order. -/
theorem flatten_stretches {α : Type} (workers : Nat) (items : List α) :
    (Restore.stretches workers items).flatten = items := by
  cases items with
  | nil => rfl
  | cons item rest =>
      refine flatten_stretchesWithin ?_ (Nat.le_refl _)
      -- As many workers take part as there are items at most, and one at least.
      have hbusy : 0 < min (max workers 1) (item :: rest).length := by
        rw [List.length_cons]
        omega
      exact Nat.div_pos (by rw [List.length_cons] at hbusy ⊢; omega) hbusy

/-! ### The whole store -/

/-- A folder that is there, with a record of the format or none, is left as it is. -/
theorem prepare_of_leadsTo {c : EngineSettings} {d : StoreFolder} {loc : Location} {t : FileTree}
    (lead : t.LeadsTo d.path loc) (room : (d.partitionPath metadataId).HasRoom 13)
    (usable : isEntryName (dirName d.store metadataId) = true)
    (dir : t.node? (dirName d.store metadataId :: loc) = none ∨
      t.node? (dirName d.store metadataId :: loc) = some .dir)
    (record : t.node? (recordFileName :: dirName d.store metadataId :: loc) = none ∨
      t.node? (recordFileName :: dirName d.store metadataId :: loc) = some (.file c.record.bytes))
    (hrecord : c.ReadsBack) : Engine.prepare d c t = .ok () t := by
  rw [Engine.prepare, Action.bind_of_ok (ensure_of_leadsTo lead)]
  by_cases hguard : c.guardOnReopen = true
  · -- The guard is asked, and any verdict but another format leaves the folder as it is.
    have hverdict : ∃ verdict, d.guard c.format t = .ok verdict t := by
      rcases record with hnone | hfile
      · exact ⟨_, guard_eq (readRecord_of_none lead room usable dir hnone).2 c.format⟩
      · have hread := (readRecord_of_file lead room hfile).2
        exact ⟨_, (guard_eq_sameFormat_iff hread).2 (EngineSettings.readsBack_iff_bind.1 hrecord)⟩
    obtain ⟨verdict, hverdict⟩ := hverdict
    simp only [hguard, Bool.not_false, Bool.and_self, if_true]
    rw [Action.bind_of_ok hverdict]
    rfl
  · simp [hguard]

namespace Disk

variable {c : EngineSettings} {d : StoreFolder} {loc : Location} {host : Host} {t : FileTree}
  {ids : Int32 → Prop} {flushed : Int32 → SortedMap Bytes Bytes}

/-- The metadata partition is opened if it is there, and made otherwise. -/
theorem openMetadata_ok (h : Disk c d loc host.tree ids flushed) (hstore : c.store = d.store)
    (hnew : ¬ids metadataId → flushed metadataId = SortedMap.empty) :
    ∃ t', Restore.openStretch Backend.table d c [metadataId] host =
        .ok [(metadataId, host.partitions.length)]
          ⟨t', host.partitions ++ [restored c d flushed metadataId]⟩ ∧
      Disk c d loc t' (fun i => i = metadataId ∨ ids i) flushed := by
  by_cases hid : ids metadataId
  · have hsame : (fun i => i = metadataId ∨ ids i) = ids := by
      funext i
      exact propext ⟨fun h => h.elim (fun e => e ▸ hid) id, .inr⟩
    refine ⟨host.tree, h.openStretch_ok hstore (by simpa using hid), ?_⟩
    rw [hsame]
    exact h
  · obtain ⟨t', hattach, hdisk⟩ :=
      h.attach_of_not_mem hstore hid h.usable (h.recordRoom.mono (by omega))
    have hflushed : Function.update flushed metadataId SortedMap.empty = flushed := by
      rw [← hnew hid, Function.update_eq_self]
    rw [hflushed] at hattach hdisk
    refine ⟨t', ?_, hdisk⟩
    rw [Restore.openStretch, Action.bind_of_ok hattach]
    rfl

/-- All partitions on disk are opened, the metadata partition first, and no others; if just the
metadata partition is to be opened, this takes that there are none but it. -/
theorem openAll_ok (h : Disk c d loc host.tree ids flushed) (hstore : c.store = d.store)
    (hmetadata : c.withMetadata = true)
    (hdata : c.withData = true ∨ ∀ id, ids id → id = metadataId)
    (hnew : ¬ids metadataId → flushed metadataId = SortedMap.empty) :
    ∃ others t', Restore.openAll Backend.table d c host =
        .ok ((metadataId :: others).zipIdx host.partitions.length)
          ⟨t', host.partitions ++ (metadataId :: others).map (restored c d flushed)⟩ ∧
      Disk c d loc t' (fun i => i = metadataId ∨ ids i) flushed ∧
      (metadataId :: others).Nodup ∧
      ∀ id, id ∈ metadataId :: others ↔ id = metadataId ∨ ids id := by
  obtain ⟨found, hfound, hascending, hmem⟩ := idsOnDisk_ok h.lead
  obtain ⟨t', hopen, hdisk⟩ := h.openMetadata_ok hstore hnew
  let others := found.filter (· != metadataId)
  have hothers : ∀ id, id ∈ others ↔ ids id ∧ id ≠ metadataId := by
    intro id
    rw [List.mem_filter, hmem, h.tables.lists_iff, bne_iff_ne]
  have hdataOk : Restore.openData Backend.table d c others
      ⟨t', host.partitions ++ [restored c d flushed metadataId]⟩ =
        .ok (others.zipIdx (host.partitions.length + 1)) ⟨t',
          host.partitions ++ [restored c d flushed metadataId] ++
            others.map (restored c d flushed)⟩ := by
    have hall := @openStretches_ok c d loc
      ⟨t', host.partitions ++ [restored c d flushed metadataId]⟩ _ flushed hdisk hstore
      (Restore.stretches c.workers others) (by
        intro stretch hstretch id hid
        have hin : id ∈ others := by
          rw [← flatten_stretches c.workers others]
          exact List.mem_flatten_of_mem hstretch hid
        exact .inr ((hothers id).1 hin).1)
    rw [flatten_stretches] at hall
    simpa [Restore.openData] using hall
  refine ⟨others, t', ?_, hdisk, List.nodup_cons.2 ⟨?_, ?_⟩, ?_⟩
  · have hfoundHost : Backend.table.idsOnDisk d host = .ok found host :=
      HostAction.onTree_of_ok hfound
    rw [Restore.openAll, Action.bind_of_ok hfoundHost, if_pos hmetadata, Action.bind_of_ok hopen]
    cases hset : c.withData with
    | true =>
        simp only [if_true]
        rw [Action.bind_of_ok hdataOk]
        simp [List.zipIdx_cons]
    | false =>
        -- There are none that were left out.
        have hnone : others = [] := by
          refine List.eq_nil_iff_forall_not_mem.2 ?_
          intro id hid
          obtain ⟨hthere, hne⟩ := (hothers id).1 hid
          exact hne (hdata.resolve_left (by simp [hset]) id hthere)
        simp [hnone]
  · intro hin
    exact ((hothers _).1 hin).2 rfl
  · -- What was found is in ascending order, so no id is in it twice.
    refine List.Pairwise.filter _ (hascending.imp fun {a b} hlt e => ?_)
    rw [e] at hlt
    simp at hlt
  · intro id
    rw [List.mem_cons, hothers]
    by_cases hid : id = metadataId <;> simp [hid]

/-- Nothing on disk changes where the folder is there, with a record of the format or none. -/
theorem prepare_ok (h : Disk c d loc t ids flushed) (hrecord : c.ReadsBack) :
    Engine.prepare d c t = .ok () t :=
  prepare_of_leadsTo h.lead (h.recordRoom.mono (by omega)) h.usable h.metadataDir h.record hrecord

end Disk

end PartitionStore
