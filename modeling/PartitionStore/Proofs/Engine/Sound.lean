import Mathlib.Data.List.Nodup
import PartitionStore.Proofs.Engine.Restore
import PartitionStore.Proofs.Engine.Steps
import PartitionStore.Proofs.Stored

/-!
# `PartitionStore.Proofs.Engine.Sound`: what holds between requests

`Opened` is about memory: every registered partition is open under a handle of
its own, in its own directory, and dirty unless it holds what it flushed last.
`Sound` puts this together with what the folder holds (`Disk`). It is the
invariant of an engine with tables that answers for its store.

* `Disk.open_of_prepared`: it holds of an engine that came up from a folder
  that is ready, whichever way the folder was made ready.
* `Disk.open_ok`: it holds of an engine that came up from what an engine before
  it left on disk, and the entries are those that were flushed.
-/

set_option autoImplicit false

namespace PartitionStore

open FileTree Naming PartitionStore.Partition StoreFolder

/-- The partition behind the handle is open, in the directory of the id, and dirty unless it
holds just the entries that were flushed. -/
structure Held (c : EngineSettings) (d : StoreFolder) (flushed : Int32 → SortedMap Bytes Bytes)
    (host : Host) (id : Int32) (h : Handle) : Prop where
  known : h < host.partitions.length
  format : (host.partition h).format = c.format
  isOpen : (host.partition h).closed = false
  storage : ∃ dirty, (host.partition h).storage = .table (d.partitionPath id) dirty ∧
    (dirty = false → (host.partition h).entries = flushed id)

/-- Every entry of the registry stands for an open partition of its own. -/
structure Opened (c : EngineSettings) (d : StoreFolder) (flushed : Int32 → SortedMap Bytes Bytes)
    (host : Host) (registry : List (Int32 × Handle)) : Prop where
  ids : (registry.map Prod.fst).Nodup
  handles : (registry.map Prod.snd).Nodup
  held : ∀ id h, (id, h) ∈ registry → Held c d flushed host id h

/-- The engine is open, and its folder has the registered partitions, each with the entries
that it flushed last. A metadata partition that is not registered was dropped. -/
structure Sound (c : EngineSettings) (d : StoreFolder) (loc : Location)
    (flushed : Int32 → SortedMap Bytes Bytes) (r : Running) : Prop where
  settings : r.engine.settings = c
  folder : r.engine.folder = d
  backend : r.engine.backend = Backend.table
  phase : r.engine.phase = .opened
  store : c.store = d.store
  disk : Disk c d loc r.host.tree (· ∈ r.engine.openIds) flushed
  opened : Opened c d flushed r.host r.engine.registry
  dropped : metadataId ∉ r.engine.openIds → flushed metadataId = SortedMap.empty

variable {c : EngineSettings} {d : StoreFolder} {loc : Location}
  {flushed flushed' : Int32 → SortedMap Bytes Bytes} {host host' : Host} {id : Int32} {h : Handle}
  {registry : List (Int32 × Handle)}

/-- An id is looked up under its handle. -/
theorem Opened.lookup_iff (opened : Opened c d flushed host registry) :
    registry.lookup id = some h ↔ (id, h) ∈ registry :=
  SortedMap.lookup_eq_some_iff (List.pairwise_map.1 opened.ids)

/-- Where all partitions have the format of the store, their tables have it too. -/
theorem Sound.stored {r : Running} (sound : Sound c d loc flushed r) :
    Stored d loc (fun i => ⟨c.format, flushed i⟩) r.host (· ∈ r.engine.registry.map Prod.fst)
      r.engine.registry := by
  have tables := sound.disk.tables.congr (fun i => Engine.mem_openIds_iff.symm) fun _ _ => rfl
  refine ⟨tables, ⟨sound.opened.ids, sound.opened.handles, ?_, ?_⟩, ?_⟩
  · exact fun id h hmem => (sound.opened.held id h hmem).known
  · intro id h hmem
    have held := sound.opened.held id h hmem
    exact ⟨held.isOpen, held.format, held.storage⟩
  · exact fun id h hmem => List.mem_map.2 ⟨_, hmem, rfl⟩

/-- And the other way round: where the tables of all partitions have the format of the store, an
engine is sound. -/
theorem Sound.of_stored {e : Engine} {table : Int32 → Table} (settings : e.settings = c)
    (folder : e.folder = d) (backend : e.backend = Backend.table) (phase : e.phase = .opened)
    (store : c.store = d.store)
    (stored : Stored d loc table host (· ∈ e.registry.map Prod.fst) e.registry)
    (same : ∀ i ∈ e.registry.map Prod.fst, table i = ⟨c.format, flushed i⟩)
    (recorded : Recorded c d loc host.tree)
    (dropped : metadataId ∉ e.registry.map Prod.fst → flushed metadataId = SortedMap.empty) :
    Sound c d loc flushed ⟨e, host⟩ := by
  refine ⟨settings, folder, backend, phase, store, ?_, ?_, ?_⟩
  · refine Disk.of_tables (stored.tables.congr (fun i => Engine.mem_openIds_iff) fun _ _ => rfl)
      (fun i hi => same i (Engine.mem_openIds_iff.1 hi)) recorded
  · refine ⟨stored.registered.ids, stored.registered.handles, fun id h hmem => ?_⟩
    have kept := stored.kept hmem
    have htable := same id (List.mem_map.2 ⟨_, hmem, rfl⟩)
    obtain ⟨dirty, hstorage, hclean⟩ := kept.storage
    refine ⟨stored.registered.known id h hmem, ?_, kept.isOpen, dirty, hstorage, fun h => ?_⟩
    · rw [kept.format, htable]
    · rw [hclean h, htable]
  · exact fun hnot => dropped fun hid => hnot (Engine.mem_openIds_iff.2 hid)

/-- The registry of a store that came up: each id with the next handle. -/
theorem opened_restored (ids : List Int32) (hids : ids.Nodup)
    (hhost : host'.partitions = host.partitions ++ ids.map (restored c d flushed)) :
    Opened c d flushed host' (ids.zipIdx host.partitions.length) ∧
      ∀ id h, (id, h) ∈ ids.zipIdx host.partitions.length →
        host'.partition h = restored c d flushed id := by
  have hpart : ∀ id h, (id, h) ∈ ids.zipIdx host.partitions.length →
      h < host'.partitions.length ∧ host'.partition h = restored c d flushed id := by
    -- The handles count on from the partitions that the host knew before.
    intro id h hmem
    obtain ⟨hle, hget⟩ := List.mk_mem_zipIdx_iff_le_and_getElem?_sub.1 hmem
    have hlt := (List.getElem?_eq_some_iff.1 hget).1
    refine ⟨by rw [hhost, List.length_append, List.length_map]; omega, ?_⟩
    rw [Host.partition, hhost, List.getD, List.getElem?_append_right hle, List.getElem?_map, hget]
    rfl
  refine ⟨⟨?_, ?_, ?_⟩, ?_⟩
  · rwa [List.zipIdx_map_fst]
  · rw [List.zipIdx_map_snd]
    exact List.nodup_range' ..
  · intro id h hmem
    obtain ⟨known, hrestored⟩ := hpart id h hmem
    exact ⟨known, by rw [hrestored]; rfl, by rw [hrestored]; rfl,
      ⟨false, by rw [hrestored]; rfl, fun _ => by rw [hrestored]; rfl⟩⟩
  · intro id h hmem
    exact (hpart id h hmem).2

/-! ### Coming up -/

/-- From a folder that is ready, a store comes up with all its partitions and the metadata
partition. -/
theorem Disk.open_of_prepared {ids : Int32 → Prop} {t : FileTree}
    (h : Disk c d loc t ids flushed) (hnamed : StoreFolder.named c.root c.store = .ok d)
    (hkind : c.backend = .table) (hmetadata : c.withMetadata = true)
    (hdata : c.withData = true ∨ ∀ id, ids id → id = metadataId)
    (hprepare : Engine.prepare d c host.tree = .ok () t)
    (hnew : ¬ids metadataId → flushed metadataId = SortedMap.empty) :
    ∃ e host', Engine.open c host = .ok e host' ∧ Sound c d loc flushed ⟨e, host'⟩ ∧
      (∀ id, id ∈ e.openIds ↔ id = metadataId ∨ ids id) ∧
      (∀ id h, (id, h) ∈ e.registry → host'.partition h = restored c d flushed id) ∧
      host'.tree.node? (recordFileName :: dirName d.store metadataId :: loc) =
        some (.file c.record.bytes) := by
  have hstore := (store_of_named hnamed).2
  obtain ⟨others, t₁, hopenAll, hdisk, hnodup, hmem⟩ :=
    @Disk.openAll_ok c d loc ⟨t, host.partitions⟩ ids flushed h hstore hmetadata hdata hnew
  obtain ⟨t₂, hkeep, hdisk, hfile⟩ := hdisk.keepRecord_ok (.inl rfl) hmetadata
  let host' : Host := ⟨t₂, host.partitions ++ (metadataId :: others).map (restored c d flushed)⟩
  let registry := (metadataId :: others).zipIdx host.partitions.length
  let e : Engine :=
    { settings := c, folder := d, backend := Backend.table, registry, phase := .opened,
      listener := none, reports := [] }
  have hids : ∀ id, id ∈ e.openIds ↔ id = metadataId ∨ ids id := by
    intro id
    rw [Engine.mem_openIds_iff]
    show id ∈ ((metadataId :: others).zipIdx host.partitions.length).map Prod.fst ↔ _
    rw [List.zipIdx_map_fst, hmem]
  obtain ⟨hopened, hrestored⟩ :=
    @opened_restored c d flushed host host' (metadataId :: others) hnodup rfl
  have hpredicate : (· ∈ e.openIds) = fun id => id = metadataId ∨ ids id :=
    funext fun id => propext (hids id)
  refine ⟨e, host', ?_, ⟨rfl, rfl, rfl, rfl, hstore, hpredicate ▸ hdisk, hopened, ?_⟩, hids,
    hrestored, hfile⟩
  · -- Opening is preparing the folder, attaching each partition, and keeping the record.
    rw [Engine.open, hkind, Engine.openWith, hnamed]
    show ((HostAction.onTree (Engine.prepare d c)) >>= _) host = _
    rw [Action.bind_of_ok (HostAction.onTree_of_ok hprepare)]
    show (Restore.openAll Backend.table d c >>= _) _ = _
    rw [Action.bind_of_ok hopenAll, Action.bind_of_ok (HostAction.onTree_of_ok hkeep)]
    rfl
  · intro hnot
    exact absurd ((hids metadataId).2 (.inl rfl)) hnot

/-- A store that is on disk comes up as it was flushed. -/
theorem Disk.open_ok {ids : Int32 → Prop} (h : Disk c d loc host.tree ids flushed)
    (hnamed : StoreFolder.named c.root c.store = .ok d) (hkind : c.backend = .table)
    (hmetadata : c.withMetadata = true) (hdata : c.withData = true)
    (hrecord : c.ReadsBack)
    (hnew : ¬ids metadataId → flushed metadataId = SortedMap.empty) :
    ∃ e host', Engine.open c host = .ok e host' ∧ Sound c d loc flushed ⟨e, host'⟩ ∧
      (∀ id, id ∈ e.openIds ↔ id = metadataId ∨ ids id) ∧
      ∀ id h, (id, h) ∈ e.registry → host'.partition h = restored c d flushed id := by
  obtain ⟨e, host', hopen, hsound, hids, hrestored, -⟩ :=
    h.open_of_prepared hnamed hkind hmetadata (.inl hdata) (h.prepare_ok hrecord) hnew
  exact ⟨e, host', hopen, hsound, hids, hrestored⟩

end PartitionStore
