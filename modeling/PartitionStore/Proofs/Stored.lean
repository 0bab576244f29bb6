import PartitionStore.Proofs.Registered
import PartitionStore.Proofs.Tables

/-!
# `PartitionStore.Proofs.Stored`: opened partitions and their tables

`Stored` is about the partitions of one store that are open on a host, and about
what its folder holds: every registered partition is open, its table is in the
folder, and it is dirty unless it holds just what the table has. Partitions may
have tables of different formats, and the folder may have tables of partitions
that are not registered.

* `Stored.touch`, `Stored.sync_cases`, `Stored.close_cases`, `Stored.drop_ok`,
  `Stored.attach_cases`: what each operation of a partition does to that.
-/

set_option autoImplicit false

namespace PartitionStore

open FileTree Naming PartitionStore.Partition StoreFolder

/-- The partition is open, and dirty unless it holds just what its table has. -/
structure Kept (d : StoreFolder) (table : Int32 → Table) (id : Int32) (part : Partition) :
    Prop where
  isOpen : part.closed = false
  format : part.format = (table id).format
  storage : ∃ dirty, part.storage = .table (d.partitionPath id) dirty ∧
    (dirty = false → part.entries = (table id).entries)

/-- The registered partitions are open, the folder has the tables of the partitions `ids`, and
the registered ones are among them. -/
structure Stored (d : StoreFolder) (loc : Location) (table : Int32 → Table) (host : Host)
    (ids : Int32 → Prop) (registry : List (Int32 × Handle)) : Prop where
  tables : Tables d loc host.tree ids table
  registered : Registered (Kept d table) host registry
  there : ∀ id h, (id, h) ∈ registry → ids id

variable {d : StoreFolder} {loc : Location} {table table' : Int32 → Table} {host host' : Host}
  {ids ids' : Int32 → Prop} {registry registry' : List (Int32 × Handle)} {id : Int32} {h : Handle}
  {new : Table} {part : Partition}

theorem Kept.congr (kept : Kept d table id part) (same : table' id = table id) :
    Kept d table' id part :=
  ⟨kept.isOpen, by rw [same]; exact kept.format, by rw [same]; exact kept.storage⟩

/-- A partition is kept with another table if that is the one that it has now. -/
theorem Kept.update (isOpen : part.closed = false) (format : part.format = new.format)
    (storage : ∃ dirty, part.storage = .table (d.partitionPath id) dirty ∧
      (dirty = false → part.entries = new.entries)) :
    Kept d (Function.update table id new) id part := by
  refine ⟨isOpen, ?_, ?_⟩
  · rw [Function.update_self]
    exact format
  · rw [Function.update_self]
    exact storage

namespace Stored

theorem kept (stored : Stored d loc table host ids registry) (hmem : (id, h) ∈ registry) :
    Kept d table id (host.partition h) := stored.registered.each id h hmem

/-- The partition behind a registered handle has its table on disk. -/
theorem backed (stored : Stored d loc table host ids registry) (hmem : (id, h) ∈ registry) :
    Backed host.tree d.path loc (dirName d.store id) (host.partition h) (table id).entries := by
  have kept := stored.kept hmem
  have hid := stored.there id h hmem
  exact ⟨stored.tables.room id hid, kept.isOpen, kept.storage,
    kept.format ▸ stored.tables.table id hid⟩

/-- The order of the registry makes no difference. -/
theorem perm (stored : Stored d loc table host ids registry) (hperm : registry'.Perm registry) :
    Stored d loc table host ids registry' :=
  ⟨stored.tables, stored.registered.perm hperm,
    fun id h hmem => stored.there id h (hperm.mem_iff.1 hmem)⟩

/-- The partitions that are on disk can be said in another way. -/
theorem congr_ids (stored : Stored d loc table host ids registry) (same : ∀ i, ids' i ↔ ids i) :
    Stored d loc table host ids' registry :=
  ⟨stored.tables.congr same fun _ _ => rfl, stored.registered,
    fun id h hmem => (same id).2 (stored.there id h hmem)⟩

/-- The file tree changes, but no table in it. -/
theorem setTree (stored : Stored d loc table host ids registry) {t : FileTree}
    (tables : Tables d loc t ids table) :
    Stored d loc table { host with tree := t } ids registry :=
  ⟨tables, stored.registered.setTree t, stored.there⟩

/-- One registered partition changes, and what is in its table perhaps too. -/
theorem setPartition (stored : Stored d loc table host ids registry) (hmem : (id, h) ∈ registry)
    {t : FileTree} (tables : Tables d loc t ids (Function.update table id new))
    (kept : Kept d (Function.update table id new) id part) :
    Stored d loc (Function.update table id new)
      (({ host with tree := t } : Host).setPartition h part) ids registry :=
  ⟨tables, (stored.registered.setTree t).setPartition hmem kept
    fun _ hi _ old => old.congr (Function.update_of_ne hi ..), stored.there⟩

/-- One registered partition leaves the registry, and with it perhaps the folder. -/
theorem release (stored : Stored d loc table host ids registry) (hmem : (id, h) ∈ registry)
    {t : FileTree} (part : Partition) (tables : Tables d loc t ids' table')
    (same : ∀ i, i ≠ id → table' i = table i) (there : ∀ i, i ≠ id → ids i → ids' i) :
    Stored d loc table' (({ host with tree := t } : Host).setPartition h part) ids'
      (registry.filter fun entry => entry.1 != id) := by
  refine ⟨tables, (stored.registered.setTree t).release hmem part
    fun i hi _ old => old.congr (same i hi), ?_⟩
  intro i g hin
  obtain ⟨hg, hne⟩ := mem_unregistered_iff.1 hin
  exact there i hne (stored.there i g hg)

/-- A partition joins the registry. -/
theorem add (stored : Stored d loc table host ids registry) (hid : id ∉ registry.map Prod.fst)
    {t : FileTree} (tables : Tables d loc t ids' (Function.update table id new))
    (kept : Kept d (Function.update table id new) id part)
    (there : ∀ i, i = id ∨ ids i → ids' i) :
    Stored d loc (Function.update table id new) ⟨t, host.partitions ++ [part]⟩ ids'
      (registry ++ [(id, host.partitions.length)]) := by
  refine ⟨tables, (stored.registered.setTree t).add hid kept
    fun _ hi _ old => old.congr (Function.update_of_ne hi ..), ?_⟩
  intro i g hin
  rcases List.mem_append.1 hin with hg | hg
  · exact there i (.inr (stored.there i g hg))
  · exact there i (.inl (Prod.mk.inj (List.mem_singleton.1 hg)).1)

/-! ### Operations -/

/-- A partition changes in memory, and counts as dirty from then on. -/
theorem touch (stored : Stored d loc table host ids registry) (hmem : (id, h) ∈ registry)
    (entries : SortedMap Bytes Bytes) :
    Stored d loc table (host.setPartition h
      { host.partition h with entries, storage := (host.partition h).storage.touched }) ids
        registry := by
  have kept := stored.kept hmem
  obtain ⟨dirty, hstorage, -⟩ := kept.storage
  -- The table is what it was.
  have hsame : Function.update table id (table id) = table := Function.update_eq_self ..
  have kept' : Kept d (Function.update table id (table id)) id
      { host.partition h with entries, storage := (host.partition h).storage.touched } :=
    .update kept.isOpen kept.format ⟨true, by simp [hstorage, Storage.touched], by simp⟩
  have hset := stored.setPartition hmem (hsame.symm ▸ stored.tables) kept'
  rwa [hsame] at hset

/-- A partition is flushed, or that fails, because what it holds does not fit, and its table stays
as it is. -/
theorem flush_cases (stored : Stored d loc table host ids registry) (hmem : (id, h) ∈ registry) :
    ∃ t, Confined loc host.tree t ∧
      (((host.partition h).flush host.tree =
            .ok { host.partition h with storage := (host.partition h).storage.settled } t ∧
          Tables d loc t ids (Function.update table id
            ⟨(host.partition h).format, (host.partition h).entries⟩) ∧
          ∃ dirty, (host.partition h).storage.settled = .table (d.partitionPath id) dirty) ∨
        (∃ e, (host.partition h).flush host.tree = .error e t) ∧ Tables d loc t ids table ∧
          ¬∀ entry ∈ (host.partition h).entries.toList, Table.Fits entry) := by
  have kept := stored.kept hmem
  obtain ⟨t, hsame, ⟨hflush, hbacked⟩ | ⟨e, hflush, hbacked, hfits⟩⟩ :=
    (stored.backed hmem).flush_cases stored.tables.lead
  · obtain ⟨dirty, hstorage, -⟩ := hbacked.storage
    exact ⟨t, Confined.of_files hsame,
      .inl ⟨hflush, stored.tables.setTable hbacked.table hsame, dirty, hstorage⟩⟩
  · -- What failed may have left a scratch file beside the old table.
    have htable := hbacked.table
    rw [kept.format] at htable
    have htables := stored.tables.setTable htable hsame
    rw [show (⟨(table id).format, (table id).entries⟩ : Table) = table id from rfl,
      Function.update_eq_self] at htables
    exact ⟨t, Confined.of_files hsame, .inr ⟨⟨e, hflush⟩, htables, hfits⟩⟩

/-- A synchronization settles a partition, or it fails. -/
theorem sync_cases (stored : Stored d loc table host ids registry) (hmem : (id, h) ∈ registry) :
    ∃ t, Confined loc host.tree t ∧
      ((HostAction.sync h host = .ok () (({ host with tree := t } : Host).setPartition h
            { host.partition h with storage := (host.partition h).storage.settled }) ∧
          Stored d loc
            (Function.update table id ⟨(host.partition h).format, (host.partition h).entries⟩)
            (({ host with tree := t } : Host).setPartition h
              { host.partition h with storage := (host.partition h).storage.settled }) ids
            registry) ∨
        (∃ e, HostAction.sync h host = .error e { host with tree := t }) ∧
          Stored d loc table { host with tree := t } ids registry ∧
          ¬∀ entry ∈ (host.partition h).entries.toList, Table.Fits entry) := by
  have kept := stored.kept hmem
  have hsync : Partition.sync (host.partition h) = (host.partition h).flush := by
    rw [Partition.sync_eq, if_neg (by simp [kept.isOpen])]
  obtain ⟨t, confined, ⟨hflush, htables, dirty, hstorage⟩ | ⟨⟨e, hflush⟩, htables, hfits⟩⟩ :=
    stored.flush_cases hmem
  · refine ⟨t, confined, .inl ⟨HostAction.sync_of_ok (hsync ▸ hflush), ?_⟩⟩
    exact stored.setPartition hmem htables
      (.update kept.isOpen rfl ⟨dirty, hstorage, fun _ => rfl⟩)
  · exact ⟨t, confined, .inr ⟨⟨e, HostAction.sync_of_error (hsync ▸ hflush)⟩,
      stored.setTree htables, hfits⟩⟩

/-- Closing flushes a partition, which leaves the registry, or it fails. -/
theorem close_cases (stored : Stored d loc table host ids registry) (hmem : (id, h) ∈ registry) :
    ∃ t, Confined loc host.tree t ∧
      ((∃ part, HostAction.close h host =
            .ok () (({ host with tree := t } : Host).setPartition h part) ∧
          Stored d loc
            (Function.update table id ⟨(host.partition h).format, (host.partition h).entries⟩)
            (({ host with tree := t } : Host).setPartition h part) ids
            (registry.filter fun entry => entry.1 != id)) ∨
        (∃ e, HostAction.close h host = .error e { host with tree := t }) ∧
          ¬∀ entry ∈ (host.partition h).entries.toList, Table.Fits entry) := by
  have hclose := @close_of_isOpen host.tree (host.partition h) (stored.kept hmem).isOpen
  obtain ⟨t, confined, ⟨hflush, htables, -⟩ | ⟨⟨e, hflush⟩, -, hfits⟩⟩ := stored.flush_cases hmem
  · rw [hflush] at hclose
    exact ⟨t, confined, .inl ⟨_, HostAction.close_of_ok hclose,
      stored.release hmem _ htables (fun i hi => Function.update_of_ne hi ..) fun _ _ hi => hi⟩⟩
  · rw [hflush] at hclose
    exact ⟨t, confined, .inr ⟨⟨e, HostAction.close_of_error hclose⟩, hfits⟩⟩

/-- A partition that is dropped takes its directory with it. -/
theorem drop_ok (stored : Stored d loc table host ids registry) (hmem : (id, h) ∈ registry) :
    ∃ t part, Confined loc host.tree t ∧
      HostAction.drop h host = .ok () (({ host with tree := t } : Host).setPartition h part) ∧
      Stored d loc table (({ host with tree := t } : Host).setPartition h part)
        (fun i => i ≠ id ∧ ids i) (registry.filter fun entry => entry.1 != id) := by
  obtain ⟨part, t, hdrop, hgone⟩ := (stored.backed hmem).drop_ok stored.tables.lead
  exact ⟨t, part, Confined.of_gone hgone, HostAction.drop_of_ok hdrop,
    stored.release hmem part (stored.tables.dropTable hgone) (fun _ _ => rfl)
      fun _ hne hi => ⟨hne, hi⟩⟩

/-- A partition that is not on disk is made and joins the registry, or it is refused, and nothing
changes. Where the directory's path can be walked there has to be room for the table file. -/
theorem attach_cases (stored : Stored d loc table host ids registry) {spec : PartitionSpec}
    (hstore : spec.store = d.store) (hid : ¬ids spec.id)
    (room : checkText (d.partitionPath spec.id) = .ok () →
      (d.partitionPath spec.id).HasRoom 9) :
    (∃ t, Confined loc host.tree t ∧
        Backend.table.attach d spec host = .ok host.partitions.length
          ⟨t, host.partitions ++ [⟨spec.id, spec.format, SortedMap.empty,
            .table (d.partitionPath spec.id) false, false⟩]⟩ ∧
        Stored d loc (Function.update table spec.id ⟨spec.format, SortedMap.empty⟩)
          ⟨t, host.partitions ++ [⟨spec.id, spec.format, SortedMap.empty,
            .table (d.partitionPath spec.id) false, false⟩]⟩
          (fun i => i = spec.id ∨ ids i) (registry ++ [(spec.id, host.partitions.length)])) ∨
      ((checkText (d.partitionPath spec.id) ≠ .ok () ∨
          isEntryName (dirName d.store spec.id) = false) ∧
        ∃ e, Backend.table.attach d spec host = .error e host) := by
  rw [Backend.attach_table hstore]
  cases htext : checkText (d.partitionPath spec.id) with
  | error e =>
      have hopen := @openTable_of_checkText host.tree _ spec _ (text_partitionPath_ne d _) htext
      exact .inr ⟨.inl (by simp), _, HostAction.register_of_error hopen⟩
  | ok _ =>
      cases hname : isEntryName (dirName d.store spec.id) with
      | false =>
          have hopen := openTable_of_unusable spec stored.tables.lead (room htext)
            (isPlainName_dir d _) hname
          exact .inr ⟨.inr rfl, _, HostAction.register_of_error hopen⟩
      | true =>
          obtain ⟨t, hopen, htable, hsame⟩ := openTable_of_none spec stored.tables.lead
            (room htext) hname (stored.tables.node?_of_not hid)
          have hnot : spec.id ∉ registry.map Prod.fst := by
            intro hin
            obtain ⟨⟨i, h⟩, hmem, rfl⟩ := List.mem_map.1 hin
            exact hid (stored.there _ h hmem)
          exact .inl ⟨t, Confined.of_made hsame, HostAction.register_of_ok hopen,
            stored.add hnot (stored.tables.addTable hid (room htext) htable hsame)
              (.update rfl rfl ⟨false, rfl, fun _ => rfl⟩) fun _ hi => hi⟩

end Stored

end PartitionStore
