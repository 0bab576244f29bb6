import PartitionStore.Proofs.Engine.Opening
import PartitionStore.Proofs.Partition.Outcomes
import PartitionStore.Proofs.StoreFolder.Outcomes

/-!
# `PartitionStore.Proofs.Engine.Upkeep`: a store on a disk that fails

Whatever stands in the way of an engine's files, so that opening, flushing or dropping
some partition fails: as long as no symbolic links are in the folder, a partition that is
not dirty has its table on disk, and nothing changes but where the engine has to do
with it. This is `Upkeep`, and all operations keep it (`Upkeep.keeps`).

* `Upkeep.flush_cases`: what flushing a registered partition leaves.
* `upkeep_of_open`: a store that was brought up has it, with a record if it is to have one.
-/

set_option autoImplicit false

namespace PartitionStore

open FileTree Naming PartitionStore.Partition StoreFolder

/-- The partition is open, in the directory of its id. Its table file has what it holds unless it
is dirty. -/
structure Tended (d : StoreFolder) (loc : Location) (t : FileTree) (i : Int32) (part : Partition) :
    Prop where
  isOpen : part.closed = false
  storage : ∃ dirty, part.storage = .table (d.partitionPath i) dirty ∧
    (dirty = false → TableAt t (dirName d.store i :: loc) part.table)

/-- Where an engine that is open may change something: the files of tables, and what is in the
directories of those partitions that may be removed. -/
def Touched (d : StoreFolder) (loc : Location) (removable : Int32 → Prop) (l : Location) : Prop :=
  ∃ i, IsFile (dirName d.store i :: loc) l ∨ removable i ∧ dirName d.store i :: loc <:+ l

/-- The registered partitions are tended. Since the tree was `start` it has changed at some places
only, and of the partitions `ids` those that may not be removed are still registered. -/
structure Upkeep (d : StoreFolder) (loc : Location) (removable : Int32 → Prop) (start : FileTree)
    (ids : List Int32) (host : Host) (registry : List (Int32 × Handle)) : Prop where
  sited : Sited d loc host.tree
  registered : Registered (Tended d loc host.tree) host registry
  changes : Within (Touched d loc removable) start host.tree
  stays : ∀ i ∈ ids, ¬removable i → i ∈ registry.map Prod.fst

variable {d : StoreFolder} {c : EngineSettings} {loc parent : Location}
  {removable : Int32 → Prop} {start t u : FileTree} {ids : List Int32} {host : Host}
  {registry : List (Int32 × Handle)} {i id : Int32} {h : Handle} {part : Partition}
  {S : Location → Prop}

/-! ### Different partitions -/

/-- The files of a table are in the partition's directory. -/
theorem suffix_of_isFile {l : Location} (h : IsFile loc l) : loc <:+ l := by
  rcases h with rfl | rfl <;> exact List.suffix_cons ..

/-- They are in no other partition's directory. -/
theorem not_isFile_of_ne (hne : i ≠ id) {l : Location} (hl : dirName d.store i :: loc <:+ l) :
    ¬IsFile (dirName d.store id :: loc) l := fun h => not_suffix_of_ne hne hl (suffix_of_isFile h)

/-- A partition is still tended after a change elsewhere: its directory stays, and its table file is
the one of before. -/
theorem Tended.within (tended : Tended d loc t i part) (within : Within S t u)
    (hout : ¬S (tableFileName :: dirName d.store i :: loc)) : Tended d loc u i part := by
  obtain ⟨dirty, hstorage, hclean⟩ := tended.storage
  exact ⟨tended.isOpen, dirty, hstorage, fun h => (hclean h).within within hout⟩

/-- The files of one partition change, and others are what they were. -/
theorem Tended.of_files (tended : Tended d loc t i part) (hne : i ≠ id)
    (within : Within (IsFile (dirName d.store id :: loc)) t u) : Tended d loc u i part :=
  tended.within within (not_isFile_of_ne hne (List.suffix_cons ..))

/-- The files of a table may be changed, be it that of a partition that may be removed or not. -/
theorem touched_file (id : Int32) {l : Location} (h : IsFile (dirName d.store id :: loc) l) :
    Touched d loc removable l := ⟨id, .inl h⟩

namespace Upkeep

variable (upkeep : Upkeep d loc removable start ids host registry)
include upkeep

/-- A registered partition is tended. -/
theorem tended (hmem : (id, h) ∈ registry) : Tended d loc host.tree id (host.partition h) :=
  upkeep.registered.each id h hmem

/-- The order of the registry makes no difference. -/
theorem perm {registry' : List (Int32 × Handle)} (hperm : registry'.Perm registry) :
    Upkeep d loc removable start ids host registry' :=
  ⟨upkeep.sited, upkeep.registered.perm hperm, upkeep.changes,
    fun i hi hkept => ((hperm.map Prod.fst).mem_iff).2 (upkeep.stays i hi hkept)⟩

/-- Files of a partition change whose table is of no consequence. -/
theorem setTree (within : Within (IsFile (dirName d.store id :: loc)) host.tree t)
    (hdirty : ∀ h, (id, h) ∈ registry → Tended d loc t id (host.partition h)) :
    Upkeep d loc removable start ids { host with tree := t } registry := by
  refine ⟨upkeep.sited.congr within.links, ?_,
    upkeep.changes.trans (within.mono fun _ => touched_file id), upkeep.stays⟩
  have registered := upkeep.registered.setTree t
  refine ⟨registered.ids, registered.handles, registered.known, fun i g hg => ?_⟩
  by_cases hid : i = id
  · subst hid
    exact hdirty g hg
  · exact (upkeep.tended hg).of_files hid within

/-- A registered partition changes, and with it perhaps its files. -/
theorem setPartition (hmem : (id, h) ∈ registry)
    (within : Within (IsFile (dirName d.store id :: loc)) host.tree t)
    (new : Tended d loc t id part) :
    Upkeep d loc removable start ids (({ host with tree := t } : Host).setPartition h part)
      registry :=
  ⟨upkeep.sited.congr within.links,
    (upkeep.registered.setTree t).setPartition hmem new fun _ hi _ old => old.of_files hi within,
    upkeep.changes.trans (within.mono fun _ => touched_file id), upkeep.stays⟩

/-! ### Operations -/

/-- A partition that is opened comes under the engine's upkeep, and one that is not changes nothing
that counts. What is written on the way are files of its table. -/
theorem attach {spec : PartitionSpec} (hid : spec.id ∉ registry.map Prod.fst) :
    (∀ h host', Backend.table.attach d spec host = .ok h host' →
        Upkeep d loc removable start ids host' (registry ++ [(spec.id, h)])) ∧
      ∀ e host', Backend.table.attach d spec host = .error e host' →
        Upkeep d loc removable start ids host' registry := by
  have hcases := openTable_cases (upkeep.sited.partition spec.id)
    (upkeep.sited.free_partition spec.id) spec
  have hnot : ∀ h, (spec.id, h) ∉ registry := fun h hmem =>
    hid (List.mem_map.2 ⟨_, hmem, rfl⟩)
  rcases Backend.attach_table_cases d spec host with ⟨part, t, hopen, hok⟩ | ⟨e, t, herror, hfail⟩
  · refine ⟨fun h host' hattach => ?_, fun e host' hattach => ?_⟩
    swap
    · cases hok.symm.trans hattach
    cases hok.symm.trans hattach
    rcases hcases with ⟨entries, u, hrun, htable, within⟩ | ⟨e, u, hrun, -⟩
    · cases hopen.symm.trans hrun
      -- A partition just opened is clean, and its table is what it holds.
      have new : Tended d loc t spec.id
          ⟨spec.id, spec.format, entries, .table (d.partitionPath spec.id) false, false⟩ :=
        ⟨rfl, false, rfl, fun _ => htable⟩
      refine ⟨upkeep.sited.congr within.links, (upkeep.registered.setTree t).add hid new
        fun _ hi _ old => old.of_files hi within,
        upkeep.changes.trans (within.mono fun _ => touched_file spec.id), fun i hi hkept => ?_⟩
      rw [List.map_append]
      exact List.mem_append_left _ (upkeep.stays i hi hkept)
    · cases hopen.symm.trans hrun
  · refine ⟨fun h host' hattach => ?_, fun e' host' hattach => ?_⟩
    · cases herror.symm.trans hattach
    cases herror.symm.trans hattach
    have within : Within (IsFile (dirName d.store spec.id :: loc)) host.tree t := by
      rcases hfail with hfail | rfl
      · rcases hcases with ⟨entries, u, hrun, -⟩ | ⟨e, u, hrun, within⟩
        · cases hfail.symm.trans hrun
        · cases hfail.symm.trans hrun
          exact within
      · exact .refl _ _
    exact upkeep.setTree within fun h hmem => absurd hmem (hnot h)

/-- A partition changes in memory, and is dirty from then on. -/
theorem touch (hmem : (id, h) ∈ registry) (entries : SortedMap Bytes Bytes) :
    Upkeep d loc removable start ids (host.setPartition h
      { host.partition h with entries, storage := (host.partition h).storage.touched }) registry := by
  have tended := upkeep.tended hmem
  obtain ⟨dirty, hstorage, -⟩ := tended.storage
  refine upkeep.setPartition hmem (.refl _ host.tree) ⟨tended.isOpen, true, ?_, by simp⟩
  simp only [hstorage]
  rfl

/-- A registered partition that is flushed has its table on disk then, or it was dirty and stays
as it is. -/
theorem flush_cases (hmem : (id, h) ∈ registry) :
    (∃ t, (host.partition h).flush host.tree =
          .ok { host.partition h with storage := .table (d.partitionPath id) false } t ∧
        TableAt t (dirName d.store id :: loc) (host.partition h).table ∧
        Within (IsFile (dirName d.store id :: loc)) host.tree t) ∨
      ∃ e t, (host.partition h).flush host.tree = .error e t ∧
        Within (IsFile (dirName d.store id :: loc)) host.tree t ∧
        Tended d loc t id (host.partition h) := by
  have tended := upkeep.tended hmem
  obtain ⟨dirty, hstorage, hclean⟩ := tended.storage
  rcases Partition.flush_cases (upkeep.sited.partition id) (upkeep.sited.free_partition id)
    hstorage hclean with hok | ⟨e, t, hflush, rfl, within⟩
  · exact .inl hok
  · exact .inr ⟨e, t, hflush, within, tended.isOpen, true, hstorage, by simp⟩

/-- A sync writes the table of the partition, or what it left of the scratch file. -/
theorem sync (hmem : (id, h) ∈ registry) :
    Upkeep d loc removable start ids (Action.after (HostAction.sync h host)) registry := by
  have hsync : (host.partition h).sync host.tree = (host.partition h).flush host.tree := by
    rw [Partition.sync_eq, (upkeep.tended hmem).isOpen]
    rfl
  rcases upkeep.flush_cases hmem with ⟨t, hflush, htable, within⟩ | ⟨e, t, hflush, within, tended⟩
  · rw [HostAction.sync_of_ok (hsync.trans hflush)]
    exact upkeep.setPartition hmem within
      ⟨(upkeep.tended hmem).isOpen, false, rfl, fun _ => htable⟩
  · rw [HostAction.sync_of_error (hsync.trans hflush)]
    refine upkeep.setTree within fun g hg => ?_
    rwa [upkeep.registered.handle_unique hmem hg]

/-- A put makes the partition dirty, so that its table need not have what it holds. -/
theorem put (hmem : (id, h) ∈ registry) (key value : Bytes) :
    Upkeep d loc removable start ids (Action.after (HostAction.put h key value host)) registry := by
  rw [HostAction.put_of_ok (put_of_isOpen (upkeep.tended hmem).isOpen key value)]
  exact upkeep.touch hmem _

/-- So does a delete. -/
theorem delete (hmem : (id, h) ∈ registry) (key : Bytes) :
    Upkeep d loc removable start ids (Action.after (HostAction.delete h key host)) registry := by
  rw [HostAction.delete_of_ok (delete_of_isOpen (upkeep.tended hmem).isOpen key), Action.after]
  split
  · exact upkeep.touch hmem _
  · rwa [Host.setPartition_partition]

/-- A drop takes the directory of a partition that may be removed. Where it fails the partition is
still registered, and what it took away is in that directory. -/
theorem drop (hmem : (id, h) ∈ registry) :
    (∀ host', removable id → HostAction.drop h host = .ok () host' → Upkeep d loc removable start
        ids host' (registry.filter fun entry => entry.1 != id)) ∧
      ∀ e host', HostAction.drop h host = .error e host' →
        Upkeep d loc removable start ids host' registry := by
  obtain ⟨dirty, hstorage, -⟩ := (upkeep.tended hmem).storage
  rcases drop_cases hstorage (d.isPlainName_dir id) upkeep.sited.points
    (upkeep.sited.free_partition id) with ⟨t, hdrop, within⟩ | ⟨e, hdrop⟩
  · have hrun := HostAction.drop_of_ok hdrop
    refine ⟨fun host' hremovable h' => ?_, fun e host' h' => ?_⟩
    swap
    · cases hrun.symm.trans h'
    cases hrun.symm.trans h'
    refine ⟨upkeep.sited.congr within.links, (upkeep.registered.setTree t).release hmem _
      fun i hi _ old => old.within within (not_suffix_of_ne hi (List.suffix_cons ..)),
      upkeep.changes.trans (within.mono fun l hl => ⟨id, .inr ⟨hremovable, hl⟩⟩),
      fun i hi hkept => mem_ids_unregistered_iff.2 ⟨?_, upkeep.stays i hi hkept⟩⟩
    rintro rfl
    exact hkept hremovable
  · have hrun := HostAction.drop_of_error hdrop
    refine ⟨fun host' _ h' => ?_, fun e host' h' => ?_⟩
    · cases hrun.symm.trans h'
    cases hrun.symm.trans h'
    exact upkeep

end Upkeep

/-- All operations keep the upkeep, whatever their outcome. -/
theorem Upkeep.keeps (d : StoreFolder) (loc : Location) (removable : Int32 → Prop)
    (start : FileTree) (ids : List Int32) :
    Backend.table.Keeps d removable (Upkeep d loc removable start ids) where
  perm upkeep hperm := upkeep.perm hperm
  attach upkeep hid hattach := (upkeep.attach hid).1 _ _ hattach
  attach_error upkeep hid hattach := (upkeep.attach hid).2 _ _ hattach
  put key value upkeep hmem := upkeep.put hmem key value
  get key upkeep _ := (HostAction.after_get _ key _).symm ▸ upkeep
  delete key upkeep hmem := upkeep.delete hmem key
  sync upkeep hmem := upkeep.sync hmem
  drop upkeep hmem hremovable hdrop := (upkeep.drop hmem).1 _ hremovable hdrop
  drop_error upkeep hmem hdrop := (upkeep.drop hmem).2 _ _ hdrop

/-! ### Coming up -/

/-- The record is none of the files that the partitions have, and in the metadata partition's
directory. -/
theorem not_touched_recordPlace (hkept : ¬removable metadataId) :
    ¬Touched d loc removable (d.recordPlace loc) := by
  have hmetadata : dirName d.store metadataId :: loc <:+ d.recordPlace loc := List.suffix_cons ..
  rintro ⟨i, hfile | ⟨hremovable, hbelow⟩⟩
  · rcases hfile with e | e <;> exact absurd (List.cons.inj e).1 (by decide)
  · refine not_suffix_of_ne (fun e => ?_) hmetadata hbelow
    subst e
    exact hkept hremovable

/-- Nor are its two files the table of a partition. -/
theorem tableFile_ne_record (i : Int32) :
    ¬(tableFileName :: dirName d.store i :: loc = d.recordPlace loc ∨
      tableFileName :: dirName d.store i :: loc = d.recordScratchPlace loc) := by
  rintro (e | e) <;> exact absurd (List.cons.inj e).1 (by decide)

/-- A store that was brought up is kept up from then on. Its record is there, and the metadata
partition open, if the engine answers for the store. -/
theorem upkeep_of_open (hkind : c.backend = .table) (points : host.tree.PointsTo c.root parent)
    (free : host.tree.LinkFree (c.store :: parent)) {e : Engine} {host' : Host}
    (hopen : Engine.open c host = .ok e host') (removable : Int32 → Prop) :
    Live Backend.table e.folder (Upkeep e.folder (c.store :: parent) removable host'.tree e.openIds)
        ⟨e, host'⟩ ∧
      (c.withMetadata = true → metadataId ∈ e.openIds ∧
        ∃ node, host'.tree.node? (e.folder.recordPlace (c.store :: parent)) = some node) := by
  obtain ⟨d, t, registry, host₁, t₁, hnamed, hprepare, hall, hkeep, rfl, rfl⟩ := exists_of_open hopen
  have sited := sited_of_named hnamed points free
  have hready := sited.prepare_within c
  rw [hprepare] at hready
  -- It holds with nothing registered, each attachment keeps it, and so does the record.
  have start : Upkeep d (c.store :: parent) removable t [] ⟨t, host.partitions⟩ [] :=
    ⟨sited.congr hready.links, ⟨List.nodup_nil, List.nodup_nil, nofun, nofun⟩, .refl _ t, nofun⟩
  obtain ⟨ids, hmetadata, opens⟩ := (Upkeep.keeps d _ removable t []).openAll (c := c) start
    (fun host => (Backend.idsOnDisk_table d host).1)
    (by exact fun ids host' => (Backend.idsOnDisk_table d _).2 ids host')
  rw [hkind, show Backend.ofKind .table = Backend.table from rfl] at hall
  rw [show Restore.openAll Backend.table d c ⟨t, host.partitions⟩ = _ from hall] at opens
  obtain ⟨hids, upkeep⟩ := opens
  rw [List.nil_append] at upkeep
  rcases upkeep.sited.keepRecord_cases c with ⟨u, hrecord, hthere, within⟩ | ⟨e, u, hrecord, -⟩
  · cases hkeep.symm.trans hrecord
    refine ⟨⟨rfl, by rw [hkind]; rfl, rfl, upkeep.sited.congr within.links, ?_, .refl _ t₁,
      fun i hi _ => Engine.mem_openIds_iff.1 hi⟩, fun hwith => ⟨?_, hthere hwith⟩⟩
    · have registered := upkeep.registered.setTree t₁
      exact ⟨registered.ids, registered.handles, registered.known, fun i g hg =>
        (upkeep.tended hg).within within (tableFile_ne_record i)⟩
    · rw [Engine.mem_openIds_iff]
      exact hids ▸ hmetadata hwith
  · cases hkeep.symm.trans hrecord

end PartitionStore
