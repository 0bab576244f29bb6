import PartitionStore.Proofs.Engine.Sound
import PartitionStore.Proofs.StoreFolder.Outcomes

/-!
# `PartitionStore.Proofs.Engine.Fresh`: opening a store that is not there

A store is new to a tree (`Fresh`) if its folder is not there and is empty once
it was made. The second is no matter of course: the directories that are made on
the way to the folder may come to lie in it, and a folder that cannot be reached
may be reached through them.

* `sound_of_open`: an engine that came up on a new store is sound, with the
  metadata partition alone, which is empty, and with its record on disk.
-/

set_option autoImplicit false

namespace PartitionStore

open FileTree Naming PartitionStore.Partition StoreFolder

/-- The folder of the store is not there, and once it was made it is empty. -/
structure Fresh (c : EngineSettings) (t : FileTree) : Prop where
  absent : t.exists (storePath c.root c.store) = false
  empty : ∀ u, Files.createDirAll (storePath c.root c.store) t = .ok () u →
    u.list (storePath c.root c.store) = .ok []

variable {c : EngineSettings} {d : StoreFolder} {loc : Location} {host host' : Host}
  {t u : FileTree}

/-! ### What success tells -/

/-- The steps of an opening that succeeded. -/
theorem exists_of_open {e : Engine} (h : Engine.open c host = .ok e host') :
    ∃ d t registry host₁ t₁, StoreFolder.named c.root c.store = .ok d ∧
      Engine.prepare d c host.tree = .ok () t ∧
      Restore.openAll (Backend.ofKind c.backend) d c ⟨t, host.partitions⟩ = .ok registry host₁ ∧
      Engine.keepRecord d c host₁.tree = .ok () t₁ ∧ host' = { host₁ with tree := t₁ } ∧
      e = { settings := c, folder := d, backend := Backend.ofKind c.backend, registry,
            phase := .opened, listener := none, reports := [] } := by
  obtain ⟨d, host₀, hnamed, h⟩ := Action.bind_eq_ok_iff.1 h
  obtain ⟨_, host₁, hprepare, h⟩ := Action.bind_eq_ok_iff.1 h
  obtain ⟨registry, host₂, hopenAll, h⟩ := Action.bind_eq_ok_iff.1 h
  obtain ⟨_, host₃, hkeep, hlast⟩ := Action.bind_eq_ok_iff.1 h
  obtain ⟨t, htree, rfl⟩ := HostAction.onTree_eq_ok_iff.1 hprepare
  obtain ⟨t₁, htree₁, rfl⟩ := HostAction.onTree_eq_ok_iff.1 hkeep
  cases hd : StoreFolder.named c.root c.store with
  | error fault =>
      rw [hd] at hnamed
      cases hnamed
  | ok folder =>
      rw [hd] at hnamed
      cases hnamed
      cases hlast
      exact ⟨d, t, registry, host₂, t₁, rfl, htree, hopenAll, htree₁, rfl, rfl⟩

/-- Where no record was, one was written by way of its scratch file. -/
theorem hasRoom_of_recordOnce {record : EngineRecord} {wrote : Bool}
    (h : d.recordOnce record t = .ok wrote u) (hmissing : t.exists d.recordPath = false) :
    ((d.partitionPath metadataId).join recordScratchName).HasRoom 0 := by
  rw [recordOnce, Action.bind_of_ok (Action.get_apply t), if_neg (by simp [hmissing])] at h
  obtain ⟨_, t₁, -, h⟩ := Action.bind_eq_ok_iff.1 h
  obtain ⟨_, t₂, hwrite, -⟩ := Action.bind_eq_ok_iff.1 h
  rw [EngineRecord.write, withExtension_recordPath] at hwrite
  refine Path.hasRoom_of_checkText ?_ (Path.endsWithSlash_join _ (by decide))
  cases hreplace : Files.replace d.recordPath ((d.partitionPath metadataId).join recordScratchName)
      record.bytes t₁ with
  | ok _ t₂ => exact checkText_of_replace hreplace
  | error e t₂ =>
      rw [StoreAction.io_of_error hreplace] at hwrite
      cases hwrite

theorem exists_of_keepRecord (hmetadata : c.withMetadata = true)
    (h : Engine.keepRecord d c t = .ok () u) :
    ∃ wrote, d.recordOnce c.record t = .ok wrote u := by
  rw [Engine.keepRecord, if_pos hmetadata] at h
  obtain ⟨wrote, t', hduring, hpure⟩ := Action.bind_eq_ok_iff.1 h
  cases hpure
  rw [StoreAction.during] at hduring
  split at hduring
  · rename_i hrecord
    cases hduring
    exact ⟨wrote, hrecord⟩
  · cases hduring
  · cases hduring

/-! ### The new folder -/

/-- The folder that was made is led to, and empty. -/
theorem Fresh.leadsTo (fresh : Fresh c t) (hnamed : StoreFolder.named c.root c.store = .ok d)
    (h : Engine.prepare d c t = .ok () u) :
    ∃ loc, u.LeadsTo d.path loc ∧ ∀ name, u.node? (name :: loc) = none := by
  obtain ⟨hroot, hstore⟩ := store_of_named hnamed
  have hpath : d.path = storePath c.root c.store := by rw [StoreFolder.path, hroot, hstore]
  have hmade := createDirAll_of_prepare (by simp [isThere, hpath, fresh.absent]) h
  have hlist : u.list d.path = .ok [] := hpath ▸ fresh.empty u (hpath ▸ hmade)
  exact leadsTo_of_list_nil
    (Path.endsWithSlash_join _ (isPlainName_of_isStoreName d.isStoreName)) hlist

/-- An empty folder holds no partitions and no record. -/
theorem disk_of_empty (lead : u.LeadsTo d.path loc) (hempty : ∀ name, u.node? (name :: loc) = none)
    (usable : isEntryName (dirName d.store metadataId) = true)
    (room : (d.partitionPath metadataId).HasRoom 17) :
    Disk c d loc u (fun _ => False) fun _ => SortedMap.empty := by
  have hbelow : ∀ file name, u.node? (file :: name :: loc) = none := fun file name =>
    node?_of_inside hempty (Location.inside_cons_cons ..)
  exact ⟨lead, usable, room, fun _ h => h.elim, fun _ h => h.elim,
    fun name hname => absurd (hempty name) hname, .inl (hbelow _ _), takesFile_of_none (hbelow _ _)⟩

/-- There is nothing to be found in it. -/
theorem idsOnDisk_of_empty {partitions : List Partition} (lead : u.LeadsTo d.path loc)
    (hempty : ∀ name, u.node? (name :: loc) = none) :
    Backend.table.idsOnDisk d ⟨u, partitions⟩ = .ok [] ⟨u, partitions⟩ := by
  obtain ⟨found, hfound, -, hmem⟩ := idsOnDisk_ok lead
  have hnone : found = [] := List.eq_nil_iff_forall_not_mem.2 fun id hid => by
    simpa [StoreFolder.Lists, hempty] using (hmem id).1 hid
  exact HostAction.onTree_of_ok (hnone ▸ hfound)

/-- What success on an empty folder tells: the metadata partition was made, and nothing else. -/
theorem exists_of_openAll {partitions : List Partition} {registry : List (Int32 × Handle)}
    (lead : u.LeadsTo d.path loc) (hempty : ∀ name, u.node? (name :: loc) = none)
    (hmetadata : c.withMetadata = true)
    (h : Restore.openAll Backend.table d c ⟨u, partitions⟩ = .ok registry host') :
    ∃ part, openTable (d.partitionPath metadataId) (c.spec metadataId) u =
      .ok part host'.tree := by
  rw [Restore.openAll, Action.bind_of_ok (idsOnDisk_of_empty lead hempty), if_pos hmetadata] at h
  obtain ⟨metadata, host₁, hopen, h⟩ := Action.bind_eq_ok_iff.1 h
  -- There are no others to be opened, whether they are asked for or not.
  have hsame : host₁ = host' := by
    cases hdata : c.withData <;> simp only [hdata, if_true] at h <;> cases h <;> rfl
  subst hsame
  obtain ⟨handle, host₂, hattach, hrest⟩ := Action.bind_eq_ok_iff.1 hopen
  cases hrest
  obtain ⟨part, hmade⟩ := Backend.exists_of_attach_table hattach
  exact ⟨part, hmade⟩

/-- What success tells of the paths: that the metadata partition could be made and the record
written in it. -/
theorem hasRoom_of_openMetadata (lead : u.LeadsTo d.path loc)
    (hempty : ∀ name, u.node? (name :: loc) = none) {part : Partition} {t₁ : FileTree}
    {wrote : Bool} {record : EngineRecord}
    (hopen : openTable (d.partitionPath metadataId) (c.spec metadataId) u = .ok part t)
    (hrecord : d.recordOnce record t = .ok wrote t₁) :
    isEntryName (dirName d.store metadataId) = true ∧ (d.partitionPath metadataId).HasRoom 17 := by
  -- The record is there or could be written, so its own path is short enough.
  have hroom : (d.partitionPath metadataId).HasRoom 13 := by
    cases hthere : t.exists d.recordPath with
    | true =>
        exact (hasRoom_recordPath_iff d).1 (Path.hasRoom_of_checkText (checkText_of_exists hthere)
          (Path.endsWithSlash_join _ (by decide)))
    | false =>
        exact ((hasRoom_recordScratch_iff d).1 (hasRoom_of_recordOnce hrecord hthere)).mono
          (by omega)
  have usable : isEntryName (dirName d.store metadataId) = true := by
    by_contra hname
    have hfail := openTable_of_unusable (c.spec metadataId) lead (hroom.mono (by omega))
      (isPlainName_dir d metadataId) (by simpa using hname)
    cases hopen.symm.trans hfail
  refine ⟨usable, ?_⟩
  -- In fact it is not there yet, and was written by way of its scratch file.
  obtain ⟨t', hmade, htable, hsame⟩ :=
    openTable_of_none (c.spec metadataId) lead (hroom.mono (by omega)) usable (hempty _)
  cases hopen.symm.trans hmade
  have hnone : t.node? (recordFileName :: dirName d.store metadataId :: loc) = none := by
    rw [hsame _ (fun e => List.cons_ne_self _ _ e) fun e => absurd (List.cons.inj e).1 (by decide)]
    exact node?_of_inside hempty (Location.inside_cons_cons ..)
  have lead' : t.LeadsTo d.path loc :=
    lead.congr_of_ne (Location.inside_cons ..) (Location.inside_cons_cons ..) hsame
  have hmissing := (readRecord_of_none lead' hroom usable (.inr htable.isDir) hnone).1
  exact (hasRoom_recordScratch_iff d).1 (hasRoom_of_recordOnce hrecord hmissing)

/-- An engine that came up on a new store has the metadata partition alone, which is empty,
and its record is on disk. -/
theorem sound_of_open (fresh : Fresh c host.tree) (hkind : c.backend = .table)
    (hmetadata : c.withMetadata = true) {e : Engine}
    (h : Engine.open c host = .ok e host') :
    ∃ d loc, StoreFolder.named c.root c.store = .ok d ∧
      Sound c d loc (fun _ => SortedMap.empty) ⟨e, host'⟩ ∧
      (∀ id, id ∈ e.openIds ↔ id = metadataId) ∧
      (∀ id h, (id, h) ∈ e.registry →
        host'.partition h = restored c d (fun _ => SortedMap.empty) id) ∧
      host'.tree.node? (recordFileName :: dirName d.store metadataId :: loc) =
        some (.file c.record.bytes) := by
  obtain ⟨d, u, registry, host₁, t₁, hnamed, hprepare, hopenAll, hkeep, hhost, -⟩ :=
    exists_of_open h
  obtain ⟨loc, lead, hempty⟩ := fresh.leadsTo hnamed hprepare
  rw [hkind] at hopenAll
  obtain ⟨part, hopen⟩ := exists_of_openAll lead hempty hmetadata hopenAll
  obtain ⟨wrote, hrecord⟩ := exists_of_keepRecord hmetadata hkeep
  obtain ⟨usable, hroom⟩ := hasRoom_of_openMetadata lead hempty hopen hrecord
  -- With that the opening is one that is known to succeed, and it has just one result.
  obtain ⟨e', host'', hopen', hsound, hids, hrestored, hfile⟩ :=
    (disk_of_empty lead hempty usable hroom).open_of_prepared hnamed hkind hmetadata
      (.inr fun _ h => h.elim) hprepare fun _ => rfl
  cases h.symm.trans hopen'
  exact ⟨d, loc, hnamed, hsound, fun id => by rw [hids]; simp, hrestored, hfile⟩

/-! ### Roots that are there -/

/-- Where the root is a directory without anything of the store's name, the store is new. -/
theorem fresh_of_leadsTo (lead : t.LeadsTo c.root loc) (hname : isEntryName c.store = true)
    (hnone : t.node? (c.store :: loc) = none) (room : (storePath c.root c.store).HasRoom 0) :
    Fresh c t := by
  have hentry : t.NamesEntry (storePath c.root c.store) loc c.store :=
    lead.namesEntry hname room
  refine ⟨hentry.exists_of_none hnone, ?_⟩
  intro u hmake
  cases hmake.symm.trans (createDirAll_ok hentry hnone)
  have hdir : (t.place loc c.store .dir).node? (c.store :: loc) = some .dir :=
    node?_place_self hname lead.isDir_node (by simp [hnone])
  have lead' : (t.place loc c.store .dir).LeadsTo c.root loc := lead.congr fun l hl =>
    node?_place_of_ne _ _ _ _ fun e => hl (e ▸ Location.inside_cons ..)
  refine (lead'.join hdir room).list.trans ?_
  -- Whatever was in the new directory would have been below nothing.
  refine congrArg Except.ok (List.eq_nil_iff_forall_not_mem.2 fun entry hentry => ?_)
  have hsome := (mem_children_iff hdir).1 hentry
  rw [node?_place_of_ne _ _ _ _ fun e => List.cons_ne_self _ _ e] at hsome
  have hbelow : t.node? ([entry.1] ++ c.store :: loc) = none :=
    node?_below (by simp [hnone]) (by simp)
  cases hbelow.symm.trans hsome

/-- Such a store comes up if its paths are not too long. -/
theorem open_of_leadsTo (lead : host.tree.LeadsTo c.root loc)
    (hnone : host.tree.node? (c.store :: loc) = none)
    (hnamed : StoreFolder.named c.root c.store = .ok d) (hname : isEntryName c.store = true)
    (usable : isEntryName (dirName d.store metadataId) = true)
    (room : (d.partitionPath metadataId).HasRoom 17) (hkind : c.backend = .table)
    (hmetadata : c.withMetadata = true) : ∃ e host', Engine.open c host = .ok e host' := by
  obtain ⟨hroot, hstore⟩ := store_of_named hnamed
  have hpath : d.path = storePath c.root c.store := by rw [StoreFolder.path, hroot, hstore]
  have hroom : d.path.HasRoom 0 :=
    ((hasRoom_partitionPath_iff d metadataId).1 room).1.mono (by omega)
  have fresh := fresh_of_leadsTo lead hname hnone (hpath ▸ hroom)
  have hmake : Files.createDirAll d.path host.tree =
      .ok () (host.tree.place loc c.store .dir) := by
    rw [hpath] at hroom ⊢
    exact createDirAll_ok (lead.namesEntry hname hroom) hnone
  have hensure : d.ensure host.tree = .ok true (host.tree.place loc c.store .dir) := by
    have habsent : ¬d.isThere host.tree = true := by simp [isThere, hpath, fresh.absent]
    rw [ensure, Action.bind_of_ok (Action.get_apply _), if_neg habsent,
      Action.bind_of_ok (StoreAction.ofFiles_of_ok hmake)]
    rfl
  have hprepare : Engine.prepare d c host.tree = .ok () (host.tree.place loc c.store .dir) := by
    rw [Engine.prepare, Action.bind_of_ok hensure]
    rfl
  obtain ⟨loc', lead', hempty⟩ := fresh.leadsTo hnamed hprepare
  obtain ⟨e, host', hopen, -⟩ := (disk_of_empty lead' hempty usable room).open_of_prepared hnamed
    hkind hmetadata (.inr fun _ h => h.elim) hprepare fun _ => rfl
  exact ⟨e, host', hopen⟩

/-- The default settings, for the store `s` under a root. -/
def settingsUnder (root : Path) : EngineSettings :=
  { EngineSettings.default with root, store := "s" }

theorem readsBack_settingsUnder (root : Path) : (settingsUnder root).ReadsBack :=
  have : EngineSettings.default.ReadsBack := by decide +kernel
  this

/-- At the top of an empty tree a store is new, and comes up. -/
theorem open_here (c : EngineSettings) (hroot : c.root = ⟨"."⟩) (hstore : c.store = "s")
    (hkind : c.backend = .table) (hmetadata : c.withMetadata = true) :
    Fresh c FileTree.empty ∧ ∃ e host, Engine.open c (Host.ofTree FileTree.empty) = .ok e host := by
  have lead : FileTree.empty.LeadsTo c.root [] :=
    hroot ▸ FileTree.empty.leadsTo_dots (n := 0) (by decide)
  have hfolder : (storePath c.root c.store).HasRoom 0 := by
    rw [hroot, hstore]
    exact Path.hasRoom_of_checkText rfl rfl
  have hname : isEntryName c.store = true := by
    rw [hstore]
    decide
  have hnamed : StoreFolder.named c.root c.store = .ok ⟨⟨"."⟩, "s", by decide⟩ := by
    rw [hroot, hstore]
    rfl
  have hroom : (Naming.partitionPath ⟨"."⟩ "s" metadataId).HasRoom 17 :=
    ⟨by decide, by decide, by decide, by decide⟩
  exact ⟨fresh_of_leadsTo lead hname rfl hfolder,
    open_of_leadsTo lead rfl hnamed hname (by decide) hroom hkind hmetadata⟩

end PartitionStore
