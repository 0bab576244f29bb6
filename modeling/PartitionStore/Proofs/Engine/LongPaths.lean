import PartitionStore.Proofs.Engine.Fresh
import PartitionStore.Proofs.Engine.Requests

/-!
# `PartitionStore.Proofs.Engine.LongPaths`: partitions without room for their files

The path of a partition's directory may be one that the file system takes while
those of the files in it are too long. Such a partition is not made, but its
directory is, and stays behind. A later opening finds it, and fails on it.

* `hasRoom_of_openAll`: a store only comes up if there is room in all directories
  that were found.
* `Sound.not_open_of_long`: after such a partition was asked for, no opening succeeds.
-/

set_option autoImplicit false

namespace PartitionStore

open FileTree Naming PartitionStore.Partition StoreFolder

variable {c : EngineSettings} {d : StoreFolder} {loc : Location} {host host' : Host}
  {r : Running} {id : Int32} {flushed : Int32 → SortedMap Bytes Bytes}

/-! ### What success tells of the directories -/

theorem hasRoom_of_attach {h : Handle}
    (hattach : Backend.table.attach d (c.spec id) host = .ok h host') :
    (d.partitionPath id).HasRoom 9 := by
  obtain ⟨part, hopen⟩ := Backend.exists_of_attach_table hattach
  exact hasRoom_of_openTable (text_partitionPath_ne d id) (endsWithSlash_partitionPath d id) hopen

/-- A store comes up only if there is room for files in every directory that is found in its
folder. -/
theorem hasRoom_of_openAll {registry : List (Int32 × Handle)} (lead : host.tree.LeadsTo d.path loc)
    (hmetadata : c.withMetadata = true) (hdata : c.withData = true)
    (hdir : host.tree.node? (dirName d.store id :: loc) = some .dir)
    (hid : id ≠ metadataId)
    (h : Restore.openAll Backend.table d c host = .ok registry host') :
    (d.partitionPath id).HasRoom 9 := by
  obtain ⟨found, hfound, -, hmem⟩ := idsOnDisk_ok lead
  have hfoundHost : Backend.table.idsOnDisk d host = .ok found host :=
    HostAction.onTree_of_ok hfound
  rw [Restore.openAll, Action.bind_of_ok hfoundHost, if_pos hmetadata] at h
  obtain ⟨metadata, host₁, -, h⟩ := Action.bind_eq_ok_iff.1 h
  simp only [if_pos hdata] at h
  obtain ⟨data, host₂, hopen, -⟩ := Action.bind_eq_ok_iff.1 h
  rw [Restore.openData] at hopen
  refine forall_of_openStretches (fun id => (d.partitionPath id).HasRoom 9) (fun _ => True)
    (fun _ _ _ _ _ _ hattach => ⟨hasRoom_of_attach hattach, trivial⟩) trivial hopen id ?_
  rw [flatten_stretches, List.mem_filter]
  exact ⟨(hmem id).2 (lists_of_dir hdir), bne_iff_ne.2 hid⟩

/-! ### Directories that stay behind -/

/-- A partition without room for its files is not made, and the store does not come up any more
on what that leaves behind. -/
theorem Sound.not_open_of_long (sound : Sound c d loc flushed r)
    (hnamed : StoreFolder.named c.root c.store = .ok d) (hkind : c.backend = .table)
    (hset : c.withMetadata = true) (hdata : c.withData = true) (hrecord : c.ReadsBack)
    (hid : id ∉ r.engine.openIds) (hname : isEntryName (dirName d.store id) = true)
    (room : (d.partitionPath id).HasRoom 0) (hlong : ¬(d.partitionPath id).HasRoom 9) :
    ∃ e r', EngineAction.addPartition id r = .error e r' ∧ r'.engine = r.engine ∧
      ∀ partitions e' host', Engine.open c ⟨r'.host.tree, partitions⟩ ≠ .ok e' host' := by
  have lead := sound.disk.lead
  have hnone := sound.disk.node?_of_not hid
  obtain ⟨failure, t, hopen, ht⟩ : ∃ failure t,
      openTable (d.partitionPath id) (c.spec id) r.host.tree = .error failure t ∧
        t = r.host.tree.place loc (dirName d.store id) .dir := by
    obtain ⟨failure, hopen⟩ := @openTable_of_long r.host.tree d.path loc (dirName d.store id)
      (c.spec id) lead room hlong hname hnone
    exact ⟨failure, _, hopen, rfl⟩
  have hattach : Backend.table.attach d (c.spec id) r.host =
      .error failure ⟨t, r.host.partitions⟩ := by
    rw [@Backend.attach_table d (c.spec id) sound.store]
    exact HostAction.register_of_error hopen
  refine ⟨failure, ⟨r.engine, ⟨t, r.host.partitions⟩⟩, ?_, rfl, ?_⟩
  · rw [sound.addPartition_eq (mt Engine.mem_openIds_iff.2 hid), hattach]
  intro partitions e' host' hup
  -- The new directory is all that changed, and it is not that of the metadata partition.
  have hmetadata : id ≠ metadataId := by
    rintro rfl
    exact hlong (sound.disk.recordRoom.mono (by omega))
  have hdir : t.node? (dirName d.store id :: loc) = some .dir :=
    ht ▸ node?_place_self hname lead.isDir_node (by simp [hnone])
  have same : ∀ l, l ≠ dirName d.store id :: loc → t.node? l = r.host.tree.node? l :=
    fun l hl => ht ▸ node?_place_of_ne _ _ _ _ hl
  have hmetadataDir : t.node? (dirName d.store metadataId :: loc) =
      r.host.tree.node? (dirName d.store metadataId :: loc) :=
    same _ fun e => hmetadata (dirName_injective (List.cons.inj e).1).symm
  have hrecordFile : t.node? (recordFileName :: dirName d.store metadataId :: loc) =
      r.host.tree.node? (recordFileName :: dirName d.store metadataId :: loc) :=
    same _ fun e => by simpa using congrArg List.length e
  have lead' : t.LeadsTo d.path loc := lead.congr fun l hl => same l fun e =>
    hl (e ▸ Location.inside_cons ..)
  have hprepare : Engine.prepare d c t = .ok () t := by
    refine prepare_of_leadsTo lead' (sound.disk.recordRoom.mono (by omega)) sound.disk.usable ?_ ?_
      hrecord
    · rw [hmetadataDir]
      exact sound.disk.metadataDir
    · rw [hrecordFile]
      exact sound.disk.record
  -- So an opening gets as far as that directory.
  obtain ⟨d', t', registry, host₁, -, hnamed', hprepare', hopenAll, -⟩ := exists_of_open hup
  cases hnamed.symm.trans hnamed'
  cases hprepare.symm.trans hprepare'
  rw [hkind] at hopenAll
  exact hlong (@hasRoom_of_openAll c d loc ⟨t, partitions⟩ host₁ id registry lead' hset hdata hdir
    hmetadata hopenAll)

/-- Below a path there is a slash, the store's name, a slash, and the directory's name. -/
theorem hasRoom_partitionPath_settingsUnder_iff {p : Path} {m n : Nat} (room : p.HasRoom m)
    (hnamed : StoreFolder.named p "s" = .ok d) :
    (d.partitionPath id).HasRoom n ↔
      p.text.utf8ByteSize + 3 + (dirName "s" id).utf8ByteSize + n ≤ Path.maxBytes ∧
        Char.ofNat 0 ∉ (dirName "s" id).toList := by
  obtain ⟨hroot, hstore⟩ := store_of_named hnamed
  have hpath : d.path = p.join "s" := by
    rw [StoreFolder.path, hroot, ← hstore]
    rfl
  have hone : "s".utf8ByteSize = 1 := rfl
  have hnul : Char.ofNat 0 ∉ "s".toList := by decide
  rw [hasRoom_partitionPath_iff, hpath, ← hstore, Path.hasRoom_join_iff room.nonempty room.noSlash
    (by decide), room.iff_short, hone, and_iff_left hnul]
  refine and_congr_left fun _ => ?_
  omega

/-- Below a path of this length there is room for the record's scratch file, to the byte, and none
for the files of the partition with the longest id. -/
theorem not_open_of_size {p : Path} (lead : FileTree.empty.LeadsTo p [])
    (hsize : p.text.utf8ByteSize = 4071) :
    Fresh (settingsUnder p) FileTree.empty ∧
      ∃ e host failure r, Engine.open (settingsUnder p) (Host.ofTree FileTree.empty) = .ok e host ∧
        EngineAction.addPartition (-2147483648) ⟨e, host⟩ = .error failure r ∧
        ∀ partitions e' host', Engine.open (settingsUnder p) ⟨r.host.tree, partitions⟩ ≠
          .ok e' host' := by
  have hname : isEntryName "s" = true := by decide
  obtain ⟨d, hnamed⟩ : ∃ d, StoreFolder.named (settingsUnder p).root "s" = .ok d := ⟨_, rfl⟩
  obtain ⟨-, hstore⟩ := store_of_named hnamed
  have hfolder : (p.join "s").HasRoom 0 :=
    (Path.hasRoom_join_iff lead.room.nonempty lead.room.noSlash
      (isPlainName_of_isEntryName hname)).2
      ⟨lead.room.iff_short.2 (hsize ▸ by decide), by decide⟩
  have hdir (id : Int32) (n : Nat) : (d.partitionPath id).HasRoom n ↔
      4074 + (dirName "s" id).utf8ByteSize + n ≤ Path.maxBytes ∧
        Char.ofNat 0 ∉ (dirName "s" id).toList := by
    rw [hasRoom_partitionPath_settingsUnder_iff lead.room hnamed, hsize]
  -- The longest file below the metadata partition takes 17 bytes, and 4095 are taken in all.
  have hshort : (dirName "s" metadataId).utf8ByteSize = 4 := by decide +kernel
  have hlong : (dirName "s" (-2147483648)).utf8ByteSize = 13 := by decide +kernel
  have fresh : Fresh (settingsUnder p) (Host.ofTree FileTree.empty).tree :=
    fresh_of_leadsTo lead hname rfl hfolder
  have usable (id : Int32) (h : isEntryName (dirName "s" id) = true) :
      isEntryName (dirName d.store id) = true := hstore ▸ h
  obtain ⟨e, host, hopen⟩ := @open_of_leadsTo (settingsUnder p) d [] (Host.ofTree FileTree.empty)
    lead rfl hnamed hname (usable _ (by decide))
    ((hdir _ _).2 ⟨by rw [hshort]; decide, by decide +kernel⟩) rfl rfl
  -- The engine that came up is asked for the longest id, which it does not have.
  obtain ⟨d', loc, hnamed', sound, hids, -⟩ := sound_of_open fresh rfl rfl hopen
  obtain rfl : d = d' := Except.ok.inj (hnamed.symm.trans hnamed')
  have hnew : (-2147483648 : Int32) ∉ e.openIds := fun h => absurd ((hids _).1 h) (by decide)
  obtain ⟨failure, r, hadd, -, hnever⟩ := sound.not_open_of_long hnamed rfl rfl rfl
    (readsBack_settingsUnder p) hnew (usable _ (by decide +kernel))
    ((hdir _ _).2 ⟨by rw [hlong]; decide, by decide +kernel⟩)
    fun h => absurd ((hdir _ _).1 h).1 (by rw [hlong]; decide)
  exact ⟨fresh, e, host, failure, r, hopen, hadd, hnever⟩

end PartitionStore
