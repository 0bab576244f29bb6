import PartitionStore.Proofs.EngineRecord.Lines
import PartitionStore.Proofs.FileTree.Directory
import PartitionStore.Proofs.Naming
import PartitionStore.Proofs.SortedMap
import PartitionStore.StoreFolder

/-!
# `PartitionStore.Proofs.StoreFolder`: a store's folder that is there

All of this is about a folder whose path leads to a directory (`LeadsTo`), and
about what that directory has: directories named for partitions, and the engine
record in that of the metadata partition.

* `idsOnDisk_ok`: exactly the partitions are found that the folder lists (`Lists`).
* `guard_eq`: what the format guard does hangs on the record that is read.
* `recordOnce_ok`: writing a record where there is none.
-/

set_option autoImplicit false

namespace PartitionStore.StoreFolder

open FileTree Naming

/-- The folder at `loc` has a directory whose name reads like that of the partition's. A partition
that has a directory is listed; one that has none may be, by a name that is no text. -/
def Lists (d : StoreFolder) (t : FileTree) (loc : Location) (id : Int32) : Prop :=
  ∃ name, FileName.reading name = dirName d.store id ∧ t.node? (name :: loc) = some .dir

/-- The name of the file beside the engine record. -/
def recordScratchName : String := "engineConfig.tmp"

section

variable {t u : FileTree} {d : StoreFolder} {loc : Location} {record : EngineRecord}

/-- The folder of a store has the root and the name that it was asked for with. -/
theorem store_of_named {root : Path} {store : String} (h : StoreFolder.named root store = .ok d) :
    d.root = root ∧ store = d.store := by
  rw [StoreFolder.named] at h
  split at h
  · cases h
    exact ⟨rfl, rfl⟩
  · cases h

/-- The name of a partition's directory is one step down, as that of the store is. -/
theorem isPlainName_dir (d : StoreFolder) (id : Int32) :
    Path.isPlainName (dirName d.store id) = true := isPlainName_dirName d.isStoreName id

/-- The path of the folder ends in the store's name. -/
theorem getLast?_path (d : StoreFolder) : d.path.steps.getLast? = some (.down d.store) := by
  rw [path, storePath, Path.steps_join (isPlainName_of_isStoreName d.isStoreName)]
  simp

/-- So it ends in no slash. -/
theorem endsWithSlash_path (d : StoreFolder) : d.path.endsWithSlash = false :=
  Path.endsWithSlash_join _ (isPlainName_of_isStoreName d.isStoreName)

/-- A folder that is a directory is there. -/
theorem isThere_of_isDir (h : t.isDir d.path = true) : d.isThere t = true := by
  rw [isThere, FileTree.exists]
  rw [FileTree.isDir] at h
  cases hfind : t.find .followed d.path with
  | ok found => rfl
  | error e => simp [hfind] at h

/-- A folder that is there is left as it is. -/
theorem ensure_of_isDir (h : t.isDir d.path = true) : d.ensure t = .ok false t := by
  rw [ensure, Action.bind_of_ok (Action.get_apply t), if_pos (isThere_of_isDir h), if_pos h]
  rfl

/-- A folder that is led to need not be made. -/
theorem ensure_of_leadsTo (lead : t.LeadsTo d.path loc) : d.ensure t = .ok false t :=
  ensure_of_isDir lead.isDir

/-! ### Partitions -/

/-- The name of a partition's directory is a text. -/
theorem mark_not_mem_dirName (d : StoreFolder) (id : Int32) :
    FileName.mark ∉ (dirName d.store id).toList := not_mem_nul_dirName d.isStoreName id

/-- A partition that has a directory is listed. -/
theorem lists_of_dir {id : Int32} (h : t.node? (dirName d.store id :: loc) = some .dir) :
    d.Lists t loc id :=
  ⟨_, FileName.reading_of_text (d.mark_not_mem_dirName id), h⟩

/-- A byte that begins no character, and `_5`. That is read as the name of the directory of
partition 5 in a store whose name is U+FFFD. -/
def misreadName : String := FileName.ofBytes [0xFF, 0x5F, 0x35]

/-- The folder of such a store. -/
def misreadFolder : StoreFolder := ⟨⟨"."⟩, String.singleton FileName.replacement, by decide⟩

/-- The folder at the top, with the directory of that name in it and nothing else. -/
def misreadTree : FileTree :=
  (FileTree.empty.place [] misreadFolder.store .dir).place [misreadFolder.store] misreadName .dir

/-- Partition 5 is listed there and has no directory. -/
theorem lists_misreadTree : misreadFolder.Lists misreadTree [misreadFolder.store] 5 ∧
    misreadTree.node? [dirName misreadFolder.store 5, misreadFolder.store] = none :=
  ⟨⟨misreadName, by decide +kernel, by decide +kernel⟩, by decide +kernel⟩

/-- An id is found exactly if there is a directory whose name reads like that of its partition. -/
theorem mem_idsOf_iff {store : String} {entries : List (String × Node)} {id : Int32} :
    id ∈ idsOf store entries ↔
      ∃ name, FileName.reading name = dirName store id ∧ (name, Node.dir) ∈ entries := by
  rw [idsOf, SortedMap.mem_keys_ofList_iff, List.mem_filterMap]
  constructor
  · rintro ⟨⟨name, node⟩, hmem, h⟩
    simp only at h
    split at h
    · rename_i hdir
      exact ⟨name, idOfDirName?_eq_some_iff.1 h, hdir ▸ hmem⟩
    · simp at h
  · rintro ⟨name, hname, hmem⟩
    exact ⟨_, hmem, by simp [idOfDirName?_eq_some_iff, hname]⟩

/-- Exactly the partitions that the folder lists are found, in ascending order. -/
theorem idsOnDisk_of_find (hfind : t.find .followed d.path = .ok (loc, .dir))
    (hdir : t.node? loc = some .dir) :
    ∃ ids, d.idsOnDisk t = .ok ids t ∧ ids.Pairwise (fun a b => compare a b = .lt) ∧
      ∀ id, id ∈ ids ↔ d.Lists t loc id := by
  have hisDir : t.isDir d.path = true := by rw [FileTree.isDir, hfind]
  have hthere := isThere_of_isDir hisDir
  have hlist : t.list d.path = .ok (t.children loc) := by
    rw [FileTree.list, hfind]
    rfl
  refine ⟨idsOf d.store (t.children loc), ?_, SortedMap.keys_ascending _, fun id => ?_⟩
  · rw [idsOnDisk, Action.bind_of_ok (Action.get_apply t), if_neg (by simp [hthere]),
      if_neg (by simp [hisDir]),
      Action.bind_of_ok (StoreAction.io_of_ok (Files.ask_of_ok hlist))]
    rfl
  · rw [mem_idsOf_iff, Lists]
    simp only [mem_children_iff hdir]

/-- In a folder that is led to the ids are found, in ascending order: exactly those that it lists.
-/
theorem idsOnDisk_ok (lead : t.LeadsTo d.path loc) :
    ∃ ids, d.idsOnDisk t = .ok ids t ∧ ids.Pairwise (fun a b => compare a b = .lt) ∧
      ∀ id, id ∈ ids ↔ d.Lists t loc id :=
  idsOnDisk_of_find lead.find lead.isDir_node

/-! ### The engine record -/

/-- The folder has room for a slash and the directory's name before the partition has any. -/
theorem hasRoom_partitionPath_iff (d : StoreFolder) (id : Int32) {n : Nat} :
    (d.partitionPath id).HasRoom n ↔
      d.path.HasRoom (1 + (dirName d.store id).utf8ByteSize + n) ∧
        Char.ofNat 0 ∉ (dirName d.store id).toList :=
  have hstore := isPlainName_of_isStoreName d.isStoreName
  Path.hasRoom_join_iff (Path.text_join_ne _ hstore) (Path.endsWithSlash_join _ hstore)
    (isPlainName_dir d id)

/-- The path of a partition's directory is not empty. -/
theorem text_partitionPath_ne (d : StoreFolder) (id : Int32) : (d.partitionPath id).text ≠ "" :=
  Path.text_join_ne _ (isPlainName_dir d id)

/-- The path of a partition's directory ends in no slash. -/
theorem endsWithSlash_partitionPath (d : StoreFolder) (id : Int32) :
    (d.partitionPath id).endsWithSlash = false := Path.endsWithSlash_join _ (isPlainName_dir d id)

/-- Thirteen bytes are enough for a slash and the record's name, and four more for the
scratch file's. -/
theorem hasRoom_recordPath_iff (d : StoreFolder) :
    d.recordPath.HasRoom 0 ↔ (d.partitionPath metadataId).HasRoom 13 := by
  rw [recordPath, Path.hasRoom_join_iff (text_partitionPath_ne d _)
    (endsWithSlash_partitionPath d _) (by decide)]
  exact and_iff_left (by decide)

/-- The scratch file of the record has the longest name in the directory, 16 bytes and a slash. -/
theorem hasRoom_recordScratch_iff (d : StoreFolder) :
    ((d.partitionPath metadataId).join recordScratchName).HasRoom 0 ↔
      (d.partitionPath metadataId).HasRoom 17 := by
  rw [Path.hasRoom_join_iff (text_partitionPath_ne d _) (endsWithSlash_partitionPath d _)
    (by decide)]
  exact and_iff_left (by decide)

/-- The scratch file is beside the record, with the new extension behind its whole name, which has
no point. -/
theorem withExtension_recordPath (d : StoreFolder) :
    d.recordPath.withExtension "tmp" = (d.partitionPath metadataId).join recordScratchName :=
  Path.withExtension_join _ (by decide) (by decide) (by decide) (by decide)

/-- Where the metadata partition's directory is led to, and there is room for the record's name, the
path names the record. -/
theorem namesEntry_recordPath
    (lead : t.LeadsTo (d.partitionPath metadataId) (dirName d.store metadataId :: loc))
    (room : (d.partitionPath metadataId).HasRoom 13) :
    t.NamesEntry d.recordPath (dirName d.store metadataId :: loc) recordFileName :=
  lead.namesEntry (by decide) ((hasRoom_recordPath_iff d).2 room)

/-- A record that is there is read as what its text says. -/
theorem readRecord_of_file (lead : t.LeadsTo d.path loc)
    (room : (d.partitionPath metadataId).HasRoom 13)
    (file : t.node? (recordFileName :: dirName d.store metadataId :: loc) =
      some (.file record.bytes)) :
    t.exists d.recordPath = true ∧
      d.readRecord t = .ok (EngineRecord.parse? record.properties) t := by
  have hentry := namesEntry_recordPath
    (lead.join (node?_parent_of_node? file) (room.mono (by omega))) room
  have hread : EngineRecord.readText t d.recordPath = .ok record.properties := by
    have hdecode := Text.decode?_encode record.properties
    rw [EngineRecord.readText, hentry.read file, EngineRecord.bytes]
    simp only [bind, Except.bind, hdecode]
  refine ⟨hentry.exists_of_some file (by simp), ?_⟩
  rw [readRecord, EngineRecord.read]
  exact StoreAction.io_of_ok (Files.ask_of_ok (by rw [EngineRecord.readFrom, hread]))

/-- There is no record where there is no file, be there a directory for it or not. -/
theorem readRecord_of_none (lead : t.LeadsTo d.path loc)
    (room : (d.partitionPath metadataId).HasRoom 13)
    (usable : isEntryName (dirName d.store metadataId) = true)
    (dir : t.node? (dirName d.store metadataId :: loc) = none ∨
      t.node? (dirName d.store metadataId :: loc) = some .dir)
    (none : t.node? (recordFileName :: dirName d.store metadataId :: loc) = none) :
    t.exists d.recordPath = false ∧ d.readRecord t = .ok .none t := by
  -- Without its directory the name of that decides, and with it the name of the file.
  have hfind : t.find .followed d.recordPath = .error .notFound := by
    rcases dir with hdir | hdir
    · have hbelow := lead.find_below_none (isPlainName_dir d metadataId) hdir (by decide)
        ((hasRoom_recordPath_iff d).2 room) .followed
      rwa [if_pos usable] at hbelow
    · exact (namesEntry_recordPath (lead.join hdir (room.mono (by omega))) room).find_of_none
        .followed none
  have hread : EngineRecord.readText t d.recordPath = .error .notFound := by
    rw [EngineRecord.readText, FileTree.read, hfind]
    rfl
  refine ⟨by rw [FileTree.exists, hfind]; rfl, ?_⟩
  rw [readRecord, EngineRecord.read]
  exact StoreAction.io_of_ok (Files.ask_of_ok (by rw [EngineRecord.readFrom, hread]))

/-- What the format guard does hangs on the record that is read. -/
theorem guard_eq {found : Option EngineRecord} (h : d.readRecord t = .ok found t)
    (format : TableFormat) :
    d.guard format t = match found.bind EngineRecord.format? with
      | none => .ok .noRecord t
      | some recorded =>
        if recorded = format then .ok .sameFormat t
        else (do d.empty; pure (GuardVerdict.emptied recorded)) t := by
  have hduring : StoreAction.during (.readRecord d.recordPath) d.readRecord t = .ok found t := by
    simp only [StoreAction.during, h]
  rw [guard, Action.bind_of_ok hduring]
  cases found with
  | none => rfl
  | some r =>
      simp only [Option.bind_some]
      cases r.format? with
      | none => rfl
      | some recorded =>
          simp only
          split <;> rfl

/-- The guard is content exactly with a record of the format, and then nothing changes. -/
theorem guard_eq_sameFormat_iff {found : Option EngineRecord} (h : d.readRecord t = .ok found t)
    {format : TableFormat} :
    d.guard format t = .ok .sameFormat t ↔ found.bind EngineRecord.format? = some format := by
  rw [guard_eq h]
  cases found.bind EngineRecord.format? with
  | none => simp
  | some recorded =>
      simp only [Option.some.injEq]
      split
      · rename_i hsame
        simp [hsame]
      · rename_i hdiffer
        -- Emptying the store leads to a verdict of its own, if to any.
        refine iff_of_false ?_ hdiffer
        intro e
        obtain ⟨_, t', -, hpure⟩ := Action.bind_eq_ok_iff.1 e
        cases hpure

/-- A record that is there is left alone. -/
theorem recordOnce_of_exists (h : t.exists d.recordPath = true) (record : EngineRecord) :
    d.recordOnce record t = .ok false t := by
  rw [recordOnce, Action.bind_of_ok (Action.get_apply t), if_pos h]
  rfl

/-- A record that is written is written into its directory, which is made for it. -/
theorem exists_of_recordOnce {wrote : Bool}
    (hmissing : t.exists d.recordPath = false) (h : d.recordOnce record t = .ok wrote u) :
    ∃ v, Files.createDirAll (d.partitionPath metadataId) t = .ok () v ∧
      Files.replace d.recordPath ((d.partitionPath metadataId).join recordScratchName)
        record.bytes v = .ok () u := by
  rw [recordOnce, Action.bind_of_ok (Action.get_apply t), if_neg (by simp [hmissing])] at h
  obtain ⟨_, v, hmake, h⟩ := Action.bind_eq_ok_iff.1 h
  obtain ⟨_, w, hwrite, hpure⟩ := Action.bind_eq_ok_iff.1 h
  cases hpure
  rw [EngineRecord.write, withExtension_recordPath] at hwrite
  exact ⟨v, StoreAction.ofFiles_eq_ok_iff.1 hmake, StoreAction.ofFiles_eq_ok_iff.1 hwrite⟩

/-- A record is written where there is none, and the directory for it is made if need be. -/
theorem recordOnce_ok (record : EngineRecord) (lead : t.LeadsTo d.path loc)
    (room : (d.partitionPath metadataId).HasRoom 17)
    (usable : isEntryName (dirName d.store metadataId) = true)
    (dir : t.node? (dirName d.store metadataId :: loc) = none ∨
      t.node? (dirName d.store metadataId :: loc) = some .dir)
    (none : t.node? (recordFileName :: dirName d.store metadataId :: loc) = none)
    (free : t.TakesFile (recordScratchName :: dirName d.store metadataId :: loc)) :
    ∃ t', d.recordOnce record t = .ok true t' ∧ ∀ l, t'.node? l =
      if l = recordFileName :: dirName d.store metadataId :: loc then some (.file record.bytes)
      else if l = recordScratchName :: dirName d.store metadataId :: loc then .none
      else if l = dirName d.store metadataId :: loc then some .dir
      else t.node? l := by
  have hentry := lead.namesEntry usable (room.mono (by omega))
  -- With the directory made, or there, the rest is the writing of one file in it.
  obtain ⟨u, hmake, hu⟩ : ∃ u, Files.createDirAll (d.partitionPath metadataId) t = .ok () u ∧
      ∀ l, u.node? l = if l = dirName d.store metadataId :: loc then some .dir else t.node? l := by
    rcases dir with hdir | hdir
    · refine ⟨_, createDirAll_ok hentry hdir, ?_⟩
      intro l
      split
      · rename_i hl
        rw [hl]
        exact node?_place_self usable lead.isDir_node (by simp [hdir])
      · rename_i hl
        exact node?_place_of_ne _ _ _ _ hl
    · refine ⟨t, createDirAll_of_isDir hentry hdir, ?_⟩
      intro l
      split
      · rename_i hl
        rw [hl, hdir]
      · rfl
  have hne : ∀ name : String, ¬name :: dirName d.store metadataId :: loc =
      dirName d.store metadataId :: loc := by
    intro name e
    exact List.cons_ne_self _ _ e
  have lead' : u.LeadsTo d.path loc := by
    refine lead.congr ?_
    intro l hl
    rw [hu, if_neg]
    intro e
    exact hl (e ▸ Location.inside_cons ..)
  have hmade : u.node? (dirName d.store metadataId :: loc) = some .dir := by rw [hu, if_pos rfl]
  have hinner := lead'.join hmade (room.mono (by omega))
  have hfile : u.NamesEntry d.recordPath (dirName d.store metadataId :: loc) recordFileName :=
    @namesEntry_recordPath u d loc hinner (room.mono (by omega))
  have hscratch : u.NamesEntry (d.recordPath.withExtension "tmp")
      (dirName d.store metadataId :: loc) recordScratchName := by
    rw [withExtension_recordPath]
    exact hinner.namesEntry (by decide) ((hasRoom_recordScratch_iff d).2 room)
  obtain ⟨t', hreplace, hnode⟩ := replace_ok hfile hscratch (by decide)
    (takesFile_of_none (by rw [hu, if_neg (hne _), none]))
    (by rw [TakesFile, hu, if_neg (hne _)]; exact free) record.bytes
  refine ⟨t', ?_, ?_⟩
  · have hmissing := (readRecord_of_none lead (room.mono (by omega)) usable dir none).1
    rw [recordOnce, Action.bind_of_ok (Action.get_apply t), if_neg (by simp [hmissing]),
      Action.bind_of_ok (StoreAction.io_of_ok hmake), EngineRecord.write,
      Action.bind_of_ok (StoreAction.io_of_ok hreplace)]
    rfl
  · intro l
    rw [hnode, hu]

end

end PartitionStore.StoreFolder
