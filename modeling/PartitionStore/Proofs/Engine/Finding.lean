import PartitionStore.Proofs.Engine.FailedOpen
import PartitionStore.Proofs.Partition.Contents
import PartitionStore.Proofs.StoreFolder.Guarding

/-!
# `PartitionStore.Proofs.Engine.Finding`: an opening brings up what it finds

What an engine has after an opening is settled by the tree as it is once the folder was made
ready (`StoreFolder.BroughtUp`): the partitions that the folder lists there, as far as they are set
to be opened, each with the entries of its table. These are the partitions that have a directory
(`StoreFolder.OnDisk`), and where no name is misread there are no others. But a name that is no text
may be read as that of a partition which has no directory, and such a partition comes up without
entries. Other entries of the folder make no difference.

The metadata partition is opened first, in that tree. The others are opened in what is left by
then, which has the same directories and the same tables, but for new ones without entries
(`Attached`). It takes that there are no links inside the directories of partitions. The directory
of the metadata partition may be led to by a link. So may that of a partition whose name was misread,
if the link leads to a directory.

* `attached_of_openAll`: what success tells of the partitions that were opened.
* `broughtUp_of_open`: an opening brings up what is on disk, or fails. It fails over a table that is
  damaged or of another format.
-/

set_option autoImplicit false

namespace PartitionStore

open FileTree Naming PartitionStore.Partition StoreFolder

namespace StoreFolder

/-- The folder has a directory for the partition. A link to one does not count. -/
def OnDisk (d : StoreFolder) (t : FileTree) (id : Int32) : Prop :=
  ∃ loc, t.find .followed d.path = .ok (loc, .dir) ∧
    t.node? (dirName d.store id :: loc) = some .dir

/-- The folder has a directory that reads like that of the partition. -/
def Listed (d : StoreFolder) (t : FileTree) (id : Int32) : Prop :=
  ∃ loc, t.find .followed d.path = .ok (loc, .dir) ∧ d.Lists t loc id

/-- The partition is to be opened: the metadata partition if it is set to be, and any other one if
it is listed and those are set to be. -/
def Requested (d : StoreFolder) (c : EngineSettings) (t : FileTree) (id : Int32) : Prop :=
  id = metadataId ∧ c.withMetadata = true ∨
    id ≠ metadataId ∧ c.withData = true ∧ d.Listed t id

/-- In the directories of the partitions that are to be opened no file of a partition is a link. The
directory of a partition is the one that its path leads to. Where a partition other than the
metadata partition is listed and has a link for a directory, that leads to one. -/
structure PartitionsLinkFree (d : StoreFolder) (c : EngineSettings) (t : FileTree) : Prop where
  files : ∀ id loc, d.Requested c t id →
    t.resolveSteps .followed (d.partitionPath id).steps = .ok (.occupied loc .dir) →
    LinkFreeFiles t loc
  leads : ∀ id loc target, d.Requested c t id → id ≠ metadataId →
    t.find .followed d.path = .ok (loc, .dir) →
    t.node? (dirName d.store id :: loc) = some (.link target) →
    ∃ place, t.resolveSteps .followed (d.partitionPath id).steps = .ok (.occupied place .dir)

/-- The folder lists a partition, not the metadata partition, that has no directory. -/
def Misreads (d : StoreFolder) (t : FileTree) : Prop :=
  ∃ id, id ≠ metadataId ∧ d.Listed t id ∧ ¬d.OnDisk t id

/-- The engine has the partitions that are to be opened, and each of them is as it is on disk
in `t`. -/
structure BroughtUp (d : StoreFolder) (c : EngineSettings) (t : FileTree) (e : Engine)
    (host : Host) : Prop where
  ids : ∀ id, id ∈ e.openIds ↔ d.Requested c t id
  partitions : ∀ id h, (id, h) ∈ e.registry →
    OpenedFrom (d.partitionPath id) (c.spec id) t (host.partition h)

end StoreFolder

/-- Partitions were opened that were on disk in `t`, and since then the tree has new tables at
most. -/
structure Attached (d : StoreFolder) (c : EngineSettings) (t : FileTree) (host : Host)
    (registry : List (Int32 × Handle)) : Prop where
  added : TablesAdded c.format t host.tree
  opened : ∀ id h, (id, h) ∈ registry → ∃ part, host.partitions[h]? = some part ∧
    OpenedFrom (d.partitionPath id) (c.spec id) t part

variable {d : StoreFolder} {c : EngineSettings} {loc : Location} {t : FileTree}
  {host host' : Host} {registry : List (Int32 × Handle)} {id : Int32} {handle : Handle}

/-! ### Opening partitions -/

/-- A partition's directory does not have the name of a table file. -/
theorem dirName_ne_tableFileName (store : String) (id : Int32) :
    dirName store id ≠ tableFileName := by
  intro e
  have hmem : '_' ∈ (dirName store id).toList := by simp [toList_dirName]
  rw [e] at hmem
  exact absurd hmem (by decide)

/-- One more partition was opened. -/
theorem Attached.attach (attached : Attached d c t host registry)
    (hopened : ∀ part u, openTable (d.partitionPath id) (c.spec id) host.tree = .ok part u →
      TablesAdded c.format t u ∧ OpenedFrom (d.partitionPath id) (c.spec id) t part)
    (h : Backend.table.attach d (c.spec id) host = .ok handle host') :
    Attached d c t host' (registry ++ [(id, handle)]) := by
  rcases Backend.attach_table_cases d (c.spec id) host with
    ⟨part, u, hopen, hok⟩ | ⟨e, u, herror, -⟩
  · cases h.symm.trans hok
    obtain ⟨added, opened⟩ := hopened part u hopen
    refine ⟨added, fun i g hmem => ?_⟩
    rcases List.mem_append.1 hmem with hold | hnew
    · obtain ⟨other, hother, opened'⟩ := attached.opened i g hold
      obtain ⟨hlt, -⟩ := List.getElem?_eq_some_iff.1 hother
      exact ⟨other, (List.getElem?_append_left hlt).trans hother, opened'⟩
    · cases List.mem_singleton.1 hnew
      exact ⟨part, List.getElem?_concat_length, opened⟩
  · cases h.symm.trans herror

/-- To open a stretch of one id is to open that one. -/
theorem exists_of_openStretch_singleton {b : Backend}
    (h : Restore.openStretch b d c [id] host = .ok registry host') :
    ∃ handle, b.attach d (c.spec id) host = .ok handle host' ∧ registry = [(id, handle)] := by
  obtain ⟨handle, host₁, hattach, h⟩ := Action.bind_eq_ok_iff.1 h
  cases h
  exact ⟨handle, hattach, rfl⟩

/-- The metadata partition is opened in the tree as it is, where its directory may be missing. -/
theorem attached_of_openMetadata
    (hway : host.tree.resolveSteps .followed d.path.steps = .ok (.occupied loc .dir))
    (free : d.PartitionsLinkFree c host.tree) (hset : c.withMetadata = true)
    (h : Restore.openStretch Backend.table d c [metadataId] host = .ok registry host') :
    Attached d c host.tree host' registry ∧ registry.map Prod.fst = [metadataId] := by
  obtain ⟨handle, hattach, rfl⟩ := exists_of_openStretch_singleton h
  have start : Attached d c host.tree host [] := ⟨.refl _ _, by simp⟩
  refine ⟨start.attach (fun part u hopen => ?_) hattach, rfl⟩
  exact contents_of_openTable_in hway (d.isPlainName_dir metadataId)
    (dirName_ne_tableFileName _ _) (fun l => free.files metadataId l (.inl ⟨rfl, hset⟩)) hopen

/-- A partition that is listed is opened in what is left by then, be its directory there or not. -/
theorem opened_of_listed {part : Partition} {u v : FileTree} (hfind : t.find .followed d.path =
      .ok (loc, .dir)) (free : d.PartitionsLinkFree c t) (requested : d.Requested c t id)
    (hid : id ≠ metadataId) (added : TablesAdded c.format t u)
    (h : openTable (d.partitionPath id) (c.spec id) u = .ok part v) :
    TablesAdded c.format t v ∧ OpenedFrom (d.partitionPath id) (c.spec id) t part := by
  have hway := resolveSteps_of_find hfind
  have there {l : Location} (hl : t.resolveSteps .followed (d.partitionPath id).steps =
      .ok (.occupied l .dir)) := contents_of_openTable added (text_partitionPath_ne d id)
    (endsWithSlash_partitionPath d id) hl (free.files id l requested hl) h
  have absent (takes : t.TakesFile (dirName d.store id :: loc)) :=
    contents_of_openTable_free added hway (d.isPlainName_dir id) (dirName_ne_tableFileName _ _)
      takes h
  cases hnode : t.node? (dirName d.store id :: loc) with
  | none => exact absent (takesFile_of_none hnode)
  | some node =>
      cases node with
      | file data => exact absent (.inr ⟨data, hnode⟩)
      | link target =>
          obtain ⟨place, hplace⟩ := free.leads id loc target requested hid hfind hnode
          exact there hplace
      | dir =>
          have hdown := resolveSteps_down .followed hway (isEntryName_of_node? hnode)
            (by simp [hnode])
          rw [hnode, ← Path.steps_join (d.isPlainName_dir id)] at hdown
          exact there hdown

/-- The partitions that were listed at first are opened in what is left by then. -/
theorem attached_of_openData {ids : List Int32} {more : List (Int32 × Handle)}
    (hfind : t.find .followed d.path = .ok (loc, .dir)) (free : d.PartitionsLinkFree c t)
    (hids : ∀ id ∈ ids, d.Requested c t id ∧ id ≠ metadataId)
    (attached : Attached d c t host registry)
    (h : Restore.openData Backend.table d c ids host = .ok more host') :
    Attached d c t host' (registry ++ more) ∧ more.map Prod.fst = ids := by
  have hall := inv_of_openStretches (Attached d c t)
    (fun id hid host handle host' registry attached hattach => by
      rw [flatten_stretches] at hid
      obtain ⟨requested, hne⟩ := hids id hid
      exact attached.attach (fun part u => opened_of_listed hfind free requested hne attached.added)
        hattach)
    attached h
  rwa [flatten_stretches] at hall

/-- What success tells: all partitions that are to be opened were opened from what was on disk. -/
theorem attached_of_openAll (hway : host.tree.resolveSteps .followed d.path.steps =
      .ok (.occupied loc .dir))
    (htext : checkText d.path = .ok ()) (free : d.PartitionsLinkFree c host.tree)
    (h : Restore.openAll Backend.table d c host = .ok registry host') :
    Attached d c host.tree host' registry ∧
      ∀ id, id ∈ registry.map Prod.fst ↔ d.Requested c host.tree id := by
  have hfind := find_of_resolveSteps (Path.hasRoom_of_checkText htext
    (Path.endsWithSlash_join _ (isPlainName_of_isStoreName d.isStoreName))) hway
  have hlisted (id : Int32) : d.Listed host.tree id ↔ d.Lists host.tree loc id := by
    constructor
    · rintro ⟨loc', hfind', lists⟩
      cases hfind.symm.trans hfind'
      exact lists
    · exact fun lists => ⟨loc, hfind, lists⟩
  obtain ⟨found, hfound, -, hmem⟩ := idsOnDisk_of_find hfind (resolveSteps_isIn hway)
  have hids : Backend.table.idsOnDisk d host = .ok found host := HostAction.onTree_of_ok hfound
  rw [Restore.openAll_of_idsOnDisk hids] at h
  obtain ⟨first, host₁, hfirst, h⟩ := Action.bind_eq_ok_iff.1 h
  obtain ⟨second, host₂, hsecond, hlast⟩ := Action.bind_eq_ok_iff.1 h
  cases hlast
  -- The metadata partition comes first, and no other one has been opened by then.
  have hmetadata : Attached d c host.tree host₁ first ∧
      first.map Prod.fst = if c.withMetadata then [metadataId] else [] := by
    split at hfirst
    · rename_i hset
      rw [if_pos hset]
      exact attached_of_openMetadata hway free hset hfirst
    · rename_i hset
      cases hfirst
      rw [if_neg hset]
      exact ⟨⟨.refl _ _, by simp⟩, rfl⟩
  -- Whether its directory or its table was made makes no difference to the ones that were found.
  have hdata : Attached d c host.tree host' (first ++ second) ∧ second.map Prod.fst =
      if c.withData then found.filter (· != metadataId) else [] := by
    split at hsecond
    · rename_i hset
      rw [if_pos hset]
      refine attached_of_openData hfind free (fun id hid => ?_) hmetadata.1 hsecond
      have hne : id ≠ metadataId := by simpa using (List.mem_filter.1 hid).2
      have hfound := (hmem id).1 (List.mem_of_mem_filter hid)
      exact ⟨.inr ⟨hne, hset, (hlisted id).2 hfound⟩, hne⟩
    · rename_i hset
      cases hsecond
      rw [if_neg hset, List.append_nil]
      exact ⟨hmetadata.1, rfl⟩
  refine ⟨hdata.1, fun id => ?_⟩
  rw [List.map_append, hmetadata.2, hdata.2, ← EngineSettings.restored,
    EngineSettings.mem_restored_iff, Requested, hlisted, hmem]
  by_cases hid : id = metadataId <;> simp [EngineSettings.Restores, hid]

/-! ### The whole opening -/

/-- An opening that succeeds has brought up what is on disk. -/
theorem broughtUp_of_open_ok (hkind : c.backend = .table) {e : Engine}
    (free : ∀ d t, StoreFolder.named c.root c.store = .ok d →
      Engine.prepare d c host.tree = .ok () t → d.PartitionsLinkFree c t)
    (h : Engine.open c host = .ok e host') :
    ∃ d t, StoreFolder.named c.root c.store = .ok d ∧ Engine.prepare d c host.tree = .ok () t ∧
      d.BroughtUp c t e host' := by
  obtain ⟨d, t, registry, host₁, u, hnamed, hprepare, hall, -, rfl, rfl⟩ := exists_of_open h
  obtain ⟨htext, loc, hway⟩ := way_of_prepare hprepare
  rw [hkind] at hall
  obtain ⟨attached, hids⟩ := @attached_of_openAll _ _ _ ⟨t, host.partitions⟩ _ _ hway htext
    (free d t hnamed hprepare) hall
  refine ⟨d, t, hnamed, hprepare, ⟨fun id => ?_, fun id h hmem => ?_⟩⟩
  · rw [Engine.mem_openIds_iff]
    exact hids id
  · obtain ⟨part, hpart, opened⟩ := attached.opened id h hmem
    have hsame : ({ host₁ with tree := u } : Host).partition h = part := by
      rw [Host.partition, List.getD_eq_getElem?_getD, hpart]
      rfl
    rw [hsame]
    exact opened

/-- What is on disk is listed. -/
theorem listed_of_onDisk (h : d.OnDisk t id) : d.Listed t id := by
  obtain ⟨loc, hfind, hdir⟩ := h
  exact ⟨loc, hfind, lists_of_dir hdir⟩

/-- The partitions that come up are those that have a directory, if none is misread that counts. -/
theorem StoreFolder.BroughtUp.ids_iff_onDisk {e : Engine} (broughtUp : d.BroughtUp c t e host) :
    (∀ id, id ∈ e.openIds ↔ id = metadataId ∧ c.withMetadata = true ∨
        id ≠ metadataId ∧ c.withData = true ∧ d.OnDisk t id) ↔
      ¬(c.withData = true ∧ d.Misreads t) := by
  constructor
  · rintro h ⟨hdata, id, hid, listed, habsent⟩
    rcases (h id).1 ((broughtUp.ids id).2 (.inr ⟨hid, hdata, listed⟩)) with ⟨he, -⟩ | ⟨-, -, hdir⟩
    · exact hid he
    · exact habsent hdir
  · intro h id
    rw [broughtUp.ids, Requested]
    refine or_congr_right (and_congr_right fun hid => and_congr_right fun hdata => ?_)
    refine ⟨fun listed => ?_, listed_of_onDisk⟩
    by_contra habsent
    exact h ⟨hdata, id, hid, listed, habsent⟩

/-- An engine that comes up has just the partitions that are to be opened, each with the entries
that its table has once the folder was made ready, or with none if there is no table. These are the
partitions that have a directory, but for those that are misread. Where a table that is to be opened
is damaged or of another format, no engine comes up. -/
theorem broughtUp_of_open (hkind : c.backend = .table) (host : Host)
    (free : ∀ d t, StoreFolder.named c.root c.store = .ok d →
      Engine.prepare d c host.tree = .ok () t → d.PartitionsLinkFree c t) :
    (∀ e host', Engine.open c host = .ok e host' →
      ∃ d t, StoreFolder.named c.root c.store = .ok d ∧ Engine.prepare d c host.tree = .ok () t ∧
        d.BroughtUp c t e host' ∧
        ((∀ id, id ∈ e.openIds ↔ id = metadataId ∧ c.withMetadata = true ∨
            id ≠ metadataId ∧ c.withData = true ∧ d.OnDisk t id) ↔
          ¬(c.withData = true ∧ d.Misreads t))) ∧
      ∀ d t id data, StoreFolder.named c.root c.store = .ok d →
        Engine.prepare d c host.tree = .ok () t → d.Requested c t id →
        t.read (tableFile (d.partitionPath id)) = .ok data →
        (∀ table, Table.ofImage data = .ok table → table.format ≠ c.format) →
        ∃ e host', Engine.open c host = .error e host' := by
  refine ⟨fun e host' hopen => ?_, fun d t id data hnamed hprepare requested hread hbad => ?_⟩
  · obtain ⟨d, t, hnamed, hprepare, broughtUp⟩ := broughtUp_of_open_ok hkind free hopen
    exact ⟨d, t, hnamed, hprepare, broughtUp, broughtUp.ids_iff_onDisk⟩
  cases hopen : Engine.open c host with
  | error e host' => exact ⟨e, host', rfl⟩
  | ok e host' =>
      -- The partition would be there, opened from a table that can be read and is of the format.
      exfalso
      obtain ⟨d', t', hnamed', hprepare', broughtUp⟩ := broughtUp_of_open_ok hkind free hopen
      cases hnamed.symm.trans hnamed'
      cases hprepare.symm.trans hprepare'
      obtain ⟨h, hmem⟩ := Engine.mem_openIds_iff_exists.1 ((broughtUp.ids id).2 requested)
      have contents := (broughtUp.partitions id h hmem).contents
      generalize (host'.partition h).entries = entries at contents
      rcases contents with ⟨hfile, himage, hsame⟩ | hnone
      · cases hread.symm.trans hfile
        exact hbad _ himage hsame
      · cases (exists_of_read hread).symm.trans hnone

/-- A table with one entry. -/
def filledTable : Table := ⟨.blockBased, SortedMap.empty.insert [107] [118]⟩

/-- A store at the top. Its partition 0 has that table, and what has the name of the directory of
partition 1 is a link to that of partition 0. -/
def filledStore : FileTree :=
  (((FileTree.empty.place [] "s" .dir).place ["s"] "s_0" .dir).place ["s_0", "s"] tableFileName
    (.file filledTable.image)).place ["s"] "s_1" (.link ⟨"s_0"⟩)

/-- The filled store has one link. -/
theorem eq_of_link_filledStore {l : Location} {target : Path}
    (h : filledStore.node? l = some (.link target)) : l = ["s_1", "s"] := by
  by_contra hlink
  revert h
  by_cases hstore : l = ["s"]
  · rw [hstore, show filledStore.node? ["s"] = some .dir by decide +kernel]
    simp
  by_cases hdir : l = ["s_0", "s"]
  · rw [hdir, show filledStore.node? ["s_0", "s"] = some .dir by decide +kernel]
    simp
  by_cases hfile : l = [tableFileName, "s_0", "s"]
  · rw [hfile, filledStore, node?_place_of_ne _ _ _ _ (by decide),
      node?_place_self (by decide) (by decide +kernel) (by decide +kernel)]
    simp
  rw [filledStore, node?_place_of_ne _ _ _ _ hlink, node?_place_of_ne _ _ _ _ hfile,
    node?_place_of_ne _ _ _ _ hdir, node?_place_of_ne _ _ _ _ hstore]
  exact linkFree_empty [] l target List.nil_suffix

/-- The files of its partitions are no links, and the one directory that is a link leads to one. -/
theorem partitionsLinkFree_filledStore (c : EngineSettings) :
    PartitionsLinkFree ⟨⟨"."⟩, "s", by decide⟩ c filledStore := by
  constructor
  case files =>
    rintro id loc - - l hl target hlink
    obtain rfl := eq_of_link_filledStore hlink
    rcases hl with e | e <;> exact absurd (List.cons.inj e).1 (by decide)
  case leads =>
    rintro id loc target - - - hlink
    have hname : dirName "s" id = dirName "s" 1 := (List.cons.inj (eq_of_link_filledStore hlink)).1
    obtain rfl := dirName_injective hname
    exact ⟨["s_0", "s"], by decide +kernel⟩

/-- Partition 0 comes up with its entry, and partition 1 does not come up. In the other format none
does. -/
theorem broughtUp_filledStore :
    (∃ e host', Engine.open (settingsUnder ⟨"."⟩) (Host.ofTree filledStore) = .ok e host' ∧
        BroughtUp ⟨⟨"."⟩, "s", by decide⟩ (settingsUnder ⟨"."⟩) filledStore e host' ∧
        e.openIds = [-1, 0] ∧
        ∃ h, (0, h) ∈ e.registry ∧ (host'.partition h).entries = filledTable.entries) ∧
      ∃ e host', Engine.open { settingsUnder ⟨"."⟩ with format := .plain }
        (Host.ofTree filledStore) = .error e host' := by
  have hprepare := prepare_of_unrecorded (d := ⟨⟨"."⟩, "s", by decide⟩) (t := filledStore)
    (by decide +kernel) (unrecorded_iff.2 (by decide +kernel))
  -- The general theorem for this folder, which both openings use.
  have broughtUp (c : EngineSettings) (hkind : c.backend = .table)
      (hnamed : StoreFolder.named c.root c.store = .ok ⟨⟨"."⟩, "s", by decide⟩) :=
    broughtUp_of_open hkind (Host.ofTree filledStore) fun d t hd ht => by
      cases hnamed.symm.trans hd
      cases (hprepare c).symm.trans ht
      exact partitionsLinkFree_filledStore c
  constructor
  · have key : Action.succeedsWith (Engine.open (settingsUnder ⟨"."⟩)) (Host.ofTree filledStore)
        (fun e host' => decide (e.openIds = [-1, 0]) && decide (e.handle? 0 = some 1) &&
          decide ((host'.partition 1).entries = filledTable.entries)) = true := by decide +kernel
    obtain ⟨e, host', hopen, key⟩ := Action.exists_of_succeedsWith key
    simp only [Bool.and_eq_true, decide_eq_true_eq] at key
    obtain ⟨⟨hids, hlookup⟩, hentries⟩ := key
    obtain ⟨d, t, hnamed, hprepare', found, -⟩ :=
      (broughtUp (settingsUnder ⟨"."⟩) rfl rfl).1 e host' hopen
    obtain rfl : d = ⟨⟨"."⟩, "s", by decide⟩ := (Except.ok.inj hnamed).symm
    cases (hprepare _).symm.trans hprepare'
    exact ⟨e, host', hopen, found, hids, 1, Engine.mem_of_handle? hlookup, hentries⟩
  · have hread : filledStore.read (tableFile (partitionPath ⟨⟨"."⟩, "s", by decide⟩ 0)) =
        .ok filledTable.image := by decide +kernel
    have hrequested : Requested ⟨⟨"."⟩, "s", by decide⟩
        { settingsUnder ⟨"."⟩ with format := .plain } filledStore 0 :=
      .inr ⟨by decide, rfl, ["s"], by decide +kernel,
        lists_of_dir (show filledStore.node? ["s_0", "s"] = some .dir by decide +kernel)⟩
    have himage : Table.ofImage filledTable.image = .ok filledTable :=
      Table.ofImage_eq_ok_iff.2 (Table.isImage_image (by decide))
    refine (broughtUp { settingsUnder ⟨"."⟩ with format := .plain } rfl rfl).2 _ filledStore 0 _ rfl
      (hprepare _) hrequested hread fun table htable => ?_
    cases himage.symm.trans htable
    decide

/-- Partition 5 comes up where it has no directory, as one is misread. -/
theorem not_ids_onDisk_of_misread :
    ∃ e host', Engine.open { settingsUnder ⟨"."⟩ with store := misreadFolder.store }
        (Host.ofTree misreadTree) = .ok e host' ∧ e.openIds = [-1, 5] ∧
      ¬misreadFolder.OnDisk misreadTree 5 ∧ misreadFolder.Misreads misreadTree := by
  have key : Action.succeedsWith
      (Engine.open { settingsUnder ⟨"."⟩ with store := misreadFolder.store })
      (Host.ofTree misreadTree) (fun e _ => decide (e.openIds = [-1, 5])) = true := by
    decide +kernel
  obtain ⟨e, host', hopen, hids⟩ := Action.exists_of_succeedsWith key
  have hfind : misreadTree.find .followed misreadFolder.path =
      .ok ([misreadFolder.store], .dir) := by decide +kernel
  obtain ⟨lists, hnone⟩ := lists_misreadTree
  have habsent : ¬misreadFolder.OnDisk misreadTree 5 := by
    rintro ⟨loc, hfind', hdir⟩
    cases hfind.symm.trans hfind'
    cases hnone.symm.trans hdir
  exact ⟨e, host', hopen, of_decide_eq_true hids, habsent, 5, by decide,
    ⟨_, hfind, lists⟩, habsent⟩

end PartitionStore
