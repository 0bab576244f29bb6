import PartitionStore.Proofs.Engine.FailedOpen
import PartitionStore.Proofs.FileTree.OnWay
import PartitionStore.Proofs.StoreFolder.Guarding

/-!
# `PartitionStore.Proofs.Engine.Sparing`: what an opening leaves as it is

An opening that finds no record of another format does no damage, whatever comes of it
(`StoreFolder.Spares`). All directories stay, and so do all files, except a scratch file where
the file is missing that it is for. What is new is the folder with the directories on its way, the
directory of the metadata partition, and the store's own files. There is one thing more: a directory
whose name is no text can read like that of a partition (`StoreFolder.Lists`), and then a directory
with that very name is made beside it.

This is said of trees without symbolic links, where the places of a store can be read off
its settings. Three parts of an opening write, one after another: making the folder ready
makes directories (`grownAt_prepare`), opening partitions makes tables
(`Settled.changed`), and keeping the record writes that (`Standing.changed_keepRecord`). What the
latter two may do to a place is one case distinction (`StoreFolder.Changed`), which carries over
from one to the other.

* `spares_of_open`: what an opening leaves.
-/

set_option autoImplicit false

namespace PartitionStore

open FileTree Naming PartitionStore.Partition StoreFolder

/-- The first place is that of a file of the store at `loc`, and the second that of the scratch file
by way of which it is written. -/
inductive StoreFolder.Beside (d : StoreFolder) (loc : Location) : Location → Location → Prop
  | table (id : Int32) :
    Beside d loc (tableFileName :: dirName d.store id :: loc)
      (scratchName :: dirName d.store id :: loc)
  | record : Beside d loc (d.recordPlace loc) (d.recordScratchPlace loc)

/-- What may have become of a place from `t` to `u` if partitions of the store at `loc` were opened
and its record was kept. -/
inductive StoreFolder.Changed (d : StoreFolder) (loc : Location) (t u : FileTree) :
    Location → Prop
  /-- It is what it was. -/
  | same {l : Location} (h : u.node? l = t.node? l) : Changed d loc t u l
  /-- The directory of the metadata partition was made, or that of one that is listed. -/
  | dir (id : Int32) (hid : id = metadataId ∨ d.Lists t loc id)
      (hnone : t.node? (dirName d.store id :: loc) = none)
      (hdir : u.node? (dirName d.store id :: loc) = some .dir) :
      Changed d loc t u (dirName d.store id :: loc)
  /-- A file of the store was made. -/
  | file {l scratch : Location} {data : Bytes} (beside : d.Beside loc l scratch)
      (hnone : t.node? l = none) (hfile : u.node? l = some (.file data)) : Changed d loc t u l
  /-- A file was made by way of the scratch file, or should have been. -/
  | scratch {file l : Location} (beside : d.Beside loc file l) (hnone : t.node? file = none)
      (before : t.TakesFile l) (after : u.TakesFile l) : Changed d loc t u l

/-- Where the folder is in a tree without links. -/
def StoreFolder.place (d : StoreFolder) : Location := d.store :: Location.follow d.root.steps

/-- What `t` has is in `u` as well, and what is new in `u` belongs to the store. New directories of
partitions other than the metadata partition are those of partitions that are listed and have
none. -/
structure StoreFolder.Spares (d : StoreFolder) (t u : FileTree) : Prop where
  dirs : ∀ l, t.node? l = some .dir → u.node? l = some .dir
  /-- A scratch file may be lost, but only if there was no file that it could have been for. -/
  files : ∀ l data, t.node? l = some (.file data) → u.node? l = some (.file data) ∨
    ∃ file, d.Beside d.place file l ∧ t.node? file = none
  made : ∀ l node, t.node? l = none → u.node? l = some node →
    node = .dir ∧ (OnWay d.path l ∨ ∃ id, (id = metadataId ∨ d.Lists t d.place id) ∧
        l = dirName d.store id :: d.place) ∨
      (∃ data, node = .file data) ∧
        ∃ file scratch, d.Beside d.place file scratch ∧ (l = file ∨ l = scratch)

/-- The tree after partitions were opened, or not all of them. -/
def Restore.treeAfter (d : StoreFolder) (c : EngineSettings) (host : Host) : FileTree :=
  (Action.after (openAll (Backend.ofKind c.backend) d c host)).tree

variable {d : StoreFolder} {c : EngineSettings} {loc file scratch l : Location} {t u v : FileTree}
  {host host' : Host} {ids found : List Int32} {id : Int32}

/-! ### Places of a store -/

namespace StoreAction

variable {α : Type}

/-- How a failure is reported makes no difference to what is left. -/
theorem after_ofFiles (meaning : IoError → StoreError) (action : Files α) (t : FileTree) :
    Action.after (ofFiles meaning action t) = Action.after (action t) := by
  rw [ofFiles]
  cases action t <;> rfl

theorem after_during (step : InitializationStep) (action : StoreAction α) (t : FileTree) :
    Action.after (during step action t) = Action.after (action t) := by
  rw [during]
  split <;> simp_all [Action.after]

end StoreAction

namespace StoreFolder.Beside

/-- A file of the store is no scratch file. -/
theorem not_scratch (h : d.Beside loc file scratch) {other : Location} :
    ¬d.Beside loc other file := by
  have hname : file.head? = some tableFileName ∨ file.head? = some recordFileName := by
    cases h
    · exact .inl rfl
    · exact .inr rfl
  intro h'
  have hname' : file.head? = some scratchName ∨ file.head? = some recordScratchName := by
    cases h'
    · exact .inl rfl
    · exact .inr rfl
  rcases hname with e | e <;> rcases hname' with e' | e' <;>
    exact absurd (Option.some.inj (e.symm.trans e')) (by decide)

theorem ne_dir (h : d.Beside loc file scratch) (name : String) :
    file ≠ name :: loc ∧ scratch ≠ name :: loc := by
  cases h <;> constructor <;> intro e <;> simpa [recordPlace, recordScratchPlace] using
    congrArg List.length e

end StoreFolder.Beside

namespace StoreFolder.Changed

/-- What is listed then, and still has no directory, was listed before: directories that were made
are those of partitions, and each is read as what it is. -/
theorem lists_of_changed (h : ∀ l, d.Changed loc t u l) (hlisted : d.Lists u loc id)
    (hnone : u.node? (dirName d.store id :: loc) = none) : d.Lists t loc id := by
  obtain ⟨name, hread, hdir⟩ := hlisted
  generalize hl : name :: loc = l at hdir
  rcases h l with hsame | ⟨id', -, -, hmade⟩ | ⟨-, -, hfile⟩ | ⟨-, -, -, after⟩
  · exact ⟨name, hread, by rw [hl, ← hsame, hdir]⟩
  · obtain rfl := (List.cons.inj hl).1
    rw [FileName.reading_of_text (d.mark_not_mem_dirName id')] at hread
    rw [← hread] at hnone
    cases hnone.symm.trans hmade
  · cases hdir.symm.trans hfile
  · exact absurd hdir after.ne_dir

/-- What is missing then was missing before, unless it is a scratch file. -/
theorem none_of_changed (h : d.Changed loc t u l) (hnot : ∀ file, ¬d.Beside loc file l)
    (hnone : u.node? l = none) : t.node? l = none := by
  rcases h with hsame | ⟨_, -, -, hdir⟩ | ⟨-, -, hfile⟩ | ⟨beside, -, -, -⟩
  · exact hsame ▸ hnone
  · cases hnone.symm.trans hdir
  · cases hnone.symm.trans hfile
  · exact absurd beside (hnot _)

/-- What came of one thing after another. -/
theorem trans (h : ∀ l, d.Changed loc t u l) (h' : ∀ l, d.Changed loc u v l) (l : Location) :
    d.Changed loc t v l := by
  -- A file that is new in the second part was missing before the first, since scratch files are no
  -- tables or records.
  have hmissing {file scratch : Location} (beside : d.Beside loc file scratch) :=
    none_of_changed (h file) fun _ => beside.not_scratch
  rcases h' l with
    hsame | ⟨id, hid, hnone, hdir⟩ | ⟨beside, hnone, hfile⟩ | ⟨beside, hnone, before, after⟩
  · rcases h l with
      hfirst | ⟨id, hid, hnone, hdir⟩ | ⟨beside, hnone, hfile⟩ | ⟨beside, hnone, before, after⟩
    · exact .same (hsame.trans hfirst)
    · exact .dir id hid hnone (hsame.trans hdir)
    · exact .file beside hnone (hsame.trans hfile)
    · refine .scratch beside hnone before ?_
      rw [TakesFile, hsame]
      exact after
  · exact .dir id (hid.imp_right fun hlisted => lists_of_changed h hlisted hnone)
      (none_of_changed (h _) (fun _ beside => (beside.ne_dir _).2 rfl) hnone) hdir
  · exact .file beside (hmissing beside hnone) hfile
  · rcases h l with hsame | ⟨_, -, -, hdir⟩ | ⟨beside', -, -⟩ | ⟨-, -, before', -⟩
    · refine .scratch beside (hmissing beside hnone) ?_ after
      rw [TakesFile, ← hsame]
      exact before
    · exact absurd hdir before.ne_dir
    · exact absurd beside beside'.not_scratch
    · exact .scratch beside (hmissing beside hnone) before' after

end StoreFolder.Changed

/-! ### Opening partitions -/

theorem StoreFolder.scratch_opening (d : StoreFolder) (c : EngineSettings) {node : Node}
    (htable : (d.slot loc t id).table = some node) :
    (d.opening c loc t id).2.scratch = (d.slot loc t id).scratch := by
  rw [opening]
  exact Slot.scratch_openIn htable

/-- Opening partitions makes tables, and the directories that are missing: that of the metadata
partition, which is opened even if it is not listed, and those that were misread. -/
theorem Settled.changed (settled : Settled d c loc (c.restored found) t u)
    (standing : Standing d loc t)
    (hfound : ∀ id ∈ found, d.Lists t loc id) (l : Location) :
    d.Changed loc t u l := by
  by_cases hhas : ∃ id, Slot.Has (dirName d.store id :: loc) l
  swap
  · exact .same (settled.same l fun id h => hhas ⟨id, h⟩)
  obtain ⟨id, hhas⟩ := hhas
  by_cases hslot : d.slot loc u id = d.slot loc t id
  · rcases hhas with rfl | rfl | rfl
    · exact .same (congrArg Slot.dir hslot)
    · exact .same (congrArg Slot.table hslot)
    · exact .same (congrArg Slot.scratch hslot)
  · -- The slot was opened, so each of its places is what opening makes of it.
    obtain ⟨hid, hopened⟩ := settled.slot_of_ne hslot
    have grows := d.grows_opening c loc t id
    rw [← hopened] at grows
    rcases hhas with rfl | rfl | rfl
    · rcases grows.dir with hsame | ⟨hnone, hdir⟩
      · exact .same hsame
      · exact .dir id ((EngineSettings.mem_restored_iff.1 hid).2.imp_right (hfound id)) hnone hdir
    · rcases grows.table with hsame | ⟨hnone, data, hfile⟩
      · exact .same hsame
      · exact .file (.table id) hnone hfile
    · have hscratch : u.node? (scratchName :: dirName d.store id :: loc) =
          t.node? (scratchName :: dirName d.store id :: loc) ∨
            t.node? (scratchName :: dirName d.store id :: loc) ≠ some .dir ∧
              u.node? (scratchName :: dirName d.store id :: loc) = none := grows.scratch
      rcases hscratch with hsame | ⟨hne, hnone⟩
      · exact .same hsame
      -- Where there is a table the scratch file is left alone.
      cases htable : t.node? (tableFileName :: dirName d.store id :: loc) with
      | none =>
          exact .scratch (.table id) htable
            (takesFile_of_ne hne ((standing.free.cons _).entry _)) (takesFile_of_none hnone)
      | some node =>
          have hkept := d.scratch_opening c htable
          rw [← hopened] at hkept
          exact .same hkept

/-! ### Keeping the record -/

/-- Making the directory of a partition makes that directory, if anything. -/
theorem Standing.node?_createDirAll (standing : Standing d loc t) (id : Int32) (l : Location) :
    (Action.after (Files.createDirAll (d.partitionPath id) t)).node? l = t.node? l ∨
      l = dirName d.store id :: loc ∧ t.node? l = none ∧
        (Action.after (Files.createDirAll (d.partitionPath id) t)).node? l = some .dir := by
  have hpath : d.partitionPath id = d.path.join (dirName d.store id) := rfl
  -- One case per reason why nothing is made, and one in which the directory is.
  cases htext : checkText (d.partitionPath id) with
  | error e =>
      have hmake := createDirAll_of_checkText (text_partitionPath_ne d _) htext t
      exact .inl (by rw [hmake]; rfl)
  | ok _ =>
      cases hname : isEntryName (dirName d.store id) with
      | false =>
          rw [hpath] at htext ⊢
          exact .inl (by
            rw [createDirAll_of_unusable standing.way (d.isPlainName_dir id) hname htext]
            rfl)
      | true =>
          have named := standing.namesEntry_of_usable hname htext
          cases hnode : t.node? (dirName d.store id :: loc) with
          | none =>
              rw [createDirAll_ok named hnode]
              by_cases hl : l = dirName d.store id :: loc
              · subst hl
                exact .inr ⟨rfl, hnode,
                  node?_place_self hname standing.isDir (by simp [hnode])⟩
              · exact .inl (node?_place_of_ne _ _ _ _ hl)
          | some node =>
              rcases createDirAll_of_some named hnode with ⟨-, -, hmake⟩ | ⟨-, hmake⟩
              · exact .inl (by rw [hmake]; rfl)
              · exact .inl (by rw [hmake]; rfl)

/-- Where no record is found there is none, or the path of its scratch file is too long. -/
theorem Standing.record_of_missing (standing : Standing d loc t)
    (hmissing : ¬t.exists d.recordPath = true) :
    t.node? (d.recordPlace loc) = none ∨
      ∃ e, checkText ((d.partitionPath metadataId).join recordScratchName) = .error e := by
  cases hnode : t.node? (d.recordPlace loc) with
  | none => exact .inl rfl
  | some node =>
      cases htext : checkText ((d.partitionPath metadataId).join recordScratchName) with
      | error e => exact .inr ⟨e, rfl⟩
      | ok _ =>
          -- The record's own path is shorter, so the record would have been found.
          exfalso
          have hroom := (hasRoom_recordScratch_iff d).1
            (Path.hasRoom_of_checkText htext (Path.endsWithSlash_join _ (by decide)))
          have named := standing.namesEntry_file (node?_parent_of_node? hnode) (by decide)
            (Path.checkText_of_hasRoom ((hasRoom_recordPath_iff d).2 (hroom.mono (by omega))))
          exact hmissing (named.exists_of_some hnode fun target e =>
            (standing.free.cons _).entry _ target (e ▸ hnode))

/-- What comes of writing a record where there is none. -/
theorem Sited.changed_replace (sited : Sited d loc t) (hnone : t.node? (d.recordPlace loc) = none)
    (data : Bytes) (l : Location) :
    d.Changed loc t (Action.after (Files.replace d.recordPath
      ((d.partitionPath metadataId).join recordScratchName) data t)) l := by
  have hpath : d.recordPath = (d.partitionPath metadataId).join recordFileName := rfl
  have points := sited.partition metadataId
  have free := sited.free_partition metadataId
  rw [hpath]
  have hname : Path.isPlainName recordFileName = true := by decide
  have hother : Path.isPlainName recordScratchName = true := by decide
  rcases replace_scratch_cases points free hother
    ((d.partitionPath metadataId).join recordFileName) data with ⟨e, hrefused⟩ | ⟨before, hafter⟩
  · rw [hrefused]
    exact .same rfl
  -- The scratch file was written. Either it took the record's place then, or it stayed.
  rcases replace_cases points free hname hother (by decide) data with
    ⟨u, hreplace, hnode⟩ | ⟨e, u, hreplace, links, same⟩
  · rw [hreplace]
    show d.Changed loc t u l
    by_cases hrecord : l = d.recordPlace loc
    · subst hrecord
      exact .file .record hnone ((hnode _).trans (if_pos rfl))
    by_cases hscratch : l = d.recordScratchPlace loc
    · subst hscratch
      exact .scratch .record hnone before
        (takesFile_of_none ((hnode _).trans ((if_neg hrecord).trans (if_pos rfl))))
    · exact .same ((hnode l).trans ((if_neg hrecord).trans (if_neg hscratch)))
  · rw [hreplace]
    show d.Changed loc t u l
    by_cases hscratch : l = d.recordScratchPlace loc
    · subst hscratch
      exact .scratch .record hnone before (hafter e u hreplace)
    · exact .same (same l hscratch)

/-- A record is written where there is none, and with it the directory for it. -/
theorem Standing.changed_recordOnce (standing : Standing d loc t) (record : EngineRecord)
    (l : Location) : d.Changed loc t (Action.after (d.recordOnce record t)) l := by
  by_cases hthere : t.exists d.recordPath = true
  · rw [recordOnce_of_exists hthere]
    exact .same rfl
  rw [recordOnce, Action.bind_of_ok (Action.get_apply t), if_neg hthere]
  have hdir := standing.node?_createDirAll metadataId
  have hgrown := grown_createDirAll (d.partitionPath metadataId) t
  have hmade (l : Location) : d.Changed loc t
      (Action.after (Files.createDirAll (d.partitionPath metadataId) t)) l := by
    rcases hdir l with hsame | ⟨rfl, hnone, hdir⟩
    · exact .same hsame
    · exact .dir metadataId (.inl rfl) hnone hdir
  cases hmake : Files.createDirAll (d.partitionPath metadataId) t with
  | error e u =>
      rw [hmake] at hmade
      rw [Action.bind_of_error (StoreAction.io_of_error hmake)]
      exact hmade l
  | ok _ u =>
      rw [hmake] at hmade hdir hgrown
      replace hgrown : Grown t u := hgrown
      rw [Action.bind_of_ok (StoreAction.io_of_ok hmake), Action.after_bind fun _ _ => rfl,
        EngineRecord.write, withExtension_recordPath, StoreAction.io, StoreAction.after_ofFiles]
      refine Changed.trans hmade (fun l => ?_) l
      rcases standing.record_of_missing hthere with hnone | ⟨e, htext⟩
      · -- The directory that may have been made is not in the record's place.
        refine (standing.sited.congr hgrown.sameLinks).changed_replace ?_ record.bytes l
        rcases hdir (d.recordPlace loc) with hsame | ⟨e, -⟩
        · exact hsame.trans hnone
        · exact absurd e (Beside.record.ne_dir _).1
      · rw [replace_of_checkText htext]
        exact .same rfl

/-- So it is where the record is kept for an engine that answers for the store. -/
theorem Standing.changed_keepRecord (standing : Standing d loc t) (c : EngineSettings)
    (l : Location) : d.Changed loc t (Action.after (Engine.keepRecord d c t)) l := by
  rw [Engine.keepRecord]
  split
  · rw [Action.after_bind fun _ _ => rfl, StoreAction.after_during]
    exact standing.changed_recordOnce c.record l
  · exact .same rfl

/-! ### Making the folder ready -/

/-- Where there are no links the folder is where its path goes. -/
theorem StoreFolder.sited_place (d : StoreFolder) (free : t.LinkFree []) : Sited d d.place t :=
  ⟨⟨_, rfl, pointsTo_follow free d.root⟩, fun l target _ => free l target List.nil_suffix⟩

theorem grownAt_ensure (d : StoreFolder) (free : t.LinkFree []) :
    GrownAt (OnWay d.path) t (Action.after (d.ensure t)) := by
  rw [ensure, Action.bind_of_ok (Action.get_apply t)]
  split
  · split <;> exact .refl _ t
  · rw [Action.after_bind fun _ _ => rfl, StoreAction.after_ofFiles]
    exact grownAt_createDirAll free d.path

/-- A folder that did not have to be made is left as it is. -/
theorem eq_of_ensure (h : d.ensure t = .ok false u) : u = t := by
  rw [ensure, Action.bind_of_ok (Action.get_apply t)] at h
  split at h
  · split at h <;> cases h
    rfl
  · obtain ⟨_, v, -, hpure⟩ := Action.bind_eq_ok_iff.1 h
    cases hpure

/-- Where no record tells another format the folder is made if it is missing, and nothing else. -/
theorem grownAt_prepare (free : t.LinkFree [])
    (hkept : c.guardOnReopen = true → ∀ recorded, d.Records t recorded → recorded = c.format) :
    GrownAt (OnWay d.path) t (Action.after (Engine.prepare d c t)) := by
  have hgrown := grownAt_ensure d free
  rw [Engine.prepare]
  cases hensure : d.ensure t with
  | error e u =>
      rw [hensure] at hgrown
      rw [Action.bind_of_error hensure]
      exact hgrown
  | ok made u =>
      rw [hensure] at hgrown
      rw [Action.bind_of_ok hensure]
      split
      · -- The guard is asked about a folder that was there.
        rename_i hguard
        simp only [Bool.and_eq_true, Bool.not_eq_true'] at hguard
        obtain ⟨rfl, hset⟩ := hguard
        rw [eq_of_ensure hensure, Action.after_bind fun _ _ => rfl,
          after_guard_of_kept (hkept hset)]
        exact .refl _ t
      · exact hgrown

/-! ### The whole opening -/

theorem spares_of_grownAt (grown : GrownAt (OnWay d.path) t u) : d.Spares t u := by
  refine ⟨fun l hl => grown.grown.eq_of_some hl,
    fun l data hl => .inl (grown.grown.eq_of_some hl), fun l node hl hnode => ?_⟩
  rcases grown l with hsame | ⟨-, hdir, hway⟩
  · cases (hsame.trans hl).symm.trans hnode
  · cases hdir.symm.trans hnode
    exact .inl ⟨rfl, .inl hway⟩

/-- What was made on the way to the folder, and then in it. -/
theorem spares_of_changed (htext : checkText d.path = .ok ()) (grown : GrownAt (OnWay d.path) t u)
    (changed : ∀ l, d.Changed d.place u v l) : d.Spares t v := by
  -- Only directories were made, so a file that is missing then was missing before.
  have hmissing {l : Location} (hnone : u.node? l = none) : t.node? l = none := by
    rcases grown l with hsame | ⟨-, hdir, -⟩
    · exact hsame ▸ hnone
    · cases hnone.symm.trans hdir
  constructor
  case dirs =>
    intro l hl
    have hu := grown.grown.eq_of_some hl
    rcases changed l with hsame | ⟨_, -, -, hdir⟩ | ⟨-, hnone, -⟩ | ⟨-, -, before, -⟩
    · exact hsame.trans hu
    · exact hdir
    · cases hnone.symm.trans hu
    · exact absurd hu before.ne_dir
  case files =>
    intro l data hl
    have hu := grown.grown.eq_of_some hl
    rcases changed l with hsame | ⟨_, -, hnone, -⟩ | ⟨-, hnone, -⟩ | ⟨beside, hnone, -, -⟩
    · exact .inl (hsame.trans hu)
    · cases hnone.symm.trans hu
    · cases hnone.symm.trans hu
    · exact .inr ⟨_, beside, hmissing hnone⟩
  case made =>
    intro l node hl hnode
    rcases changed l with
      hsame | ⟨id, hid, hmissing', hdir⟩ | ⟨beside, -, hfile⟩ | ⟨beside, -, -, after⟩
    · rcases grown l with hsame' | ⟨-, hdir, hway⟩
      · cases (hsame.trans (hsame'.trans hl)).symm.trans hnode
      · cases (hsame.trans hdir).symm.trans hnode
        exact .inl ⟨rfl, .inl hway⟩
    · cases hdir.symm.trans hnode
      refine .inl ⟨rfl, .inr ⟨id, hid.imp_right fun hlisted => ?_, rfl⟩⟩
      -- A directory on the way to the folder has a text for its name, and so was not misread.
      obtain ⟨name, hread, hlists⟩ := hlisted
      rcases grown (name :: d.place) with hsame | ⟨-, -, hway⟩
      · exact ⟨name, hread, hsame ▸ hlists⟩
      · rw [FileName.reading_of_text (mark_not_mem_of_onWay htext hway (List.mem_cons_self ..))]
          at hread
        rw [← hread] at hmissing'
        cases hmissing'.symm.trans hlists
    · cases hfile.symm.trans hnode
      exact .inr ⟨⟨_, rfl⟩, _, _, beside, .inl rfl⟩
    · refine .inr ⟨?_, _, _, beside, .inr rfl⟩
      cases node with
      | file data => exact ⟨data, rfl⟩
      | dir => exact absurd hnode after.ne_dir
      | link target => exact absurd hnode (after.ne_link target)

/-- Partitions in memory leave nothing in the tree. -/
theorem after_openAll_inMemory (d : StoreFolder) (c : EngineSettings) (host : Host) :
    (Action.after (Restore.openAll Backend.inMemory d c host)).tree = host.tree := by
  have hids : Backend.inMemory.idsOnDisk d host = .ok [] host := rfl
  rw [Restore.openAll_of_idsOnDisk hids]
  cases c.withMetadata <;> cases c.withData <;> rfl

/-- Opening all partitions changes what it may, with either backend, and leaves the folder where it
is. -/
theorem Standing.changed_openAll (standing : Standing d loc host.tree)
    (hstore : c.store = d.store) : Standing d loc (Restore.treeAfter d c host) ∧
      ∀ l, d.Changed loc host.tree (Restore.treeAfter d c host) l := by
  rw [Restore.treeAfter]
  cases c.backend with
  | inMemory =>
      rw [Backend.ofKind, after_openAll_inMemory]
      exact ⟨standing, fun l => .same rfl⟩
  | table =>
      obtain ⟨found, hfound, -, hmem⟩ := idsOnDisk_of_find (standing.find .followed) standing.isDir
      have restored := standing.restored_openAll hstore hfound (c := c)
      have settled : Settled d c loc (c.restored found) host.tree
          (Action.after (Restore.openAll Backend.table d c host)).tree := by
        cases hall : Restore.openAll Backend.table d c host with
        | ok registry host' =>
            rw [hall] at restored
            exact restored.1
        | error e host' =>
            rw [hall] at restored
            exact restored.1
      exact ⟨settled.standing, settled.changed standing fun id hid => (hmem id).1 hid⟩

/-- An opening either ends while the folder is made ready, or its partitions are opened, and then
the record is kept or not. -/
theorem tree_of_open (hnamed : StoreFolder.named c.root c.store = .ok d) (host : Host) :
    (∃ e, Engine.prepare d c host.tree = .error e (Action.after (Engine.open c host)).tree) ∨
      ∃ u, Engine.prepare d c host.tree = .ok () u ∧
        ((Action.after (Engine.open c host)).tree = Restore.treeAfter d c { host with tree := u } ∨
          (Action.after (Engine.open c host)).tree = Action.after
            (Engine.keepRecord d c (Restore.treeAfter d c { host with tree := u }))) := by
  cases hopen : Engine.open c host with
  | ok e host' =>
      obtain ⟨d', u, registry, host₁, v, hnamed', hprepare, hall, hkeep, rfl, -⟩ :=
        exists_of_open hopen
      cases hnamed.symm.trans hnamed'
      refine .inr ⟨u, hprepare, .inr ?_⟩
      rw [Restore.treeAfter, hall]
      exact (congrArg Action.after hkeep).symm
  | error e host' =>
      obtain ⟨d', hnamed', hcases⟩ := (exists_of_open_error hopen).resolve_left (by simp [hnamed])
      cases hnamed.symm.trans hnamed'
      rcases hcases with
        ⟨u, hprepare, rfl⟩ | ⟨u, hprepare, hall | ⟨registry, host₁, v, hall, hkeep, rfl⟩⟩
      · exact .inl ⟨e, hprepare⟩
      · exact .inr ⟨u, hprepare, .inl (by rw [Restore.treeAfter, hall]; rfl)⟩
      · refine .inr ⟨u, hprepare, .inr ?_⟩
        rw [Restore.treeAfter, hall]
        exact (congrArg Action.after hkeep).symm

/-- In a tree without links an opening spares all that was there, and makes nothing but its own,
unless it is to compare formats and finds the record of another one. Whether it succeeds makes no
difference. -/
theorem spares_of_open (c : EngineSettings) (host : Host) (free : host.tree.LinkFree [])
    (hkept : ∀ d, StoreFolder.named c.root c.store = .ok d → c.guardOnReopen = true →
      ∀ recorded, d.Records host.tree recorded → recorded = c.format) :
    (∀ d, StoreFolder.named c.root c.store = .ok d →
      d.Spares host.tree (Action.after (Engine.open c host)).tree) ∧
      ((∀ d, StoreFolder.named c.root c.store ≠ .ok d) →
        (Action.after (Engine.open c host)).tree = host.tree) := by
  refine ⟨fun d hnamed => ?_, fun hnot => ?_⟩
  swap
  · cases hnamed : StoreFolder.named c.root c.store with
    | ok d => exact absurd hnamed (hnot d)
    | error e =>
        rw [Engine.open, Engine.openWith, hnamed]
        rfl
  have grown := grownAt_prepare (d := d) free (hkept d hnamed)
  rcases tree_of_open hnamed host with ⟨e, hprepare⟩ | ⟨u, hprepare, hlast⟩
  · rw [hprepare] at grown
    exact spares_of_grownAt grown
  rw [hprepare] at grown
  replace grown : GrownAt (OnWay d.path) host.tree u := grown
  -- The folder is there now, and it is where its path goes.
  obtain ⟨htext, loc, hway⟩ := way_of_prepare hprepare
  have standing := (d.sited_place (free.congr grown.grown.sameLinks)).standing htext hway
  obtain ⟨standing', changed⟩ :=
    @Standing.changed_openAll _ c _ { host with tree := u } standing (store_of_named hnamed).2
  refine spares_of_changed htext grown ?_
  rcases hlast with hlast | hlast
  · rw [hlast]
    exact changed
  · rw [hlast]
    exact Changed.trans changed (standing'.changed_keepRecord c)

/-- An opening that is refused over a table of another format spares the store. -/
theorem spares_looseTable :
    looseTable.LinkFree [] ∧ Unrecorded ⟨⟨"."⟩, "s", by decide⟩ looseTable ∧
      ∃ e host', Engine.open { settingsUnder ⟨"."⟩ with format := .plain }
          (Host.ofTree looseTable) = .error e host' ∧
        Spares ⟨⟨"."⟩, "s", by decide⟩ looseTable host'.tree := by
  have unrecorded : Unrecorded ⟨⟨"."⟩, "s", by decide⟩ looseTable :=
    unrecorded_iff.2 (by decide +kernel)
  have key : Action.failsWith (Engine.open { settingsUnder ⟨"."⟩ with format := .plain })
      (Host.ofTree looseTable) (fun _ _ => true) = true := by decide +kernel
  obtain ⟨e, host', hopen, -⟩ := Action.exists_of_failsWith key
  have hnamed : StoreFolder.named ⟨"."⟩ "s" = .ok ⟨⟨"."⟩, "s", by decide⟩ := rfl
  have spares := (spares_of_open { settingsUnder ⟨"."⟩ with format := .plain }
    (Host.ofTree looseTable) (linkFree_looseTable []) fun d hd _ recorded records => by
      cases hnamed.symm.trans hd
      exact absurd unrecorded records.unique.2.1).1 _ hnamed
  rw [hopen] at spares
  exact ⟨linkFree_looseTable [], unrecorded, e, host', hopen, spares⟩

/-- A directory whose name is misread makes a new one, which is neither on the way to the folder nor
that of the metadata partition. -/
theorem makes_directory_of_misread :
    misreadTree.LinkFree [] ∧ Unrecorded misreadFolder misreadTree ∧
      ∃ e host', Engine.open { settingsUnder ⟨"."⟩ with store := misreadFolder.store }
          (Host.ofTree misreadTree) = .ok e host' ∧
        ∃ l, misreadTree.node? l = none ∧ host'.tree.node? l = some .dir ∧
          ¬OnWay misreadFolder.path l ∧
          l ≠ dirName misreadFolder.store metadataId :: misreadFolder.place := by
  have key : Action.succeedsWith
      (Engine.open { settingsUnder ⟨"."⟩ with store := misreadFolder.store })
      (Host.ofTree misreadTree) (fun _ host' => decide (host'.tree.node?
        [dirName misreadFolder.store 5, misreadFolder.store] = some .dir)) = true := by
    decide +kernel
  obtain ⟨e, host', hopen, hdir⟩ := Action.exists_of_succeedsWith key
  refine ⟨linkFree_of_listsNoLink (by decide +kernel) [], unrecorded_iff.2 (by decide +kernel), e,
    host', hopen, _, lists_misreadTree.2, of_decide_eq_true hdir, ?_, ?_⟩
  · rintro ⟨front, hfront, hl⟩
    -- The way to the folder has no step down to such a name.
    have hmem : dirName misreadFolder.store 5 ∈ Location.follow front :=
      hl ▸ List.mem_cons_self ..
    have hstep : .down (dirName misreadFolder.store 5) ∈ misreadFolder.path.steps :=
      hfront.subset ((mem_of_mem_foldl_step hmem).resolve_left (by simp))
    exact absurd hstep (by decide +kernel)
  · intro e
    exact absurd (dirName_injective (List.cons.inj e).1) (by decide)

end PartitionStore
