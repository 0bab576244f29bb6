import PartitionStore.Proofs.FileTree.Existing
import PartitionStore.Proofs.StoreFolder.Outcomes

/-!
# `PartitionStore.Proofs.StoreFolder.Standing`: folders that are there, in two trees

A folder stands in a tree if its path leads to it and there are no links in it
(`Standing`). Two trees in which it stands may differ in what it holds. To some of the
questions they give the same answers all the same:

* `Standing.readFrom_eq`: about its record, if that is the same (`SameRecord`). It makes no
  difference whether a directory without a record is there.
* `Standing.empty_eq`: once it was emptied nothing is left of the differences.
* `Standing.prepare_cases`: so making it ready comes to the same, or leaves both as they are.
* `Standing.answer_recordOnce`: writing a record comes to the same.
-/

set_option autoImplicit false

namespace PartitionStore

open FileTree Naming StoreFolder

/-- The folder's path leads to the directory at `loc`, and there are no links in it. -/
structure Standing (d : StoreFolder) (loc : Location) (t : FileTree) : Prop where
  named : ∃ parent, loc = d.store :: parent ∧ t.NamesEntry d.path parent d.store
  isDir : t.node? loc = some .dir
  free : t.LinkFree loc

/-- The record of the folder at `loc`, and the file beside it, are the same in both trees. The
directory for them may have been made. -/
structure SameRecord (d : StoreFolder) (loc : Location) (t u : FileTree) : Prop where
  dir : u.node? (dirName d.store metadataId :: loc) = t.node? (dirName d.store metadataId :: loc) ∨
    t.node? (dirName d.store metadataId :: loc) = none ∧
      u.node? (dirName d.store metadataId :: loc) = some .dir
  record : u.node? (d.recordPlace loc) = t.node? (d.recordPlace loc)
  scratch : u.node? (d.recordScratchPlace loc) = t.node? (d.recordScratchPlace loc)

/-- The format guard of an opening with the settings empties the folder. -/
def Engine.Wipes (d : StoreFolder) (c : EngineSettings) (t : FileTree) : Prop :=
  c.guardOnReopen = true ∧ ∃ recorded u, d.guard c.format t = .ok (.emptied recorded) u

variable {d : StoreFolder} {c : EngineSettings} {loc place : Location} {t u : FileTree}
  {e : StoreError}

/-- The meaning of a failure hangs on the failure. -/
theorem StoreAction.answer_during {α : Type} {action : StoreAction α} (step : InitializationStep)
    (h : Action.answer (action u) = Action.answer (action t)) :
    Action.answer (StoreAction.during step action u) =
      Action.answer (StoreAction.during step action t) := by
  rw [StoreAction.during, StoreAction.during]
  cases hu : action u <;> cases ht : action t <;> rw [hu, ht] at h <;> cases h
  · rfl
  · rename_i e _ _
    cases e <;> rfl

/-! ### What the guard reads -/

/-- A record that cannot be read is an error. -/
theorem StoreFolder.guard_of_readFrom_error {cause : IoError}
    (h : EngineRecord.readFrom t d.recordPath = .error cause) (format : TableFormat) :
    d.guard format t = .error (.initializationFailure (.readRecord d.recordPath) cause) t := by
  have hrecord : d.readRecord t = .error (.io cause) t := by
    rw [readRecord, EngineRecord.read]
    exact StoreAction.io_of_error (by simp only [Files.ask, h])
  have hduring : StoreAction.during (.readRecord d.recordPath) d.readRecord t =
      .error (.initializationFailure (.readRecord d.recordPath) cause) t := by
    simp only [StoreAction.during, hrecord]
  rw [guard, Action.bind_of_error hduring]

/-- What is read from the record's path is the record that the store reads. -/
theorem StoreFolder.readRecord_of_readFrom {record? : Option EngineRecord}
    (h : EngineRecord.readFrom t d.recordPath = .ok record?) :
    d.readRecord t = .ok record? t := by
  rw [readRecord, EngineRecord.read]
  exact StoreAction.io_of_ok (Files.ask_of_ok h)

/-- Without a readable record there is nothing to compare with. -/
theorem Engine.not_wipes_of_readFrom (h : EngineRecord.readFrom t d.recordPath = .ok none) :
    ¬Engine.Wipes d c t := by
  rintro ⟨-, recorded, u, hguard⟩
  rw [guard_eq (readRecord_of_readFrom h)] at hguard
  cases hguard

/-- What the guard does is up to the record that it reads: it leaves the folder as it is, or
empties it. -/
theorem StoreFolder.guard_cases (d : StoreFolder) (record? : Option EngineRecord)
    (format : TableFormat) :
    (∃ verdict, (∀ recorded, verdict ≠ .emptied recorded) ∧
        ∀ t, EngineRecord.readFrom t d.recordPath = .ok record? →
          d.guard format t = .ok verdict t) ∨
      ∃ recorded, ∀ t, EngineRecord.readFrom t d.recordPath = .ok record? →
        d.guard format t = (do d.empty; pure (GuardVerdict.emptied recorded)) t := by
  cases hformat : record?.bind EngineRecord.format? with
  | none =>
      refine .inl ⟨.noRecord, by simp, fun t h => ?_⟩
      rw [guard_eq (readRecord_of_readFrom h), hformat]
  | some recorded =>
      by_cases hsame : recorded = format
      · refine .inl ⟨.sameFormat, by simp, fun t h => ?_⟩
        rw [guard_eq (readRecord_of_readFrom h), hformat]
        exact if_pos hsame
      · refine .inr ⟨recorded, fun t h => ?_⟩
        rw [guard_eq (readRecord_of_readFrom h), hformat]
        exact if_neg hsame

/-- Where the guard empties the folder nothing else is done. -/
theorem StoreFolder.bind_guard_of_emptied {format recorded : TableFormat}
    (h : d.guard format t = (do d.empty; pure (GuardVerdict.emptied recorded)) t) :
    (do let _ ← d.guard format : StoreAction Unit) t = d.empty t := by
  rw [Action.bind_congr h]
  cases hrun : d.empty t with
  | error e u => exact Action.bind_of_error (Action.bind_of_error hrun)
  | ok _ u =>
      have hfirst : (do d.empty; pure (GuardVerdict.emptied recorded) : StoreAction _) t =
          .ok (.emptied recorded) u := Action.bind_of_ok hrun
      exact Action.bind_of_ok hfirst

/-- Where the folder cannot be emptied that is told as part of the opening. -/
theorem StoreFolder.exists_of_empty_error (h : d.empty t = .error e u) :
    ∃ step cause, e = .initializationFailure step cause := by
  rcases Action.bind_eq_error_iff.1 h with hremove | ⟨_, v, -, hmake⟩
  · obtain ⟨cause, -, rfl⟩ := StoreAction.exists_of_ofFiles_error hremove
    exact ⟨_, cause, rfl⟩
  · obtain ⟨cause, -, rfl⟩ := StoreAction.exists_of_ofFiles_error hmake
    exact ⟨_, cause, rfl⟩

/-! ### Where a folder stands -/

/-- A folder that is sited and reached stands. -/
theorem Sited.standing (sited : Sited d loc t) (htext : checkText d.path = .ok ())
    (hway : t.resolveSteps .followed d.path.steps = .ok (.occupied place .dir)) :
    Standing d loc t := by
  have hplain := isPlainName_of_isStoreName d.isStoreName
  obtain rfl : place = loc := sited.points.loc_eq hway
  obtain ⟨⟨parent, hloc, points⟩, free⟩ := sited
  exact ⟨⟨parent, hloc, points.namesEntry hplain htext hway⟩, resolveSteps_isIn hway, free⟩

/-- So it does if it is a directory. -/
theorem Sited.standing_of_isDir (sited : Sited d loc t) (h : t.isDir d.path = true) :
    Standing d loc t := by
  have hplain := isPlainName_of_isStoreName d.isStoreName
  obtain ⟨htext, place, hway⟩ := exists_way_of_isDir (Path.endsWithSlash_join _ hplain) h
  exact sited.standing htext hway

/-- A folder that was emptied is made again last, so its path leads to it. -/
theorem StoreFolder.way_of_empty (h : d.empty t = .ok () u) : checkText d.path = .ok () ∧
    ∃ loc, u.resolveSteps .followed d.path.steps = .ok (.occupied loc .dir) := by
  obtain ⟨_, v, -, hmake⟩ := Action.bind_eq_ok_iff.1 h
  cases hcreate : Files.createDirAll d.path v with
  | error e w =>
      rw [StoreAction.ofFiles_of_error hcreate] at hmake
      cases hmake
  | ok _ w =>
      rw [StoreAction.ofFiles_of_ok hcreate] at hmake
      cases hmake
      exact resolveSteps_of_createDirAll (isPlainName_of_isStoreName d.isStoreName) hcreate

/-- A folder that was emptied is there again. -/
theorem Sited.standing_of_empty (sited : Sited d loc t) (h : d.empty t = .ok () u) :
    Standing d loc u := by
  have within := sited.empty_within
  rw [h] at within
  obtain ⟨htext, place, hway⟩ := way_of_empty h
  exact (sited.congr within.links).standing htext hway

namespace Standing

/-- What changes at places where no way goes on leaves the folder where it is. -/
theorem frame (standing : Standing d loc t) (links : SameLinks t u)
    (stuck : ∀ l, u.node? l ≠ t.node? l → t.TakesFile l) : Standing d loc u := by
  obtain ⟨⟨parent, hloc, named⟩, isDir, free⟩ := standing
  refine ⟨⟨parent, hloc, named.frame stuck fun l hl => not_not.1 hl⟩, ?_, free.congr links⟩
  by_contra hchanged
  exact (stuck loc fun e => hchanged (e.trans isDir)).ne_dir isDir

/-- A folder that stands is sited. -/
theorem sited (standing : Standing d loc t) : Sited d loc t := by
  obtain ⟨⟨parent, rfl, named⟩, -, free⟩ := standing
  -- The steps in front of the store's name are those of the root.
  obtain ⟨front, hsteps, hfront⟩ := named.way
  have hroot : d.root.steps = front := List.append_cancel_right
    ((Path.steps_join (isPlainName_of_isStoreName d.isStoreName)).symm.trans hsteps)
  exact ⟨⟨parent, rfl, pointsTo_of_resolveSteps (hroot ▸ hfront)⟩, free⟩

/-- The steps of its path lead to it. -/
theorem way (standing : Standing d loc t) :
    t.resolveSteps .followed d.path.steps = .ok (.occupied loc .dir) := by
  obtain ⟨⟨parent, rfl, named⟩, isDir, -⟩ := standing
  have hway := named.resolveSteps .followed (by simp [isDir])
  rwa [isDir] at hway

/-- Its path finds it, whatever becomes of links: it is none. -/
theorem find (standing : Standing d loc t) (last : LastLink) :
    t.find last d.path = .ok (loc, .dir) := by
  obtain ⟨⟨parent, rfl, named⟩, isDir, -⟩ := standing
  exact named.find last isDir (by simp)

/-- It need not be made. -/
theorem ensure (standing : Standing d loc t) : d.ensure t = .ok false t :=
  ensure_of_isDir (by rw [FileTree.isDir, standing.find])

/-! ### The record -/

/-- Reading the record answers the same where it is the same, and the directory was made in
between, or not. -/
theorem find_recordPath (standing : Standing d loc t) (standing' : Standing d loc u)
    (same : SameRecord d loc t u) :
    u.find .followed d.recordPath = t.find .followed d.recordPath := by
  cases htext : checkText d.recordPath with
  | error e => simp [FileTree.find, FileTree.resolve, htext, bind, Except.bind]
  | ok _ =>
      have hplain := d.isPlainName_dir metadataId
      have hrecord := same.record
      have hpath : d.recordPath = (d.path.join (dirName d.store metadataId)).join recordFileName :=
        rfl
      rw [hpath] at htext ⊢
      rw [find_below standing'.way hplain (by decide) htext (standing'.free.entry _)
          fun _ => (standing'.free.cons _).entry _,
        find_below standing.way hplain (by decide) htext (standing.free.entry _)
          fun _ => (standing.free.cons _).entry _]
      rw [recordPlace] at hrecord
      rw [hrecord]
      rcases same.dir with hdir | ⟨hnone, hdir⟩
      · rw [hdir]
      · -- Where there is no record, it makes no difference whether its directory is there.
        rw [hnone, hdir]
        cases t.node? (recordFileName :: dirName d.store metadataId :: loc) <;> rfl

/-- The record is there in both trees or in neither. -/
theorem exists_recordPath (standing : Standing d loc t) (standing' : Standing d loc u)
    (same : SameRecord d loc t u) : u.exists d.recordPath = t.exists d.recordPath := by
  rw [FileTree.exists, FileTree.exists, standing.find_recordPath standing' same]

/-- The same is read from it in both trees. -/
theorem readFrom_eq (standing : Standing d loc t) (standing' : Standing d loc u)
    (same : SameRecord d loc t u) :
    EngineRecord.readFrom u d.recordPath = EngineRecord.readFrom t d.recordPath := by
  rw [EngineRecord.readFrom, EngineRecord.readFrom, EngineRecord.readText, EngineRecord.readText,
    FileTree.read, FileTree.read, standing.find_recordPath standing' same]

/-- What is emptied is the same afterwards if it was the same around the folder. -/
theorem empty_eq (standing : Standing d loc t) (standing' : Standing d loc u)
    (same : ∀ l, ¬Location.Inside loc l → u.node? l = t.node? l) : d.empty u = d.empty t := by
  -- Once both are cleared the trees are the same.
  have hclear : u.clear loc = t.clear loc := by
    refine ext_node? fun l => ?_
    rw [node?_clear, node?_clear]
    split
    · rfl
    · rename_i hl
      exact same l hl
  have hremove : Files.removeDirAll d.path u = Files.removeDirAll d.path t := by
    rw [Files.removeDirAll, Files.removeDirAll, standing.find, standing'.find]
    simp only [hclear]
  refine Action.bind_congr ?_
  rw [StoreAction.ofFiles, StoreAction.ofFiles, hremove]

/-! ### Making the folder ready -/

/-- A folder with the same record is made ready in the same way: it is refused, or left as it is,
or emptied, and then nothing is left of the differences. -/
theorem prepare_cases (standing : Standing d loc t) (standing' : Standing d loc u)
    (record : SameRecord d loc t u) (outside : ∀ l, ¬Location.Inside loc l → u.node? l = t.node? l)
    (c : EngineSettings) :
    (∃ step cause, Engine.prepare d c t = .error (.initializationFailure step cause) t ∧
        Engine.prepare d c u = .error (.initializationFailure step cause) u) ∨
      (Engine.prepare d c t = .ok () t ∧ Engine.prepare d c u = .ok () u ∧
        ¬Engine.Wipes d c t) ∨
      Engine.prepare d c t = d.empty t ∧ Engine.prepare d c u = d.empty t ∧
        ∀ w, d.empty t = .ok () w → Engine.Wipes d c t := by
  -- Where the folder stands, to prepare it is to let the guard look at it.
  have hprepare {s : FileTree} (hs : Standing d loc s) : Engine.prepare d c s =
      (if c.guardOnReopen then (do let _ ← d.guard c.format) else pure () : StoreAction Unit) s := by
    rw [Engine.prepare, Action.bind_of_ok hs.ensure]
    rfl
  rw [hprepare standing, hprepare standing']
  cases hguard : c.guardOnReopen with
  | false => exact .inr (.inl ⟨rfl, rfl, fun h => by simp [Engine.Wipes, hguard] at h⟩)
  | true =>
      rw [if_pos rfl]
      have hread' := standing.readFrom_eq standing' record
      cases hread : EngineRecord.readFrom t d.recordPath with
      | error cause =>
          rw [hread] at hread'
          exact .inl ⟨_, _, Action.bind_of_error (guard_of_readFrom_error hread c.format),
            Action.bind_of_error (guard_of_readFrom_error hread' c.format)⟩
      | ok record? =>
          rw [hread] at hread'
          rcases d.guard_cases record? c.format with ⟨verdict, hverdict, hkept⟩ | ⟨recorded, hempties⟩
          · refine .inr (.inl ⟨Action.bind_of_ok (hkept t hread),
              Action.bind_of_ok (hkept u hread'), ?_⟩)
            rintro ⟨-, recorded, w, hwiped⟩
            cases (hkept t hread).symm.trans hwiped
            exact hverdict recorded rfl
          · refine .inr (.inr ⟨bind_guard_of_emptied (hempties t hread),
              (bind_guard_of_emptied (hempties u hread')).trans (standing.empty_eq standing' outside),
              fun w hw => ?_⟩)
            exact ⟨hguard, recorded, w, (hempties t hread).trans (Action.bind_of_ok hw)⟩

/-! ### Writing a record -/

/-- The place for the directory of a partition is named by its path, if that is not too long. -/
theorem namesEntry_of_usable (standing : Standing d loc t) {id : Int32}
    (usable : isEntryName (dirName d.store id) = true)
    (htext : checkText (d.partitionPath id) = .ok ()) :
    t.NamesEntry (d.partitionPath id) loc (dirName d.store id) :=
  ⟨htext, endsWithSlash_partitionPath d id, usable, d.path.steps,
    Path.steps_join (d.isPlainName_dir id), standing.way⟩

/-- A partition's directory is named by its path, if that can be walked. -/
theorem namesEntry (standing : Standing d loc t) {id : Int32}
    (hdir : t.node? (dirName d.store id :: loc) = some .dir)
    (htext : checkText (d.partitionPath id) = .ok ()) :
    t.NamesEntry (d.partitionPath id) loc (dirName d.store id) :=
  standing.namesEntry_of_usable (isEntryName_of_node? hdir) htext

/-- A file in it is named by a path below that, if that one is not too long. -/
theorem namesEntry_file (standing : Standing d loc t) {id : Int32} {file : String}
    (hdir : t.node? (dirName d.store id :: loc) = some .dir)
    (hfile : isEntryName file = true)
    (htext : checkText ((d.partitionPath id).join file) = .ok ()) :
    t.NamesEntry ((d.partitionPath id).join file) (dirName d.store id :: loc) file := by
  have hpath := Path.checkText_of_join (isPlainName_of_isEntryName hfile)
    (text_partitionPath_ne d id) htext
  exact (standing.namesEntry hdir hpath).join hdir hfile htext

/-- A record that is not there is written, unless a directory is in the way. -/
theorem answer_replace (standing : Standing d loc t)
    (hdir : t.node? (dirName d.store metadataId :: loc) = some .dir)
    (htext : checkText ((d.partitionPath metadataId).join recordScratchName) = .ok ())
    (hmissing : t.exists d.recordPath = false) (data : Bytes) :
    Action.answer (Files.replace d.recordPath
        ((d.partitionPath metadataId).join recordScratchName) data t) =
      if t.node? (d.recordScratchPlace loc) = some .dir then .error .isADirectory else .ok () := by
  have hroom := (hasRoom_recordScratch_iff d).1
    (Path.hasRoom_of_checkText htext (Path.endsWithSlash_join _ (by decide)))
  have hpath := Path.checkText_of_hasRoom ((hasRoom_recordPath_iff d).2 (hroom.mono (by omega)))
  have hrecord := standing.namesEntry_file hdir (by decide) hpath
  have hscratch := standing.namesEntry_file hdir (by decide) htext
  have hnone : t.node? (d.recordPlace loc) = none := by
    by_contra hsome
    obtain ⟨node, hnode⟩ := Option.ne_none_iff_exists'.1 hsome
    have hthere := hrecord.exists_of_some hnode fun target e =>
      (standing.free.cons _).entry _ target (e ▸ hnode)
    cases hmissing.symm.trans hthere
  -- Nothing but a directory under the scratch name can stand in the way.
  split
  · rename_i hblocked
    have hreplace : Files.replace d.recordPath
        ((d.partitionPath metadataId).join recordScratchName) data t = .error .isADirectory t :=
      Files.replace_of_write_error (hscratch.write_of_isDir hblocked data)
    rw [hreplace]
    rfl
  · rename_i hfree
    obtain ⟨u, hreplace, -⟩ := replace_ok hrecord hscratch (by decide) (takesFile_of_none hnone)
      (takesFile_of_ne hfree ((standing.free.cons _).entry _)) data
    rw [recordPath, hreplace]
    rfl

/-- What is written beside a record that is not there comes to the same. -/
theorem answer_replace_eq (standing : Standing d loc t) (standing' : Standing d loc u)
    (same : SameRecord d loc t u) (hdir : t.node? (dirName d.store metadataId :: loc) = some .dir)
    (hdir' : u.node? (dirName d.store metadataId :: loc) = some .dir)
    (hmissing : t.exists d.recordPath = false) (data : Bytes) :
    Action.answer (Files.replace d.recordPath
        ((d.partitionPath metadataId).join recordScratchName) data u) =
      Action.answer (Files.replace d.recordPath
        ((d.partitionPath metadataId).join recordScratchName) data t) := by
  cases htext : checkText ((d.partitionPath metadataId).join recordScratchName) with
  | error e =>
      -- A path that is too long is refused in both trees.
      rw [replace_of_checkText htext, replace_of_checkText htext]
      rfl
  | ok _ =>
      have hmissing' := (standing.exists_recordPath standing' same).trans hmissing
      rw [standing.answer_replace hdir htext hmissing, standing'.answer_replace hdir' htext hmissing',
        same.scratch]

/-- To give the folder a record comes to the same, once the directory for it is there. -/
theorem answer_recordOnce (standing : Standing d loc t) (standing' : Standing d loc u)
    (same : SameRecord d loc t u) (hdir : t.node? (dirName d.store metadataId :: loc) = some .dir)
    (record : EngineRecord) :
    Action.answer (d.recordOnce record u) = Action.answer (d.recordOnce record t) := by
  have hdir' : u.node? (dirName d.store metadataId :: loc) = some .dir := by
    rcases same.dir with e | ⟨hnone, -⟩
    · exact e.trans hdir
    · cases hnone.symm.trans hdir
  rw [recordOnce, Action.bind_of_ok (Action.get_apply u), Action.bind_of_ok (Action.get_apply t),
    standing.exists_recordPath standing' same]
  split
  · rfl
  rename_i hmissing
  -- The directory is there in both trees, so it is not made, and the writing decides.
  cases htext : checkText (d.partitionPath metadataId) with
  | error e =>
      have hmake := createDirAll_of_checkText (text_partitionPath_ne d _) htext
      rw [Action.bind_of_error (StoreAction.io_of_error (hmake u)),
        Action.bind_of_error (StoreAction.io_of_error (hmake t))]
      rfl
  | ok _ =>
      have hmake := createDirAll_of_isDir (standing.namesEntry hdir htext) hdir
      have hmake' := createDirAll_of_isDir (standing'.namesEntry hdir' htext) hdir'
      have hreplace := standing.answer_replace_eq standing' same hdir hdir' (by simpa using hmissing)
        record.bytes
      rw [Action.bind_of_ok (StoreAction.io_of_ok hmake),
        Action.bind_of_ok (StoreAction.io_of_ok hmake')]
      refine Action.answer_bind_congr ?_ fun _ _ _ _ _ => rfl
      rw [EngineRecord.write, withExtension_recordPath, StoreAction.io, StoreAction.ofFiles,
        StoreAction.ofFiles]
      revert hreplace
      cases Files.replace d.recordPath ((d.partitionPath metadataId).join recordScratchName)
        record.bytes u <;>
        cases Files.replace d.recordPath ((d.partitionPath metadataId).join recordScratchName)
          record.bytes t <;> simp [Action.answer]

/-- Where the metadata partition came to the same the record is kept with the same result. -/
theorem answer_keepRecord (standing : Standing d loc t) (standing' : Standing d loc u)
    (same : SameRecord d loc t u)
    (hdir : c.withMetadata = true → t.node? (dirName d.store metadataId :: loc) = some .dir) :
    Action.answer (Engine.keepRecord d c u) = Action.answer (Engine.keepRecord d c t) := by
  rw [Engine.keepRecord]
  cases hmetadata : c.withMetadata with
  | false => rfl
  | true =>
      exact Action.answer_bind_congr (StoreAction.answer_during .keepRecord
        (standing.answer_recordOnce standing' same (hdir hmetadata) c.record)) fun _ _ _ _ _ => rfl

end Standing

end PartitionStore
