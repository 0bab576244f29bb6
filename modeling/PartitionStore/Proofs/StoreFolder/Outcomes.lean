import PartitionStore.Engine.Open
import PartitionStore.Proofs.FileTree.Replacing
import PartitionStore.Proofs.StoreFolder

/-!
# `PartitionStore.Proofs.StoreFolder.Outcomes`: all that making a folder ready can do

A store's folder is made, emptied or given its record, and any of it may fail. Here is
what is left in the tree in every case, for a folder whose place is known: its path
points somewhere, and no symbolic links are there (`Sited`).

* `Sited.prepare_within`: what changes is in the folder, but for directories on the way.
* `Sited.keepRecord_cases`: a record that is there is left alone, and there is one
  afterwards.
-/

set_option autoImplicit false

namespace PartitionStore

open FileTree Naming StoreFolder

/-- The folder is at `loc` if it is anywhere: its root points to what is above. There is no
symbolic link in its place or below. -/
structure Sited (d : StoreFolder) (loc : Location) (t : FileTree) : Prop where
  root : ∃ parent, loc = d.store :: parent ∧ t.PointsTo d.root parent
  free : t.LinkFree loc

/-- Where the engine record of a store is if its folder is at `loc`. -/
def StoreFolder.recordPlace (d : StoreFolder) (loc : Location) : Location :=
  recordFileName :: dirName d.store metadataId :: loc

/-- Where the file is by way of which the record is written. -/
def StoreFolder.recordScratchPlace (d : StoreFolder) (loc : Location) : Location :=
  recordScratchName :: dirName d.store metadataId :: loc

variable {d : StoreFolder} {c : EngineSettings} {loc parent : Location} {t u : FileTree}
  {root : Path} {store name : String} {i id : Int32}

/-- What is in the directory of one partition is not in that of another one. -/
theorem not_suffix_of_ne (hne : i ≠ id) {l : Location} (hl : dirName d.store i :: loc <:+ l) :
    ¬dirName d.store id :: loc <:+ l := by
  obtain ⟨front, rfl⟩ := hl
  rintro ⟨front', e⟩
  have hdirs := List.append_inj_right' e (by simp)
  exact hne (dirName_injective (List.cons.inj hdirs).1).symm

/-- A folder is below the place that the root points to. -/
theorem sited_of_named (hnamed : StoreFolder.named root store = .ok d)
    (points : t.PointsTo root parent) (free : t.LinkFree (store :: parent)) :
    Sited d (store :: parent) t := by
  obtain ⟨rfl, rfl⟩ := store_of_named hnamed
  exact ⟨⟨parent, rfl, points⟩, free⟩

/-- Where the folder is not there, making it ready is making it; the guard is not asked. -/
theorem createDirAll_of_prepare (habsent : ¬d.isThere t = true)
    (h : Engine.prepare d c t = .ok () u) : Files.createDirAll d.path t = .ok () u := by
  rw [Engine.prepare] at h
  obtain ⟨made, u', hensure, h⟩ := Action.bind_eq_ok_iff.1 h
  rw [ensure, Action.bind_of_ok (Action.get_apply t), if_neg habsent] at hensure
  obtain ⟨_, u'', hcreate, hpure⟩ := Action.bind_eq_ok_iff.1 hensure
  cases hpure
  cases h
  cases hmake : Files.createDirAll d.path t with
  | ok _ u' =>
      rw [StoreAction.ofFiles_of_ok hmake] at hcreate
      cases hcreate
      rfl
  | error e u' =>
      rw [StoreAction.ofFiles_of_error hmake] at hcreate
      cases hcreate

/-- Where something is in the folder's place, it is the folder, or making it ready fails. -/
theorem isDir_of_prepare (hpresent : d.isThere t = true) (h : Engine.prepare d c t = .ok () u) :
    t.isDir d.path = true := by
  by_contra hno
  have hrefused : Engine.prepare d c t = .error (.notADirectory d.path) t := by
    refine Action.bind_of_error ?_
    rw [ensure, Action.bind_of_ok (Action.get_apply t), if_pos hpresent, if_neg hno]
    rfl
  cases h.symm.trans hrefused

namespace Sited

/-- Where a store is sited is a matter of the links, and these are the same. -/
theorem congr (sited : Sited d loc t) (same : SameLinks t u) : Sited d loc u := by
  obtain ⟨⟨parent, hloc, points⟩, free⟩ := sited
  exact ⟨⟨parent, hloc, points.congr same⟩, free.congr same⟩

/-- The path of the folder points to its place. -/
theorem points (sited : Sited d loc t) : t.PointsTo d.path loc := by
  obtain ⟨⟨parent, rfl, points⟩, free⟩ := sited
  exact points.join (isPlainName_of_isStoreName d.isStoreName)
    fun target => free _ target (List.suffix_refl _)

/-- The path of a partition's directory points to its name in that place. -/
theorem partition (sited : Sited d loc t) (id : Int32) :
    t.PointsTo (d.partitionPath id) (dirName d.store id :: loc) :=
  sited.points.join (d.isPlainName_dir id) (sited.free.entry _)

/-- There are no links in a partition's directory, as there are none in the folder. -/
theorem free_partition (sited : Sited d loc t) (id : Int32) :
    t.LinkFree (dirName d.store id :: loc) := sited.free.cons _

/-- The path of the record points to its place. -/
theorem record (sited : Sited d loc t) : t.PointsTo d.recordPath (d.recordPlace loc) :=
  (sited.partition metadataId).join (by decide) ((sited.free_partition metadataId).entry _)

/-! ### Removing the folder -/

/-- The folder is removed, or nothing changes. -/
theorem removeDirAll_cases (sited : Sited d loc t) :
    (∃ e, Files.removeDirAll d.path t = .error e t) ∨
      ∃ u, Files.removeDirAll d.path t = .ok () u ∧ Gone loc t u := by
  rcases FileTree.removeDirAll_cases d.getLast?_path d.endsWithSlash_path t with
    ⟨hfails, -⟩ | ⟨loc', node, u, hfind, -, hremove, gone⟩
  · exact .inl hfails
  · -- What is removed is what the path points to.
    obtain ⟨⟨parent, rfl, points⟩, -⟩ := sited
    obtain rfl := points.loc_eq_of_find (isPlainName_of_isStoreName d.isStoreName) hfind
    exact .inr ⟨u, hremove, gone⟩

/-- To remove the folder does nothing where it is not there, or fails and changes nothing, or takes
the folder away with all that is in it. -/
theorem remove_cases (sited : Sited d loc t) :
    d.remove t = .ok false t ∨ (∃ e, d.remove t = .error (.io e) t) ∨
      ∃ u, d.remove t = .ok true u ∧ Gone loc t u := by
  rw [remove, Action.bind_of_ok (Action.get_apply t)]
  split
  · rcases sited.removeDirAll_cases with ⟨e, hremove⟩ | ⟨u, hremove, gone⟩
    · exact .inr (.inl ⟨e, Action.bind_of_error (StoreAction.io_of_error hremove)⟩)
    · exact .inr (.inr ⟨u, Action.bind_of_ok (StoreAction.io_of_ok hremove), gone⟩)
  · exact .inl rfl

/-! ### Making the folder ready -/

/-- Whatever becomes of the attempt to empty the folder, what changes is the folder and what is in
it, apart from new directories. -/
theorem empty_within (sited : Sited d loc t) :
    Within (loc <:+ ·) t (Action.after (d.empty t)) := by
  rcases sited.removeDirAll_cases with ⟨e, hremove⟩ | ⟨u, hremove, gone⟩
  · rw [StoreFolder.empty, Action.bind_of_error (StoreAction.ofFiles_of_error hremove)]
    exact .refl _ t
  · have hgone := Within.of_gone gone sited.free
    have hgrown := grown_createDirAll d.path u
    rw [StoreFolder.empty, Action.bind_of_ok (StoreAction.ofFiles_of_ok hremove)]
    cases hmake : Files.createDirAll d.path u with
    | ok _ v =>
        rw [hmake] at hgrown
        rw [StoreAction.ofFiles_of_ok hmake]
        exact hgone.trans (.of_grown hgrown)
    | error e v =>
        rw [hmake] at hgrown
        rw [StoreAction.ofFiles_of_error hmake]
        exact hgone.trans (.of_grown hgrown)

/-- What is there before the guard looks is made, or left as it is. -/
theorem grown_ensure (d : StoreFolder) (t : FileTree) : Grown t (Action.after (d.ensure t)) := by
  rw [ensure, Action.bind_of_ok (Action.get_apply t)]
  split
  · split <;> exact .refl t
  · have hgrown := grown_createDirAll d.path t
    cases hmake : Files.createDirAll d.path t with
    | ok _ u =>
        rw [hmake] at hgrown
        rw [Action.bind_of_ok (StoreAction.ofFiles_of_ok hmake)]
        exact hgrown
    | error e u =>
        rw [hmake] at hgrown
        rw [Action.bind_of_error (StoreAction.ofFiles_of_error hmake)]
        exact hgrown

/-- To read the record changes nothing, whether it succeeds or not. -/
theorem readRecord_same (d : StoreFolder) (t : FileTree) :
    (∃ found, d.readRecord t = .ok found t) ∨ ∃ e, d.readRecord t = .error (.io e) t := by
  rw [readRecord, EngineRecord.read]
  cases hread : EngineRecord.readFrom t d.recordPath with
  | ok found => exact .inl ⟨found, StoreAction.io_of_ok (Files.ask_of_ok hread)⟩
  | error e => exact .inr ⟨e, StoreAction.io_of_error (by simp only [Files.ask, hread])⟩

/-- The guard empties the folder or leaves it as it is. -/
theorem guard_within (sited : Sited d loc t) (format : TableFormat) :
    Within (loc <:+ ·) t (Action.after (d.guard format t)) := by
  rcases readRecord_same d t with ⟨found, hread⟩ | ⟨e, hread⟩
  · rw [guard_eq hread]
    split
    · exact .refl _ t
    · split
      · exact .refl _ t
      · rw [Action.after_bind fun _ _ => rfl]
        exact sited.empty_within
  · have hduring : StoreAction.during (.readRecord d.recordPath) d.readRecord t =
        .error (.initializationFailure (.readRecord d.recordPath) e) t := by
      simp only [StoreAction.during, hread]
    rw [StoreFolder.guard, Action.bind_of_error hduring]
    exact .refl _ t

/-- Where a folder is made ready, what changes is in it, but for new directories. -/
theorem prepare_within (sited : Sited d loc t) (c : EngineSettings) :
    Within (loc <:+ ·) t (Action.after (Engine.prepare d c t)) := by
  have hgrown := grown_ensure d t
  rw [Engine.prepare]
  cases hensure : d.ensure t with
  | error e u =>
      rw [hensure] at hgrown
      rw [Action.bind_of_error hensure]
      exact .of_grown hgrown
  | ok made u =>
      rw [hensure] at hgrown
      replace hgrown : Grown t u := hgrown
      rw [Action.bind_of_ok hensure]
      split
      · rw [Action.after_bind fun _ _ => rfl]
        exact (Within.of_grown hgrown).trans ((sited.congr hgrown.sameLinks).guard_within _)
      · exact .of_grown hgrown

/-! ### Keeping a record -/

/-- Where a record was written it reads as what was written. -/
theorem read_of_recordOnce (sited : Sited d loc t) {record : EngineRecord} {wrote : Bool}
    (hmissing : t.exists d.recordPath = false) (h : d.recordOnce record t = .ok wrote u) :
    u.read d.recordPath = .ok record.bytes := by
  obtain ⟨v, hmake, hwrite⟩ := exists_of_recordOnce hmissing h
  have hgrown := grown_createDirAll (d.partitionPath metadataId) t
  rw [hmake] at hgrown
  replace sited := sited.congr (u := v) hgrown.sameLinks
  exact (sited.partition metadataId).read_of_replace (sited.free_partition metadataId)
    (by decide) (by decide) (by decide) hwrite

/-- A record that is there is left as it is. Where there is none one is written, and that is the
only change but for directories. -/
theorem recordOnce_cases (sited : Sited d loc t) (record : EngineRecord) :
    (∃ wrote u, d.recordOnce record t = .ok wrote u ∧
        (∃ node, u.node? (d.recordPlace loc) = some node) ∧
        (t.exists d.recordPath = true → u = t) ∧
        Within (fun l => l = d.recordPlace loc ∨ l = d.recordScratchPlace loc) t u) ∨
      ∃ e u, d.recordOnce record t = .error (.io e) u ∧
        Within (fun l => l = d.recordPlace loc ∨ l = d.recordScratchPlace loc) t u := by
  -- A record that is there stays. Else its directory is made, and then it is written beside and
  -- moved.
  by_cases hthere : t.exists d.recordPath = true
  · rw [recordOnce_of_exists hthere]
    have named := (sited.partition metadataId).of_exists (by decide) hthere
    refine .inl ⟨false, t, rfl, Option.ne_none_iff_exists'.1 fun hnone => ?_, fun _ => rfl,
      .refl _ t⟩
    have habsent := named.exists_of_none hnone
    rw [show t.exists ((d.partitionPath metadataId).join recordFileName) = true from hthere]
      at habsent
    cases habsent
  · rw [recordOnce, Action.bind_of_ok (Action.get_apply t), if_neg hthere]
    have hgrown := grown_createDirAll (d.partitionPath metadataId) t
    cases hmake : Files.createDirAll (d.partitionPath metadataId) t with
    | error e u =>
        rw [hmake] at hgrown
        rw [Action.bind_of_error (StoreAction.io_of_error hmake)]
        exact .inr ⟨e, u, rfl, .of_grown hgrown⟩
    | ok _ u =>
        rw [hmake] at hgrown
        replace hgrown : Grown t u := hgrown
        have sited' := sited.congr hgrown.sameLinks
        have free := sited'.free_partition metadataId
        rw [Action.bind_of_ok (StoreAction.io_of_ok hmake), EngineRecord.write,
          withExtension_recordPath]
        have hname : Path.isPlainName recordFileName = true := by decide
        have hother : Path.isPlainName recordScratchName = true := by decide
        rcases replace_cases (sited'.partition metadataId) free hname hother (by decide)
          record.bytes with
          ⟨v, hreplace, hnode⟩ | ⟨e, v, hreplace, links, same⟩
        · refine .inl ⟨true, v, Action.bind_of_ok (StoreAction.io_of_ok hreplace),
            ⟨_, by rw [recordPlace, hnode, if_pos rfl]⟩, fun h => absurd h hthere, ?_⟩
          exact (Within.of_grown hgrown).trans (within_of_replaced free hnode)
        · refine .inr ⟨e, v, Action.bind_of_error (StoreAction.io_of_error hreplace), ?_⟩
          exact (Within.of_grown hgrown).trans ⟨links, fun l hl => .inl (same l fun e =>
            hl (.inr e))⟩

/-- So an engine that answers for its store has a record there. -/
theorem keepRecord_cases (sited : Sited d loc t) (c : EngineSettings) :
    (∃ u, Engine.keepRecord d c t = .ok () u ∧
        (c.withMetadata = true → ∃ node, u.node? (d.recordPlace loc) = some node) ∧
        Within (fun l => l = d.recordPlace loc ∨ l = d.recordScratchPlace loc) t u) ∨
      ∃ e u, Engine.keepRecord d c t = .error (.initializationFailure .keepRecord e) u ∧
        Within (fun l => l = d.recordPlace loc ∨ l = d.recordScratchPlace loc) t u := by
  rw [Engine.keepRecord]
  cases hmetadata : c.withMetadata with
  | false => exact .inl ⟨t, rfl, by simp, .refl _ t⟩
  | true =>
      rw [if_pos rfl]
      rcases sited.recordOnce_cases c.record with
        ⟨wrote, u, hrecord, hthere, -, within⟩ | ⟨e, u, hrecord, within⟩
      · have hkeep : StoreAction.during .keepRecord (d.recordOnce c.record) t = .ok wrote u := by
          simp only [StoreAction.during, hrecord]
        exact .inl ⟨u, Action.bind_of_ok hkeep, fun _ => hthere, within⟩
      · have hkeep : StoreAction.during .keepRecord (d.recordOnce c.record) t =
            .error (.initializationFailure .keepRecord e) u := by
          simp only [StoreAction.during, hrecord]
        exact .inr ⟨e, u, Action.bind_of_error hkeep, within⟩

end Sited

end PartitionStore
