import PartitionStore.Proofs.Engine.FormatGuard
import PartitionStore.Proofs.Engine.Sparing

/-!
# `PartitionStore.Proofs.Engine.Again`: opening a store a second time

An opening may make the folder, empty it, make tables and write the record. A second one of the
same settings finds all that done: it answers with the same partitions and leaves the tree as it
is (`Engine.OpensAgain`). Each step leaves what its own check accepts then:

* `Standing.openAll_again`: to open partitions that were opened comes to the same.
* `Standing.keepRecord_again`: a record that was kept is there.
* `accepts_of_prepare`, `Standing.accepts_of_keepRecord`: the guard lets the folder be.

There is one check that the first opening does not make. A folder that it made itself is not shown
to the guard. But where the way to it leads through a directory that was missing, and up again,
making it may bring to light a folder that was there all along, and with that its record. The
second opening does show it to the guard. So what is asked for is that the guard would let that
folder be (`Engine.Accepts`), and nothing less will do (`opensAgain_iff`).
-/

set_option autoImplicit false

namespace PartitionStore

open FileTree Naming PartitionStore.Partition StoreFolder

/-- The engine can be closed, and then its store can be opened and closed once more, whatever else
the host holds. That comes up with the same partitions, empties nothing, and leaves the tree as it
was after the first time. -/
def Engine.OpensAgain (c : EngineSettings) (r : Running) : Prop :=
  ∃ closed, EngineAction.close r = .ok () closed ∧
    ¬Engine.Wipes r.engine.folder c closed.host.tree ∧
    ∀ partitions, ∃ e host closed', Engine.open c ⟨closed.host.tree, partitions⟩ = .ok e host ∧
      host.registered e.registry = r.host.registered r.engine.registry ∧
      EngineAction.close ⟨e, host⟩ = .ok () closed' ∧ closed'.host.tree = closed.host.tree

/-- The format guard would let the folder be, if it were asked. -/
def Engine.Accepts (d : StoreFolder) (c : EngineSettings) (t : FileTree) : Prop :=
  c.guardOnReopen = true → d.Unrecorded t ∨ d.Records t c.format

variable {d : StoreFolder} {c : EngineSettings} {loc : Location} {t u v w : FileTree}
  {host host₁ : Host} {registry : List (Int32 × Handle)} {partitions : List Partition}
  {recorded : TableFormat} {e : Engine}

/-! ### What the guard lets be -/

namespace StoreFolder

/-- Where there is no record, and nothing in the way to it, none is found. -/
theorem unrecorded_of_none (standing : Standing d loc t) (htext : checkText d.recordPath = .ok ())
    (usable : isEntryName (dirName d.store metadataId) = true)
    (hdir : t.node? (dirName d.store metadataId :: loc) = none ∨
      t.node? (dirName d.store metadataId :: loc) = some .dir)
    (hrecord : t.node? (d.recordPlace loc) = none) : d.Unrecorded t := by
  have hfind : t.find .followed d.recordPath = .error .notFound := by
    rw [recordPlace] at hrecord
    rw [show d.recordPath = (d.path.join (dirName d.store metadataId)).join recordFileName from rfl,
      find_below standing.way (d.isPlainName_dir metadataId) (by decide) htext
        (standing.free.entry _) fun _ => by simp [hrecord],
      if_neg (by simp [usable]), hrecord]
    rcases hdir with hdir | hdir <;> rw [hdir]
  exact .inl (by rw [FileTree.read, hfind]; rfl)

/-- To empty a folder is to remove it, and then to make directories on the way to it. -/
theorem exists_gone_of_empty (free : t.LinkFree []) (hempty : d.empty t = .ok () u) :
    ∃ s, Gone d.place t s ∧ GrownAt (OnWay d.path) s u := by
  obtain ⟨_, s, hremove, hmake⟩ := Action.bind_eq_ok_iff.1 hempty
  rw [StoreAction.ofFiles_eq_ok_iff] at hremove hmake
  have gone : Gone d.place t s := by
    rcases (d.sited_place free).removeDirAll_cases with ⟨e, hfail⟩ | ⟨s', hok, gone⟩
    · cases hremove.symm.trans hfail
    · cases hremove.symm.trans hok
      exact gone
  have grown := grownAt_createDirAll
    (free.congr (gone.sameLinks (d.sited_place free).free)) d.path
  rw [hmake] at grown
  exact ⟨s, gone, grown⟩

/-- A folder that was emptied has no record, even where directories were made in it again on the way
to it: the record was no directory. -/
theorem unrecorded_of_empty (free : t.LinkFree []) (records : d.Records t recorded)
    (hempty : d.empty t = .ok () u) : d.Unrecorded u := by
  obtain ⟨-, loc, -, hway, -, -⟩ := exists_of_records records
  obtain ⟨data, -, -, hread, -⟩ := records
  have sited := d.sited_place free
  have hthere := exists_of_read hread
  have named : t.NamesEntry d.recordPath (dirName d.store metadataId :: d.place) recordFileName :=
    (sited.partition metadataId).of_exists (by decide) hthere
  have hfile : t.node? (d.recordPlace d.place) ≠ some .dir := fun hdir => by
    rw [FileTree.read, named.find .followed hdir (by simp)] at hread
    cases hread
  obtain ⟨s, gone, grown⟩ := exists_gone_of_empty free hempty
  -- Two things are left to say of the place of the record: that its directory is gone or a
  -- directory, and that nothing stands there.
  refine unrecorded_of_none (sited.standing_of_empty hempty) (checkText_of_exists hthere)
    (isEntryName_of_node? named.isDir) ?_ ?_
  · rcases grown (dirName d.store metadataId :: d.place) with hsame | ⟨-, hdir, -⟩
    · rw [hsame]
      exact (gone.inside _ (List.suffix_cons ..)).imp id And.right
    · exact .inr hdir
  · have hnone : s.node? (d.recordPlace d.place) = none :=
      (gone.inside _ (List.suffix_cons_iff.2 (.inr (List.suffix_cons ..)))).resolve_right
        fun h => by
          have hlength := congrArg List.length h.1
          simp only [List.length_cons] at hlength
          omega
    rcases grown (d.recordPlace d.place) with hsame | ⟨-, -, hon⟩
    · exact hsame.trans hnone
    · -- All that is on the way was a directory before, since the way led to the folder.
      exact absurd (isDir_of_onWay free hway hon) hfile

/-- A folder is emptied over a record. -/
theorem records_of_emptied {format : TableFormat}
    (h : d.guard format t = .ok (.emptied recorded) u) :
    d.Records t recorded ∧ d.empty t = .ok () u := by
  rcases d.record_cases t with ⟨recorded', records⟩ | unrecorded | ⟨cause, unreadable⟩
  · rw [guard_of_records records] at h
    split at h
    · cases h
    · obtain ⟨_, v, hempty, hpure⟩ := Action.bind_eq_ok_iff.1 h
      cases hpure
      exact ⟨records, hempty⟩
  · cases (guard_of_unrecorded unrecorded format).symm.trans h
  · cases (guard_of_readFrom_error (unreadable_iff.1 unreadable) format).symm.trans h

end StoreFolder

theorem guard_of_accepts (hguard : c.guardOnReopen = true) (accepts : Engine.Accepts d c t) :
    ∃ verdict, d.guard c.format t = .ok verdict t ∧ ∀ recorded, verdict ≠ .emptied recorded := by
  rcases accepts hguard with unrecorded | records
  · exact ⟨_, guard_of_unrecorded unrecorded c.format, nofun⟩
  · exact ⟨.sameFormat, by rw [guard_of_records records, if_pos rfl], nofun⟩

/-- What the guard lets be is not emptied. -/
theorem Engine.Accepts.not_wipes (accepts : Engine.Accepts d c t) : ¬Engine.Wipes d c t := by
  rintro ⟨hguard, recorded, u, hwiped⟩
  obtain ⟨verdict, hverdict, hnot⟩ := guard_of_accepts hguard accepts
  cases hwiped.symm.trans hverdict
  exact hnot recorded rfl

/-- A folder that is there, and that the guard lets be, is ready. -/
theorem Standing.prepare_of_accepts (standing : Standing d loc t) (accepts : Engine.Accepts d c t) :
    Engine.prepare d c t = .ok () t := by
  rw [Engine.prepare, Action.bind_of_ok standing.ensure]
  split
  · rename_i hguard
    simp only [Bool.not_false, Bool.true_and] at hguard
    obtain ⟨verdict, hverdict, -⟩ := guard_of_accepts hguard accepts
    exact Action.bind_of_ok hverdict
  · rfl

/-- A folder that is there is made ready by the guard. -/
theorem Standing.guard_of_prepare (standing : Standing d loc t) (hguard : c.guardOnReopen = true)
    (h : Engine.prepare d c t = .ok () u) : ∃ verdict, d.guard c.format t = .ok verdict u := by
  rw [Engine.prepare, Action.bind_of_ok standing.ensure, if_pos (by simp [hguard])] at h
  obtain ⟨verdict, v, hverdict, hpure⟩ := Action.bind_eq_ok_iff.1 h
  cases hpure
  exact ⟨verdict, hverdict⟩

/-- What is not emptied when it is made ready is what the guard lets be. -/
theorem Standing.accepts_of_not_wipes (standing : Standing d loc t)
    (h : Engine.prepare d c t = .ok () u) (hnot : ¬Engine.Wipes d c t) : Engine.Accepts d c t := by
  intro hguard
  obtain ⟨verdict, hverdict⟩ := standing.guard_of_prepare hguard h
  rcases d.record_cases t with ⟨recorded, records⟩ | unrecorded | ⟨cause, unreadable⟩
  · by_cases hsame : recorded = c.format
    · exact .inr (hsame ▸ records)
    · have hguarded := guard_of_records records c.format
      rw [if_neg hsame, hverdict] at hguarded
      obtain ⟨_, v, -, hpure⟩ := Action.bind_eq_ok_iff.1 hguarded.symm
      cases hpure
      exact absurd ⟨hguard, recorded, _, hverdict⟩ hnot
  · exact .inl unrecorded
  · cases (guard_of_readFrom_error (unreadable_iff.1 unreadable) c.format).symm.trans hverdict

/-- A folder that was there is one that the guard lets be, once it was made ready. -/
theorem Standing.accepts_of_prepare (standing : Standing d loc t) (free : t.LinkFree [])
    (h : Engine.prepare d c t = .ok () u) : Engine.Accepts d c u := by
  by_cases hwipes : Engine.Wipes d c t
  · obtain ⟨hguard, recorded, v, hwiped⟩ := hwipes
    obtain ⟨verdict, hverdict⟩ := standing.guard_of_prepare hguard h
    cases hwiped.symm.trans hverdict
    obtain ⟨records, hempty⟩ := records_of_emptied hwiped
    exact fun _ => .inl (unrecorded_of_empty free records hempty)
  · have accepts := standing.accepts_of_not_wipes h hwipes
    cases (standing.prepare_of_accepts accepts).symm.trans h
    exact accepts

/-- A folder that was made ready is one that the guard lets be, if it does so where the folder was
only made. -/
theorem accepts_of_prepare (free : t.LinkFree [])
    (hmade : ∀ v, d.ensure t = .ok true v → Engine.Accepts d c v)
    (h : Engine.prepare d c t = .ok () u) : Engine.Accepts d c u := by
  by_cases hpresent : d.isThere t = true
  · have standing := (d.sited_place free).standing_of_isDir (isDir_of_prepare hpresent h)
    exact standing.accepts_of_prepare free h
  · refine hmade u ?_
    rw [StoreFolder.ensure, Action.bind_of_ok (Action.get_apply t), if_neg hpresent,
      Action.bind_of_ok (StoreAction.ofFiles_of_ok (createDirAll_of_prepare hpresent h))]
    rfl

/-! ### The record -/

/-- What may become of a place leaves the folder where it is. -/
theorem Standing.of_changed (standing : Standing d loc t) (changed : ∀ l, d.Changed loc t u l) :
    Standing d loc u := by
  have hstuck (l : Location) (hl : u.node? l ≠ t.node? l) :
      t.TakesFile l ∧ ∀ target, u.node? l ≠ some (.link target) := by
    rcases changed l with hsame | ⟨_, -, hnone, hdir⟩ | ⟨-, hnone, hfile⟩ | ⟨-, -, before, after⟩
    · exact absurd hsame hl
    · exact ⟨takesFile_of_none hnone, by simp [hdir]⟩
    · exact ⟨takesFile_of_none hnone, by simp [hfile]⟩
    · exact ⟨before, after.ne_link⟩
  exact standing.frame
    (.of_changed fun l hl target => ⟨(hstuck l hl).2 target, (hstuck l hl).1.ne_link target⟩)
    fun l hl => (hstuck l hl).1

namespace Standing

variable (standing : Standing d loc t)
include standing

theorem of_keepRecord (h : Engine.keepRecord d c t = .ok () u) : Standing d loc u := by
  have changed := standing.changed_keepRecord c
  rw [h] at changed
  exact standing.of_changed changed

/-- Keeping a record makes the directory for it, if that, and the record. -/
theorem node?_keepRecord (h : Engine.keepRecord d c t = .ok () u) {l : Location}
    (hrecord : l ≠ d.recordPlace loc) (hscratch : l ≠ d.recordScratchPlace loc) :
    u.node? l = t.node? l ∨ l = dirName d.store metadataId :: loc ∧ t.node? l = none := by
  by_cases hmetadata : c.withMetadata = true
  swap
  · rw [Engine.keepRecord, if_neg hmetadata] at h
    cases h
    exact .inl rfl
  obtain ⟨wrote, hwrote⟩ := exists_of_keepRecord hmetadata h
  by_cases hthere : t.exists d.recordPath = true
  · cases hwrote.symm.trans (recordOnce_of_exists hthere c.record)
    exact .inl rfl
  -- The directory is made for the record, and then the record is all that is written.
  obtain ⟨v, hmake, hreplace⟩ := exists_of_recordOnce (by simpa using hthere) hwrote
  have hgrown := grown_createDirAll (d.partitionPath metadataId) t
  have hdir := standing.node?_createDirAll metadataId l
  rw [hmake] at hgrown hdir
  replace hgrown : Grown t v := hgrown
  have sited := standing.sited.congr hgrown.sameLinks
  have hname : Path.isPlainName recordFileName = true := by decide
  have hother : Path.isPlainName recordScratchName = true := by decide
  rcases replace_cases (sited.partition metadataId) (sited.free_partition metadataId) hname hother
    (by decide) c.record.bytes with ⟨w, hok, hnode⟩ | ⟨e, w, hfail, -⟩
  · cases hreplace.symm.trans hok
    rw [(hnode l).trans ((if_neg hrecord).trans (if_neg hscratch))]
    rcases hdir with hsame | ⟨hl, hnone, -⟩
    · exact .inl hsame
    · exact .inr ⟨hl, hnone⟩
  · cases hreplace.symm.trans hfail

/-- A directory that was made for a partition is there, and nothing else was there before. -/
theorem isDir_of_createDirAll {id : Int32}
    (h : Files.createDirAll (d.partitionPath id) t = .ok () u) :
    u.node? (dirName d.store id :: loc) = some .dir ∧
      (t.node? (dirName d.store id :: loc) = none ∨
        t.node? (dirName d.store id :: loc) = some .dir) := by
  have hgrown := grown_createDirAll (d.partitionPath id) t
  rw [h] at hgrown
  replace hgrown : Grown t u := hgrown
  obtain ⟨-, place, hway⟩ := resolveSteps_of_createDirAll (d.isPlainName_dir id) h
  obtain rfl : place = dirName d.store id :: loc :=
    ((standing.sited.congr hgrown.sameLinks).partition id).loc_eq hway
  have hdir : u.node? (dirName d.store id :: loc) = some .dir := resolveSteps_isIn hway
  refine ⟨hdir, ?_⟩
  rcases hgrown (dirName d.store id :: loc) with hsame | ⟨hnone, -⟩
  · exact .inr (hsame.symm.trans hdir)
  · exact .inl hnone

/-- Where a record was written there was none before, and what it is read as is what was written. -/
theorem record_of_recordOnce {record : EngineRecord} {wrote : Bool}
    (hmissing : t.exists d.recordPath = false) (h : d.recordOnce record t = .ok wrote u) :
    d.Unrecorded t ∧ u.read d.recordPath = .ok record.bytes := by
  have hroom := (hasRoom_recordScratch_iff d).1 (hasRoom_of_recordOnce h hmissing)
  have htext : checkText d.recordPath = .ok () :=
    Path.checkText_of_hasRoom ((hasRoom_recordPath_iff d).2 (hroom.mono (by omega)))
  obtain ⟨v, hmake, -⟩ := exists_of_recordOnce hmissing h
  obtain ⟨hmade, hdir⟩ := standing.isDir_of_createDirAll hmake
  constructor
  · refine unrecorded_of_none standing htext (isEntryName_of_node? hmade) hdir ?_
    by_contra hsome
    obtain ⟨node, hnode⟩ := Option.ne_none_iff_exists'.1 hsome
    have named := standing.namesEntry_file (node?_parent_of_node? hnode) (by decide) htext
    cases hmissing.symm.trans (named.exists_of_some hnode fun target e =>
      (standing.free.cons _).entry _ target (e ▸ hnode))
  · exact standing.sited.read_of_recordOnce hmissing h

/-- A record that was kept was there, or was not there and was written. -/
theorem keepRecord_ok_cases (h : Engine.keepRecord d c t = .ok () u) :
    u = t ∧ (c.withMetadata = true → t.exists d.recordPath = true) ∨
      d.Unrecorded t ∧ u.read d.recordPath = .ok c.record.bytes := by
  by_cases hmetadata : c.withMetadata = true
  · obtain ⟨wrote, hrecord⟩ := exists_of_keepRecord hmetadata h
    by_cases hthere : t.exists d.recordPath = true
    · cases hrecord.symm.trans (recordOnce_of_exists hthere c.record)
      exact .inl ⟨rfl, fun _ => hthere⟩
    · exact .inr (standing.record_of_recordOnce (by simpa using hthere) hrecord)
  · rw [Engine.keepRecord, if_neg hmetadata] at h
    cases h
    exact .inl ⟨rfl, fun hm => absurd hm hmetadata⟩

/-- A record that was kept is there. -/
theorem keepRecord_again (h : Engine.keepRecord d c t = .ok () u) :
    Engine.keepRecord d c u = .ok () u := by
  by_cases hmetadata : c.withMetadata = true
  · have hthere : u.exists d.recordPath = true := by
      rcases standing.keepRecord_ok_cases h with ⟨rfl, hthere⟩ | ⟨-, hread⟩
      · exact hthere hmetadata
      · exact exists_of_read hread
    have hrecord := recordOnce_of_exists hthere c.record
    have hduring : StoreAction.during .keepRecord (d.recordOnce c.record) u = .ok false u := by
      simp only [StoreAction.during, hrecord]
    rw [Engine.keepRecord, if_pos hmetadata]
    exact Action.bind_of_ok hduring
  · rw [Engine.keepRecord, if_neg hmetadata]
    rfl

/-- What the guard lets be it lets be once the record was kept, if that reads back. -/
theorem accepts_of_keepRecord (reads : c.ReadsBack) (accepts : Engine.Accepts d c t)
    (h : Engine.keepRecord d c t = .ok () u) : Engine.Accepts d c u := by
  rcases standing.keepRecord_ok_cases h with ⟨rfl, -⟩ | ⟨-, hread⟩
  · exact accepts
  · obtain ⟨record, hparse, hformat⟩ := reads
    exact fun _ => .inr
      ⟨_, _, record, hread, Text.decode?_encode c.record.properties, hparse, hformat⟩

end Standing

/-! ### The partitions -/

theorem forall_mem_of_mapM_eq_ok {ε α β : Type} {f : α → Except ε β} {P : β → Prop}
    (hf : ∀ x y, f x = .ok y → P y) {xs : List α} {ys : List β} (h : xs.mapM f = .ok ys) :
    ∀ y ∈ ys, P y := by
  induction xs generalizing ys with
  | nil =>
      cases h
      simp
  | cons x rest ih =>
      rw [List.mapM_cons] at h
      cases hx : f x with
      | error e =>
          rw [hx] at h
          cases h
      | ok y =>
          cases hrest : rest.mapM f with
          | error e =>
              rw [hx, hrest] at h
              cases h
          | ok ys' =>
              rw [hx, hrest] at h
              cases h
              exact List.forall_mem_cons.2 ⟨hf x y hx, ih hrest⟩

/-- A partition that was opened has nothing to be written. -/
theorem clean_of_opened {id : Int32} {part : Int32 × Partition}
    (h : d.opened c loc t id = .ok part) : part.2.Clean := by
  rw [opened] at h
  cases hopening : (d.opening c loc t id).1 with
  | error e =>
      rw [hopening] at h
      cases h
  | ok entries =>
      rw [hopening] at h
      cases h
      intro dir
      simp

/-- Partitions in memory are opened among whatever others, and leave nothing on disk. -/
theorem exists_openAll_inMemory (d : StoreFolder) (c : EngineSettings) (host : Host) :
    ∃ registry host', Restore.openAll Backend.inMemory d c host = .ok registry host' ∧
      host'.tree = host.tree ∧ host'.registered registry =
        if c.withMetadata then [(metadataId, Partition.inMemory (c.spec metadataId))] else [] := by
  have hids : Backend.inMemory.idsOnDisk d host = .ok [] host := rfl
  rw [Restore.openAll_of_idsOnDisk hids]
  have hnew := Host.partition_add_self host (Partition.inMemory (c.spec metadataId))
  cases c.withMetadata <;> cases c.withData
  · exact ⟨[], host, rfl, rfl, rfl⟩
  · exact ⟨[], host, rfl, rfl, rfl⟩
  · exact ⟨_, _, rfl, rfl, congrArg (fun part => [(metadataId, part)]) hnew⟩
  · exact ⟨_, _, rfl, rfl, congrArg (fun part => [(metadataId, part)]) hnew⟩

/-- The partitions that are found are a matter of the folder's own entries. -/
theorem Standing.idsOnDisk_congr (standing : Standing d loc t) (standing' : Standing d loc u)
    (h : ∀ name, u.node? (name :: loc) = t.node? (name :: loc)) {found : List Int32}
    (hfound : d.idsOnDisk t = .ok found t) : d.idsOnDisk u = .ok found u := by
  obtain ⟨ids, hids, hascending, hmem⟩ :=
    idsOnDisk_of_find (standing.find .followed) standing.isDir
  cases hids.symm.trans hfound
  obtain ⟨ids', hids', hascending', hmem'⟩ :=
    idsOnDisk_of_find (standing'.find .followed) standing'.isDir
  have hsame : ids' = found :=
    SortedMap.keys_eq_of_mem_iff hascending' hascending fun id => by
      rw [hmem', hmem, StoreFolder.Lists, StoreFolder.Lists]
      simp only [h]
  exact hsame ▸ hids'

/-- Where all slots are what they were nothing else can have changed. -/
theorem Settled.eq_of_slots {ids : List Int32} (settled : Settled d c loc ids t u)
    (h : ∀ id, d.slot loc u id = d.slot loc t id) : u = t := by
  refine ext_node? fun l => ?_
  by_cases hhas : ∃ id, Slot.Has (dirName d.store id :: loc) l
  · obtain ⟨id, hid⟩ := hhas
    exact slot_eq_iff.1 (h id) l hid
  · exact settled.same l fun id hid => hhas ⟨id, hid⟩

namespace Standing

variable (standing : Standing d loc t) (hstore : c.store = d.store)
include standing hstore

/-- What opening all partitions leaves: the folder is there, and none of them has anything to be
written. The directory of the metadata partition was made if that is kept on disk. -/
theorem of_openAll
    (hall : Restore.openAll (Backend.ofKind c.backend) d c ⟨t, partitions⟩ = .ok registry host) :
    Standing d loc host.tree ∧ SameRecord d loc t host.tree ∧
      (∀ entry ∈ registry, (host.partition entry.2).Clean) ∧
      (c.backend = .table → c.withMetadata = true →
        host.tree.node? (dirName d.store metadataId :: loc) = some .dir) := by
  have hclean {parts : List (Int32 × Partition)} (hparts : host.registered registry = parts)
      (hall : ∀ part ∈ parts, part.2.Clean) :
      ∀ entry ∈ registry, (host.partition entry.2).Clean := fun entry hentry =>
    hall (entry.1, host.partition entry.2)
      (hparts ▸ List.mem_map_of_mem (f := fun entry => (entry.1, host.partition entry.2)) hentry)
  -- In memory nothing on disk changes; with tables, each slot is left as its table was opened.
  cases hkind : c.backend with
  | inMemory =>
      rw [hkind] at hall
      obtain ⟨registry', host', hok, htree, hparts⟩ := exists_openAll_inMemory d c ⟨t, partitions⟩
      cases hall.symm.trans hok
      rw [htree]
      refine ⟨standing, ⟨.inl rfl, rfl, rfl⟩, hclean hparts fun part hpart => ?_, nofun⟩
      split at hpart
      · rw [List.mem_singleton.1 hpart]
        intro dir
        simp [Partition.inMemory]
      · cases hpart
  | table =>
      obtain ⟨found, hfound, -, -⟩ := idsOnDisk_of_find (standing.find .followed) standing.isDir
      have restored := @Standing.restored_openAll _ c _ ⟨t, partitions⟩ standing hstore _ hfound
      rw [hkind] at hall
      rw [show Restore.openAll Backend.table d c ⟨t, partitions⟩ = .ok registry host from hall]
        at restored
      obtain ⟨settled, -, hslots, parts, hparts, holds⟩ := restored
      refine ⟨settled.standing, settled.sameRecord, hclean holds.map_partition
        (forall_mem_of_mapM_eq_ok (fun _ _ => clean_of_opened) hparts), fun _ hmetadata => ?_⟩
      have hid : metadataId ∈ c.restored found := by simp [EngineSettings.restored, hmetadata]
      obtain ⟨part, hpart⟩ := forall_of_mapM_eq_ok hparts metadataId hid
      have hslot : (d.slot loc host.tree metadataId).dir = some .dir := by
        rw [hslots metadataId hid, dir_of_opened hpart]
      exact hslot

/-- To open all partitions of a store again, where all of them were opened, comes to the same. -/
theorem openTables_again
    (hall : Restore.openAll Backend.table d c ⟨t, partitions⟩ = .ok registry host)
    (standing' : Standing d loc w) (hsame : ∀ id, d.slot loc w id = d.slot loc host.tree id)
    (hentries : ∀ name, w.node? (name :: loc) = host.tree.node? (name :: loc))
    (partitions' : List Partition) :
    ∃ registry' host', Restore.openAll Backend.table d c ⟨w, partitions'⟩ = .ok registry' host' ∧
      host'.tree = w ∧ host'.registered registry' = host.registered registry := by
  obtain ⟨found, hfound, -, -⟩ := idsOnDisk_of_find (standing.find .followed) standing.isDir
  have restored := @Standing.restored_openAll _ c _ ⟨t, partitions⟩ standing hstore _ hfound
  rw [hall] at restored
  obtain ⟨settled, -, hslots, parts, hparts, holds⟩ := restored
  obtain ⟨found', hfound', hids⟩ := settled.exists_restored_eq hfound standing
  have hfound'' := settled.standing.idsOnDisk_congr standing' hentries hfound'
  have restored' := @Standing.restored_openAll _ c _ ⟨w, partitions'⟩ standing' hstore _ hfound''
  -- Each of them was opened, and so it answers now what it answered then.
  have hopening (id : Int32) (hid : id ∈ c.restored found) :
      d.opening c loc w id = d.opening c loc t id :=
    (d.opening_congr c (hsame id)).trans (opening_opening (hslots id hid) (.inl rfl))
  have hmap := mapM_opened_congr hopening
  rw [hids] at restored'
  cases hopen : Restore.openAll Backend.table d c ⟨w, partitions'⟩ with
  | error e host' =>
      rw [hopen] at restored'
      cases (hmap.symm.trans restored'.2.2).symm.trans hparts
  | ok registry' host' =>
      rw [hopen] at restored'
      obtain ⟨settled', -, hslots', parts', hparts', holds'⟩ := restored'
      cases (hmap.symm.trans hparts').symm.trans hparts
      refine ⟨registry', host', rfl, settled'.eq_of_slots fun id => ?_,
        holds'.map_partition.trans holds.map_partition.symm⟩
      by_cases hid : id ∈ c.restored found
      · exact (hslots' id hid).trans ((congrArg Prod.snd (hopening id hid)).trans
          ((hslots id hid).symm.trans (hsame id).symm))
      · exact settled'.others id hid

/-- So it does with either backend, after the record was kept. -/
theorem openAll_again
    (hall : Restore.openAll (Backend.ofKind c.backend) d c ⟨t, partitions⟩ = .ok registry host)
    (hkeep : Engine.keepRecord d c host.tree = .ok () w) (partitions' : List Partition) :
    ∃ registry' host',
      Restore.openAll (Backend.ofKind c.backend) d c ⟨w, partitions'⟩ = .ok registry' host' ∧
      host'.tree = w ∧ host'.registered registry' = host.registered registry := by
  obtain ⟨standing', -, -, hmade⟩ := standing.of_openAll hstore hall
  cases hkind : c.backend with
  | inMemory =>
      rw [hkind] at hall
      obtain ⟨_, _, hok, -, hparts⟩ := exists_openAll_inMemory d c ⟨t, partitions⟩
      cases hall.symm.trans hok
      obtain ⟨registry', host', hok', htree, hparts'⟩ :=
        exists_openAll_inMemory d c ⟨w, partitions'⟩
      exact ⟨registry', host', hok', htree, hparts'.trans hparts.symm⟩
  | table =>
      rw [hkind] at hall
      -- The directory for the record was made with its partition.
      have hplace (l : Location) (hrecord : l ≠ d.recordPlace loc)
          (hscratch : l ≠ d.recordScratchPlace loc) : w.node? l = host.tree.node? l := by
        rcases standing'.node?_keepRecord hkeep hrecord hscratch with hsame | ⟨rfl, hnone⟩
        · exact hsame
        · by_cases hmetadata : c.withMetadata = true
          · cases hnone.symm.trans (hmade hkind hmetadata)
          · rw [Engine.keepRecord, if_neg hmetadata] at hkeep
            cases hkeep
            rfl
      -- The record is in no slot, and is no entry of the folder itself.
      have hslot (id : Int32) (l : Location) (hl : Slot.Has (dirName d.store id :: loc) l) :=
        hplace l (fun e => not_has_record id (.inl e) hl) fun e => not_has_record id (.inr e) hl
      refine standing.openTables_again hstore hall (standing'.of_keepRecord hkeep) (fun id => ?_)
        (fun name => hplace _ ?_ ?_) partitions'
      · rw [StoreFolder.slot, StoreFolder.slot, Slot.of, Slot.of, hslot id _ (.inl rfl),
          hslot id _ (.inr (.inl rfl)), hslot id _ (.inr (.inr rfl))]
      · exact (Beside.record.ne_dir name).1.symm
      · exact (Beside.record.ne_dir name).2.symm

end Standing

/-! ### The whole opening -/

/-- An opening is put together from its steps. -/
theorem open_of_steps (hnamed : StoreFolder.named c.root c.store = .ok d)
    (hprepare : Engine.prepare d c t = .ok () u)
    (hall : Restore.openAll (Backend.ofKind c.backend) d c ⟨u, partitions⟩ = .ok registry host)
    (hkeep : Engine.keepRecord d c host.tree = .ok () v) :
    Engine.open c ⟨t, partitions⟩ = .ok
      { settings := c, folder := d, backend := Backend.ofKind c.backend, registry,
        phase := .opened, listener := none, reports := [] } { host with tree := v } := by
  have hfolder : (HostAction.ofExcept (.ok d) : HostAction StoreFolder) ⟨t, partitions⟩ =
      .ok d ⟨t, partitions⟩ := rfl
  have hready : HostAction.onTree (Engine.prepare d c) ⟨t, partitions⟩ = .ok () ⟨u, partitions⟩ :=
    HostAction.onTree_of_ok hprepare
  rw [Engine.open, Engine.openWith, hnamed, Action.bind_of_ok hfolder, Action.bind_of_ok hready,
    Action.bind_of_ok hall, Action.bind_of_ok (HostAction.onTree_of_ok hkeep)]
  rfl

/-- A folder that was made is ready as it is. -/
theorem prepare_of_made (c : EngineSettings) (h : d.ensure t = .ok true u) :
    Engine.prepare d c t = .ok () u := by
  rw [Engine.prepare, Action.bind_of_ok h]
  rfl

/-- The guard goes by what is read at the record's path. -/
theorem accepts_congr
    (h : EngineRecord.readFrom u d.recordPath = EngineRecord.readFrom t d.recordPath) :
    Engine.Accepts d c u ↔ Engine.Accepts d c t := by
  rw [Engine.Accepts, Engine.Accepts, unrecorded_iff, unrecorded_iff, records_iff, records_iff, h]

/-- An engine that came up can be closed, which changes nothing on disk. -/
theorem close_of_opened (hclean : ∀ entry ∈ registry, (host.partition entry.2).Clean) :
    ∃ closed, EngineAction.close
        ⟨{ settings := c, folder := d, backend := Backend.ofKind c.backend, registry,
           phase := .opened, listener := none, reports := [] }, host⟩ = .ok () closed ∧
      closed.host.tree = host.tree :=
  @close_of_clean ⟨_, host⟩ rfl (by cases c.backend <;> rfl) hclean

/-- In a tree without links a store that was opened is opened again by settings that read back, with
the same partitions and without a change, exactly if the guard lets be what came to light when its
folder was made. -/
theorem opensAgain_iff (free : host.tree.LinkFree []) (reads : c.ReadsBack)
    (hopen : Engine.open c host = .ok e host₁) :
    (Engine.OpensAgain c ⟨e, host₁⟩ ↔
        ∀ u, e.folder.ensure host.tree = .ok true u → Engine.Accepts e.folder c u) ∧
      (c.backend = .inMemory → ∀ part ∈ host₁.registered e.registry,
        part = (metadataId, Partition.inMemory (c.spec metadataId))) := by
  obtain ⟨d, t, registry, host₂, w, hnamed, hprepare, hall, hkeep, rfl, rfl⟩ := exists_of_open hopen
  have hstore := (store_of_named hnamed).2
  -- The folder stands once it was made ready, and goes on to do so.
  obtain ⟨htext, place, hway⟩ := way_of_prepare hprepare
  have within := (d.sited_place free).prepare_within c
  rw [hprepare] at within
  have standing : Standing d d.place t :=
    (d.sited_place (free.congr within.links)).standing htext hway
  obtain ⟨standing', record, hclean, -⟩ := standing.of_openAll hstore hall
  have hread := standing.readFrom_eq standing' record
  have standing'' := standing'.of_keepRecord hkeep
  obtain ⟨closed, hclose, htree⟩ :=
    @close_of_opened d c ⟨w, host₂.partitions⟩ registry hclean
  refine ⟨⟨?_, fun hmade => ?_⟩, fun hkind part hpart => ?_⟩
  · rintro ⟨closed', hclose', hnot, hagain⟩ u hmade
    cases hclose'.symm.trans hclose
    rw [htree] at hnot hagain
    cases (prepare_of_made c hmade).symm.trans hprepare
    obtain ⟨e', host', -, hopen', -⟩ := hagain []
    obtain ⟨d', t', _, _, _, hnamed', hprepare', -⟩ := exists_of_open hopen'
    cases hnamed'.symm.trans hnamed
    -- The record that it would have seen the second time is the one that was there the first time,
    -- unless there was none.
    have accepts := standing''.accepts_of_not_wipes hprepare' hnot
    refine (accepts_congr hread).1 ?_
    rcases standing'.keepRecord_ok_cases hkeep with ⟨rfl, -⟩ | ⟨unrecorded, -⟩
    · exact accepts
    · exact fun _ => .inl unrecorded
  -- The guard lets the folder be after each step: made ready, partitions opened, record kept.
  · have accepts : Engine.Accepts d c w := by
      have accepts := (accepts_congr hread).2 (accepts_of_prepare free hmade hprepare)
      exact standing'.accepts_of_keepRecord reads accepts hkeep
    refine ⟨closed, hclose, ?_, fun partitions => ?_⟩
    · rw [htree]
      exact accepts.not_wipes
    rw [htree]
    obtain ⟨registry', host', hall', htree', hparts⟩ :=
      standing.openAll_again hstore hall hkeep partitions
    have hkeep' := standing'.keepRecord_again hkeep
    rw [← htree'] at hkeep'
    have hclean' := (standing''.of_openAll hstore hall').2.2.1
    obtain ⟨closed', hclose', htree''⟩ := @close_of_opened d c host' registry' hclean'
    exact ⟨_, _, closed', open_of_steps hnamed (standing''.prepare_of_accepts accepts) hall' hkeep',
      hparts, hclose', htree''.trans htree'⟩
  · obtain ⟨_, _, hok, -, hparts⟩ := exists_openAll_inMemory d c ⟨t, host.partitions⟩
    rw [hkind] at hall
    cases hall.symm.trans hok
    have hpart' : part ∈ host₂.registered registry := hpart
    rw [hparts] at hpart'
    split at hpart'
    · exact List.mem_singleton.1 hpart'
    · cases hpart'

theorem linkFree_recordedUnder (root : Path) : (recordedUnder root).LinkFree [] := by
  have sited := StoreFolder.sited_place ⟨root, "s", by decide⟩ (linkFree_empty [])
  refine (linkFree_empty []).congr ?_
  rw [recordedUnder]
  rcases sited.recordOnce_cases (EngineRecord.ofFormat .plain) with
    ⟨wrote, u, h, -, -, within⟩ | ⟨e, u, h, within⟩
  · rw [h]
    exact within.links
  · rw [h]
    exact within.links

/-- A store with a record of another format is emptied the first time, and left as it is the
second time. -/
theorem opensAgain_below_data :
    (recordedUnder ⟨"data"⟩).LinkFree [] ∧ (settingsUnder ⟨"data"⟩).ReadsBack ∧
      ∃ e host, Engine.open (settingsUnder ⟨"data"⟩) (Host.ofTree (recordedUnder ⟨"data"⟩)) =
          .ok e host ∧
        (∀ u, e.folder.ensure (recordedUnder ⟨"data"⟩) = .ok true u →
          Engine.Accepts e.folder (settingsUnder ⟨"data"⟩) u) ∧
        Engine.OpensAgain (settingsUnder ⟨"data"⟩) ⟨e, host⟩ := by
  have free := linkFree_recordedUnder ⟨"data"⟩
  have reads := readsBack_settingsUnder ⟨"data"⟩
  have key : Action.succeedsWith (Engine.open (settingsUnder ⟨"data"⟩))
      (Host.ofTree (recordedUnder ⟨"data"⟩)) (fun e _ => Action.succeedsWith e.folder.ensure
        (recordedUnder ⟨"data"⟩) fun made _ => !made) = true := by
    decide +kernel
  obtain ⟨e, host, hopen, key⟩ := Action.exists_of_succeedsWith key
  obtain ⟨made, u, hensure, hthere⟩ := Action.exists_of_succeedsWith key
  have hmade : ∀ u, e.folder.ensure (recordedUnder ⟨"data"⟩) = .ok true u →
      Engine.Accepts e.folder (settingsUnder ⟨"data"⟩) u := fun v hv => by
    cases hensure.symm.trans hv
    cases hthere
  exact ⟨free, reads, e, host, hopen, hmade, (opensAgain_iff free reads hopen).1.2 hmade⟩

/-- Where the root's path leads through a directory that is missing, the folder is not found the
first time. The way to it is made and the store is opened with the tables that are there. The
second time it is found, and its record, and emptied. -/
theorem not_opensAgain_at_all_roots :
    (recordedUnder ⟨"data"⟩).LinkFree [] ∧ (settingsUnder ⟨"a/../data"⟩).ReadsBack ∧
      ∃ e host, Engine.open (settingsUnder ⟨"a/../data"⟩)
          (Host.ofTree (recordedUnder ⟨"data"⟩)) = .ok e host ∧
        ∃ closed, EngineAction.close ⟨e, host⟩ = .ok () closed ∧
          Engine.Wipes e.folder (settingsUnder ⟨"a/../data"⟩) closed.host.tree ∧
          ¬Engine.OpensAgain (settingsUnder ⟨"a/../data"⟩) ⟨e, host⟩ := by
  have key : Action.succeedsWith (Engine.open (settingsUnder ⟨"a/../data"⟩))
      (Host.ofTree (recordedUnder ⟨"data"⟩)) (fun e host =>
        Action.succeedsWith EngineAction.close ⟨e, host⟩ fun _ closed =>
          Action.succeedsWith (e.folder.guard .blockBased) closed.host.tree fun verdict _ =>
            decide (verdict = .emptied .plain)) = true := by
    decide +kernel
  obtain ⟨e, host, hopen, key⟩ := Action.exists_of_succeedsWith key
  obtain ⟨_, closed, hclose, key⟩ := Action.exists_of_succeedsWith key
  obtain ⟨verdict, u, hguard, key⟩ := Action.exists_of_succeedsWith key
  obtain rfl := of_decide_eq_true key
  have hwipes : Engine.Wipes e.folder (settingsUnder ⟨"a/../data"⟩) closed.host.tree :=
    ⟨rfl, .plain, u, hguard⟩
  refine ⟨linkFree_recordedUnder _, readsBack_settingsUnder _, e, host, hopen, closed, hclose,
    hwipes, ?_⟩
  rintro ⟨closed', hclose', hnot, -⟩
  cases hclose.symm.trans hclose'
  exact hnot hwipes

end PartitionStore
