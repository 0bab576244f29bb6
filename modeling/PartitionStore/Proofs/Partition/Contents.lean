import PartitionStore.Proofs.Partition.Slot

/-!
# `PartitionStore.Proofs.Partition.Contents`: what a partition is opened with

A partition that was opened has the entries of the table in its directory, or none if no table was
there (`Contents`). All that opening makes is a table without entries, and the directory
for it (`TablesAdded`). That takes no other directory away and puts no entries into a table. So
whatever was opened before, a partition is opened with what was on disk at first.

The path of the directory may lead through symbolic links. It is the files in it that are to be
none.

* `contents_of_openTable`: a partition in a directory that was there.
* `contents_of_openTable_in`: a partition whose directory may be missing, which is opened first.
* `contents_of_openTable_free`: a partition whose directory is missing, whatever was opened before.
-/

set_option autoImplicit false

namespace PartitionStore.Partition

open FileTree

/-- The entries that are on disk for a partition in the directory `dir`: those of a table of the
format, or none if there is no table. -/
inductive Contents (dir : Path) (format : TableFormat) (t : FileTree) :
    SortedMap Bytes Bytes → Prop
  | table {data : Bytes} {table : Table} (file : t.read (tableFile dir) = .ok data)
      (image : Table.ofImage data = .ok table) (same : table.format = format) :
      Contents dir format t table.entries
  | missing (none : t.exists (tableFile dir) = false) : Contents dir format t SortedMap.empty

/-- The partition is that of the specification, and was opened with what is on disk in `t`. -/
structure OpenedFrom (dir : Path) (spec : PartitionSpec) (t : FileTree) (part : Partition) :
    Prop where
  id : part.id = spec.id
  format : part.format = spec.format
  contents : Contents dir spec.format t part.entries

/-- From `t` to `u` what was there and led on still does, and each table that is new has the format
and no entries. -/
structure TablesAdded (format : TableFormat) (t u : FileTree) : Prop where
  links : SameLinks t u
  stuck : ∀ l, u.node? l ≠ t.node? l → t.TakesFile l
  tables : ∀ l, u.node? (tableFileName :: l) = t.node? (tableFileName :: l) ∨
    t.node? (tableFileName :: l) = none ∧
      u.node? (tableFileName :: l) = some (.file (Table.image ⟨format, SortedMap.empty⟩))

variable {dir p : Path} {name : String} {spec : PartitionSpec} {format : TableFormat}
  {part : Partition} {t u v : FileTree} {loc : Location} {steps : List Step} {s : Slot}

namespace TablesAdded

theorem refl (format : TableFormat) (t : FileTree) : TablesAdded format t t :=
  ⟨.refl t, fun _ h => absurd rfl h, fun _ => .inl rfl⟩

theorem trans (h : TablesAdded format t u) (h' : TablesAdded format u v) :
    TablesAdded format t v := by
  refine ⟨h.links.trans h'.links, fun l hl => ?_, fun l => ?_⟩
  · -- What is the same in the second tree changed later.
    by_cases hsame : u.node? l = t.node? l
    · have := h'.stuck l (hsame ▸ hl)
      rwa [TakesFile, hsame] at this
    · exact h.stuck l hsame
  · rcases h'.tables l with hsame' | ⟨hnone, hmade⟩
    · rw [hsame']
      exact h.tables l
    · rcases h.tables l with hsame | ⟨-, hmade'⟩
      · exact .inr ⟨hsame ▸ hnone, hmade⟩
      · cases hnone.symm.trans hmade'

/-- Steps that led to a directory lead there still. -/
theorem resolveSteps (h : TablesAdded format t u)
    (hway : t.resolveSteps .followed steps = .ok (.occupied loc .dir)) :
    u.resolveSteps .followed steps = .ok (.occupied loc .dir) :=
  resolveSteps_frame (S := fun l => u.node? l ≠ t.node? l) h.stuck
    (fun _ hl => Classical.not_not.1 hl) hway
    fun hl => (h.stuck loc hl).ne_dir (resolveSteps_isIn hway)

end TablesAdded

/-- Opening makes a table at most, and the directory that it is in. -/
theorem tablesAdded_of_filled
    (filled : (Slot.openFiles dir spec { Slot.of t loc with dir := some .dir }).2.Filled loc t u)
    (free : LinkFreeFiles t loc)
    (hdir : t.node? loc = some .dir ∨ t.node? loc = none ∧ loc.head? ≠ some tableFileName) :
    TablesAdded spec.format t u := by
  have hgrows : (Slot.of t loc).Grows _ :=
    Slot.grows_openFiles dir spec (hdir.symm.imp And.left fun h => h)
  have hchanged (l : Location) (hl : u.node? l ≠ t.node? l) := filled.of_changed hgrows hl
  have hhas (l : Location) (hl : u.node? l ≠ t.node? l) : Slot.Has loc l :=
    Classical.byContradiction fun hout => hl (filled.same l hout)
  have hlink (l : Location) (hl : u.node? l ≠ t.node? l) (target : Path) :
      t.node? l ≠ some (.link target) := by
    rcases hhas l hl with rfl | hfile
    · rcases hdir with hdir | ⟨hnone, -⟩
      · simp [hdir]
      · simp [hnone]
    · exact free l hfile target
  refine ⟨.of_changed fun l hl target => ⟨(hchanged l hl).2.2 target, hlink l hl target⟩,
    fun l hl => takesFile_of_ne (hchanged l hl).2.1 (hlink l hl), fun l => ?_⟩
  by_cases hsame : u.node? (tableFileName :: l) = t.node? (tableFileName :: l)
  · exact .inl hsame
  rcases hhas _ hsame with rfl | htable | hscratch
  · -- A directory that was there has not changed.
    rcases hdir with hdir | ⟨-, hname⟩
    · exact absurd hdir (hchanged _ hsame).2.1
    · exact absurd rfl hname
  · obtain rfl := (List.cons.inj htable).2
    have hslot : u.node? (tableFileName :: l) =
        (Slot.openFiles dir spec { Slot.of t l with dir := some .dir }).2.table :=
      congrArg Slot.table filled.slot
    rcases Slot.openFiles_cases dir spec { Slot.of t l with dir := some .dir } with
      hkept | ⟨-, hnone, -, hmade⟩
    · rw [hkept] at hslot
      exact absurd hslot hsame
    · rw [hmade] at hslot
      exact .inr ⟨hnone, hslot⟩
  · exact absurd (List.cons.inj hscratch).1 (by decide)

/-- What success tells: the partition is that of the specification, and its files were opened. -/
theorem exists_of_opensTo {result : Except StoreError (SortedMap Bytes Bytes) × Slot}
    (opens : OpensTo t dir spec loc result) (h : openTable dir spec t = .ok part u) :
    result.1 = .ok part.entries ∧ part.id = spec.id ∧ part.format = spec.format ∧
      result.2.Filled loc t u := by
  obtain ⟨v, filled, hopen⟩ := opens
  rw [h] at hopen
  cases hanswer : result.1 with
  | error e =>
      rw [hanswer] at hopen
      cases hopen
  | ok entries =>
      rw [hanswer] at hopen
      cases hopen
      exact ⟨rfl, rfl, rfl, filled⟩

/-- A partition whose directory was there at first is opened with what was in it then. -/
theorem contents_of_openTable (added : TablesAdded spec.format t u) (hne : dir.text ≠ "")
    (hslash : dir.endsWithSlash = false)
    (hway : t.resolveSteps .followed dir.steps = .ok (.occupied loc .dir))
    (free : LinkFreeFiles t loc) (h : openTable dir spec u = .ok part v) :
    TablesAdded spec.format t v ∧ OpenedFrom dir spec t part := by
  have hway' := added.resolveSteps hway
  have free' : LinkFreeFiles u loc := fun l hl target hlink =>
    free l hl target ((added.links l target).1 hlink)
  have room := hasRoom_of_openTable hne hslash h
  obtain ⟨hanswer, hid, hformat, filled⟩ := exists_of_opensTo
    (opensTo_openFiles (Path.checkText_of_hasRoom room) hne hslash hway' free' spec) h
  have hdir : u.node? loc = some .dir := resolveSteps_isIn hway'
  have hslot : { Slot.of u loc with dir := some .dir } = Slot.of u loc := by rw [Slot.of, hdir]
  refine ⟨added.trans (tablesAdded_of_filled (hslot.symm ▸ filled) free' (.inl hdir)),
    ⟨hid, hformat, ?_⟩⟩
  have named : t.NamesEntry (tableFile dir) loc tableFileName :=
    ⟨Path.checkText_of_hasRoom (hasRoom_files room).1, Path.endsWithSlash_join dir (by decide),
      by decide, dir.steps, Path.steps_join (by decide), hway⟩
  -- What is in the table's place by now was there at first, or is a table without entries.
  rcases Slot.entries_of_openFiles hanswer with
    ⟨data, table, hfile, himage, hsame, hentries⟩ | ⟨hnone, hentries⟩
  · rw [hentries]
    replace hfile : u.node? (tableFileName :: loc) = some (.file data) := hfile
    rcases added.tables loc with hkept | ⟨hmissing, hmade⟩
    · exact .table (named.read (hkept ▸ hfile)) himage hsame
    · cases hfile.symm.trans hmade
      cases himage.symm.trans (Table.ofImage_image_empty spec.format)
      exact .missing (named.exists_of_none hmissing)
  · rw [hentries]
    replace hnone : u.node? (tableFileName :: loc) = none := hnone
    rcases added.tables loc with hkept | ⟨hmissing, -⟩
    · exact .missing (named.exists_of_none (hkept ▸ hnone))
    · exact .missing (named.exists_of_none hmissing)

/-- A partition whose directory is made is opened without entries. -/
theorem contents_of_made (hway : t.resolveSteps .followed p.steps = .ok (.occupied loc .dir))
    (hplain : Path.isPlainName name = true) (hname : name ≠ tableFileName)
    (hnone : t.node? (name :: loc) = none)
    (h : openTable (p.join name) spec t = .ok part u) :
    TablesAdded spec.format t u ∧ OpenedFrom (p.join name) spec t part := by
  have hslash := Path.endsWithSlash_join p hplain
  have room := hasRoom_of_openTable (Path.text_join_ne p hplain) hslash h
  -- Below what is missing there is neither a link nor a file.
  have hbelow {l : Location} (hl : l ≠ []) : t.node? (l ++ name :: loc) = none :=
    node?_below (by simp [hnone]) hl
  have free : t.LinkFree (name :: loc) := by
    rintro l target ⟨front, rfl⟩ hlink
    cases front with
    | nil => cases hnone.symm.trans hlink
    | cons step rest => cases (hbelow (List.cons_ne_nil step rest)).symm.trans hlink
  cases husable : isEntryName name with
  | false =>
      have hrefused := createDirAll_of_unusable hway hplain husable
        (Path.checkText_of_hasRoom room)
      rw [openTable, Action.bind_of_error (StoreAction.io_of_error hrefused)] at h
      cases h
  | true =>
      have named : t.NamesEntry (p.join name) loc name :=
        ⟨Path.checkText_of_hasRoom room, hslash, husable, p.steps, Path.steps_join hplain, hway⟩
      obtain ⟨hanswer, hid, hformat, filled⟩ :=
        exists_of_opensTo (opensTo_of_missing named hnone free spec) h
      have free' : LinkFreeFiles t (name :: loc) := by
        rintro l (rfl | rfl) target <;> exact free.entry _ target
      refine ⟨tablesAdded_of_filled filled free' (.inr ⟨hnone, by simpa using hname⟩),
        ⟨hid, hformat, ?_⟩⟩
      have hmissing : t.node? (tableFileName :: name :: loc) = none :=
        hbelow (List.cons_ne_nil tableFileName [])
      rcases Slot.entries_of_openFiles hanswer with ⟨data, -, hfile, -⟩ | ⟨-, hentries⟩
      · cases hmissing.symm.trans hfile
      · rw [hentries]
        refine .missing ?_
        rw [FileTree.exists, tableFile, find_below hway hplain (by decide)
          (Path.checkText_of_hasRoom (hasRoom_files room).1) (by simp [hnone])
          fun _ => by simp [hmissing]]
        simp [husable, hnone, hmissing, Except.isOk, Except.toBool]

/-- A partition that is opened first, in a directory that was there or is made, is opened with what
was on disk. -/
theorem contents_of_openTable_in
    (hway : t.resolveSteps .followed p.steps = .ok (.occupied loc .dir))
    (hplain : Path.isPlainName name = true) (hname : name ≠ tableFileName)
    (free : ∀ l, t.resolveSteps .followed (p.join name).steps = .ok (.occupied l .dir) →
      LinkFreeFiles t l) (h : openTable (p.join name) spec t = .ok part u) :
    TablesAdded spec.format t u ∧ OpenedFrom (p.join name) spec t part := by
  have hne := Path.text_join_ne p hplain
  have hslash := Path.endsWithSlash_join p hplain
  by_cases hdir : ∃ l, t.resolveSteps .followed (p.join name).steps = .ok (.occupied l .dir)
  · obtain ⟨l, hl⟩ := hdir
    exact contents_of_openTable (.refl _ t) hne hslash hl (free l hl) h
  cases hnode : t.node? (name :: loc) with
  | none => exact contents_of_made hway hplain hname hnode h
  | some node =>
      -- What is there is not a directory, nor does it lead to one, so it is in the way.
      exfalso
      have room := hasRoom_of_openTable hne hslash h
      have named : t.NamesEntry (p.join name) loc name :=
        ⟨Path.checkText_of_hasRoom room, hslash, isEntryName_of_node? hnode,
          p.steps, Path.steps_join hplain, hway⟩
      rcases createDirAll_of_some named hnode with ⟨l, hl, -⟩ | ⟨-, hrefused⟩
      · exact hdir ⟨l, hl⟩
      · rw [openTable, Action.bind_of_error (StoreAction.io_of_error hrefused)] at h
        cases h

/-- Where no directory was at first a partition is opened without entries. By now there may be one,
but the table in it has none. -/
theorem contents_of_openTable_free (added : TablesAdded spec.format t u)
    (hway : t.resolveSteps .followed p.steps = .ok (.occupied loc .dir))
    (hplain : Path.isPlainName name = true) (hname : name ≠ tableFileName)
    (takes : t.TakesFile (name :: loc)) (h : openTable (p.join name) spec u = .ok part v) :
    TablesAdded spec.format t v ∧ OpenedFrom (p.join name) spec t part := by
  have hnone {l : Location} (hl : l ≠ []) : t.node? (l ++ name :: loc) = none :=
    node?_below takes.ne_dir hl
  have htable : t.node? (tableFileName :: name :: loc) = none :=
    hnone (List.cons_ne_nil tableFileName [])
  have hdirLink (target : Path) : u.node? (name :: loc) ≠ some (.link target) := fun hlink =>
    takes.ne_link target ((added.links _ target).1 hlink)
  have free : LinkFreeFiles u (name :: loc) := by
    rintro l (rfl | rfl) target hlink
    · cases htable.symm.trans ((added.links _ target).1 hlink)
    · cases (hnone (List.cons_ne_nil scratchName [])).symm.trans ((added.links _ target).1 hlink)
  have hwayU := added.resolveSteps hway
  obtain ⟨added', hid, hformat, contents⟩ := contents_of_openTable_in hwayU hplain hname
    (fun l hl => by
      rw [Path.steps_join hplain] at hl
      cases usable : isEntryName name with
      | false => cases (resolveSteps_down_of_unusable _ hwayU usable).symm.trans hl
      | true =>
          rw [resolveSteps_down _ hwayU usable fun _ => hdirLink] at hl
          split at hl <;> cases hl
          exact free) h
  have htext := Path.checkText_of_hasRoom
    (hasRoom_files (hasRoom_of_openTable (Path.text_join_ne p hplain)
      (Path.endsWithSlash_join p hplain) h)).1
  refine ⟨added.trans added', hid, hformat, ?_⟩
  have hmissing : t.exists (tableFile (p.join name)) = false := by
    rw [FileTree.exists, tableFile, find_below hway hplain (by decide) htext takes.ne_link
      fun _ => by simp [htable]]
    split
    · rfl
    · rw [htable]
      split <;> first | rfl | contradiction
  generalize part.entries = entries at contents
  cases contents with
  | missing => exact .missing hmissing
  | @table data table file image =>
      -- The table that is there by now was made, so it is one without entries.
      have hfile :=
        node?_of_read_below hwayU hplain (by decide) htext hdirLink (free _ (.inl rfl)) file
      rcases added.tables (name :: loc) with hsame | ⟨-, hmade⟩
      · cases hfile.symm.trans (hsame.trans htable)
      · cases hfile.symm.trans hmade
        cases image.symm.trans (Table.ofImage_image_empty spec.format)
        exact .missing hmissing

end PartitionStore.Partition
