import PartitionStore.Proofs.Partition.Outcomes

/-!
# `PartitionStore.Proofs.Partition.Slot`: what opening a partition hangs on

A partition has three places on disk: its directory, and the two files in it. What
opening it answers, and what it leaves, hangs on what is at these three and on nothing
else in the tree (`opensTo_openIn`), as long as the way to the directory above is there
and no links are in the place.

* `Slot.openIn`: the answer, and what becomes of the three places.
* `Slot.openIn_openIn`: opening leaves nothing behind that makes a difference to another
  opening, unless it made a table, of another format.
* `Slot.openIn_of_made`: that other one is refused then.
-/

set_option autoImplicit false

namespace PartitionStore.Partition

open FileTree

/-- Neither of the two files in the directory is a link. -/
def LinkFreeFiles (t : FileTree) (loc : Location) : Prop :=
  ∀ l, IsFile loc l → ∀ target, t.node? l ≠ some (.link target)

/-- What there is in the three places of a partition. -/
@[ext] structure Slot where
  dir : Option Node
  table : Option Node
  scratch : Option Node

namespace Slot

/-- The slot of the partition whose directory is at the location. -/
def of (t : FileTree) (loc : Location) : Slot :=
  ⟨t.node? loc, t.node? (tableFileName :: loc), t.node? (scratchName :: loc)⟩

/-- The places that belong to the slot. -/
def Has (loc l : Location) : Prop := l = loc ∨ IsFile loc l

/-- From `t` to `u` the slot at the location was filled with `s`, and nothing else changed. -/
structure Filled (s : Slot) (loc : Location) (t u : FileTree) : Prop where
  slot : of u loc = s
  same : ∀ l, ¬Has loc l → u.node? l = t.node? l

/-! ### The answer -/

/-- What opening answers in a directory that is there, and what becomes of the slot. -/
def openFiles (dir : Path) (spec : PartitionSpec) (s : Slot) :
    Except StoreError (SortedMap Bytes Bytes) × Slot :=
  match checkText (dir.join scratchName) with
  | .error e => (.error (.io e), s)
  | .ok () =>
    match s.table with
    | some (.file data) =>
      match Table.ofImage data with
      | .error damage => (.error (.corruption (tableFile dir) damage), s)
      | .ok table =>
        if table.format = spec.format then (.ok table.entries, s)
        else (.error (.formatMismatch spec.id spec.format table.format), s)
    | some _ => (.error (.io .isADirectory), s)
    | none =>
      if s.scratch = some .dir then (.error (.io .isADirectory), s)
      else
        (.ok SortedMap.empty,
          ⟨s.dir, some (.file (Table.image ⟨spec.format, SortedMap.empty⟩)), none⟩)

/-- What opening answers, and what becomes of the slot. `name` is that of the directory. -/
def openIn (dir : Path) (name : String) (spec : PartitionSpec) (s : Slot) :
    Except StoreError (SortedMap Bytes Bytes) × Slot :=
  match checkText dir with
  | .error e => (.error (.io e), s)
  | .ok () =>
    if isEntryName name = false then (.error (.io .nameTooLong), s)
    else match s.dir with
      | some (.file _) | some (.link _) => (.error (.io .alreadyExists), s)
      | some .dir | none => openFiles dir spec { s with dir := some .dir }

variable {dir : Path} {name : String} {spec spec' : PartitionSpec} {s : Slot} {t u v : FileTree}
  {loc parent : Location}

/-- Opening leaves the files as they are, or makes a table where there is none. -/
theorem openFiles_cases (dir : Path) (spec : PartitionSpec) (s : Slot) :
    (openFiles dir spec s).2 = s ∨ checkText (dir.join scratchName) = .ok () ∧ s.table = none ∧
      s.scratch ≠ some .dir ∧ openFiles dir spec s = (.ok SortedMap.empty,
        ⟨s.dir, some (.file (Table.image ⟨spec.format, SortedMap.empty⟩)), none⟩) := by
  rw [openFiles]
  split
  · exact .inl rfl
  rename_i htext
  split
  · split
    · exact .inl rfl
    · split <;> exact .inl rfl
  · exact .inl rfl
  · rename_i hnone
    split
    · exact .inl rfl
    · rename_i hscratch
      exact .inr ⟨htext, hnone, hscratch, rfl⟩

/-- A partition that was opened has the entries of the table, which is of its format, or there was
none. -/
theorem entries_of_openFiles {entries : SortedMap Bytes Bytes}
    (h : (openFiles dir spec s).1 = .ok entries) :
    (∃ data table, s.table = some (.file data) ∧ Table.ofImage data = .ok table ∧
        table.format = spec.format ∧ entries = table.entries) ∨
      s.table = none ∧ entries = SortedMap.empty := by
  rw [openFiles] at h
  split at h
  · cases h
  split at h
  · rename_i data hdata
    split at h
    · cases h
    · rename_i table himage
      split at h
      · rename_i hformat
        cases h
        exact .inl ⟨data, table, hdata, himage, hformat, rfl⟩
      · cases h
  · cases h
  · rename_i hnone
    split at h
    · cases h
    · cases h
      exact .inr ⟨hnone, rfl⟩

/-- A table that was made is opened with the format that it was made with, and with no other. -/
theorem openFiles_of_made {format : TableFormat} (htext : checkText (dir.join scratchName) = .ok ())
    (hmade : s.table = some (.file (Table.image ⟨format, SortedMap.empty⟩))) :
    openFiles dir spec s = (if format = spec.format then .ok SortedMap.empty
      else .error (.formatMismatch spec.id spec.format format), s) := by
  rw [openFiles, htext, hmade]
  simp only [Table.ofImage_image_empty]
  split <;> rfl

theorem openFiles_openFiles
    (h : spec'.format = spec.format ∨ (openFiles dir spec s).2.table = s.table) :
    openFiles dir spec' (openFiles dir spec s).2 = openFiles dir spec' s := by
  rcases openFiles_cases dir spec s with hsame | ⟨htext, hnone, hscratch, hmade⟩
  · rw [hsame]
  · rw [hmade] at h ⊢
    have hformat : spec'.format = spec.format := h.resolve_right (by simp [hnone])
    -- The one table that is made is the one that the other opening would make.
    rw [openFiles_of_made htext rfl, if_pos hformat.symm]
    rcases openFiles_cases dir spec' s with hsame | ⟨-, -, -, hmade'⟩
    · have hother : openFiles dir spec' s = (.ok SortedMap.empty,
          ⟨s.dir, some (.file (Table.image ⟨spec'.format, SortedMap.empty⟩)), none⟩) := by
        simp only [openFiles, htext, hnone, if_neg hscratch]
      rw [hother, hformat]
    · rw [hmade', hformat]

theorem dir_openFiles (dir : Path) (spec : PartitionSpec) (s : Slot) :
    (openFiles dir spec s).2.dir = s.dir := by
  rcases openFiles_cases dir spec s with hsame | ⟨-, -, -, hmade⟩
  · rw [hsame]
  · rw [hmade]

/-- Where the directory is there or can be made the files decide. -/
theorem openIn_of_dir (htext : checkText dir = .ok ()) (hname : isEntryName name = true)
    (hdir : s.dir = none ∨ s.dir = some .dir) :
    openIn dir name spec s = openFiles dir spec { s with dir := some .dir } := by
  rw [openIn, htext]
  rcases hdir with hdir | hdir <;> simp [hname, hdir]

/-- Otherwise opening is refused, whatever the files are, and the slot is left as it is. -/
theorem openIn_cases (dir : Path) (name : String) (s : Slot) :
    (∃ e, ∀ spec, openIn dir name spec s = (.error (.io e), s)) ∨
      checkText dir = .ok () ∧ isEntryName name = true ∧ (s.dir = none ∨ s.dir = some .dir) := by
  cases htext : checkText dir with
  | error e => exact .inl ⟨e, fun spec => by rw [openIn, htext]⟩
  | ok _ =>
      cases hname : isEntryName name with
      | false => exact .inl ⟨.nameTooLong, fun spec => by rw [openIn, htext, if_pos hname]⟩
      | true =>
          cases hdir : s.dir with
          | none => exact .inr ⟨rfl, rfl, .inl rfl⟩
          | some node =>
              cases node with
              | dir => exact .inr ⟨rfl, rfl, .inr rfl⟩
              | file data =>
                  exact .inl ⟨.alreadyExists, fun spec => by simp [openIn, htext, hname, hdir]⟩
              | link target =>
                  exact .inl ⟨.alreadyExists, fun spec => by simp [openIn, htext, hname, hdir]⟩

/-- An opening that comes after another one answers what it would answer without it, and leaves
the same. But if that one made a table they are to be of the same format. -/
theorem openIn_openIn
    (h : spec'.format = spec.format ∨ (openIn dir name spec s).2.table = s.table) :
    openIn dir name spec' (openIn dir name spec s).2 = openIn dir name spec' s := by
  rcases openIn_cases dir name s with ⟨e, hrefused⟩ | ⟨htext, hname, hdir⟩
  · rw [hrefused spec]
  · rw [openIn_of_dir htext hname hdir] at h ⊢
    -- The directory is there by now, and it is for the files again to decide.
    have hthere := dir_openFiles dir spec { s with dir := some .dir }
    have hsame : ({ (openFiles dir spec { s with dir := some .dir }).2 with dir := some .dir } :
        Slot) = (openFiles dir spec { s with dir := some .dir }).2 := by
      ext1
      · exact hthere.symm
      · rfl
      · rfl
    rw [openIn_of_dir htext hname (.inr hthere), hsame, openIn_of_dir htext hname hdir,
      openFiles_openFiles h]

/-- A partition that was opened has its directory. -/
theorem dir_openIn {entries : SortedMap Bytes Bytes}
    (h : (openIn dir name spec s).1 = .ok entries) :
    (openIn dir name spec s).2.dir = some .dir := by
  rcases openIn_cases dir name s with ⟨e, hrefused⟩ | ⟨htext, hname, hdir⟩
  · rw [hrefused] at h
    cases h
  · rw [openIn_of_dir htext hname hdir]
    exact dir_openFiles ..

/-- Where there is no table file it is the file system that fails, if anything does. -/
theorem io_of_openIn {e : StoreError} (h : (openIn dir name spec s).1 = .error e)
    (hfile : ∀ data, s.table ≠ some (.file data)) : ∃ cause, e = .io cause := by
  rcases openIn_cases dir name s with ⟨cause, hrefused⟩ | ⟨htext, hname, hdir⟩
  · rw [hrefused] at h
    cases h
    exact ⟨cause, rfl⟩
  · rw [openIn_of_dir htext hname hdir, openFiles] at h
    split at h
    · cases h
      exact ⟨_, rfl⟩
    split at h
    · rename_i data hdata
      exact absurd hdata (hfile data)
    · cases h
      exact ⟨_, rfl⟩
    · split at h
      · cases h
        exact ⟨_, rfl⟩
      · cases h

/-- Where the directory can be made and there is no room for the files, it is made for nothing. -/
theorem openIn_of_long {cause : IoError} (htext : checkText dir = .ok ())
    (hname : isEntryName name = true) (hnone : s.dir = none)
    (hlong : checkText (dir.join scratchName) = .error cause) :
    openIn dir name spec s = (.error (.io cause), { s with dir := some .dir }) := by
  rw [openIn_of_dir htext hname (.inl hnone), openFiles, hlong]

/-- In no other case does an opening that fails leave anything. -/
theorem openIn_of_error {e : StoreError} (h : (openIn dir name spec s).1 = .error e)
    (hempty : s.dir = none → s.table = none ∧ s.scratch = none) :
    (openIn dir name spec s).2 = s ∨ s.dir = none ∧ checkText dir = .ok () ∧
      isEntryName name = true ∧ checkText (dir.join scratchName) ≠ .ok () := by
  rcases openIn_cases dir name s with ⟨cause, hrefused⟩ | ⟨htext, hname, hdir⟩
  · exact .inl (by rw [hrefused])
  rw [openIn_of_dir htext hname hdir] at h ⊢
  have hsame : (openFiles dir spec { s with dir := some .dir }).2 = { s with dir := some .dir } := by
    rcases openFiles_cases dir spec { s with dir := some .dir } with hsame | ⟨-, -, -, hmade⟩
    · exact hsame
    · rw [hmade] at h
      cases h
  rw [hsame]
  rcases hdir with hnone | hthere
  · -- In a directory that is new nothing but the length of the paths is in the way of a table.
    refine .inr ⟨hnone, htext, hname, fun hfits => ?_⟩
    obtain ⟨htable, hscratch⟩ := hempty hnone
    simp [openFiles, hfits, htable, hscratch] at h
  · exact .inl (by rw [← hthere])

/-- An opening that made a table stands in the way of every other one with another format. -/
theorem openIn_of_made (hmade : (openIn dir name spec s).2.table ≠ s.table)
    (hformat : spec'.format ≠ spec.format) :
    (openIn dir name spec' (openIn dir name spec s).2).1 =
      .error (.formatMismatch spec'.id spec'.format spec.format) := by
  rcases openIn_cases dir name s with ⟨e, hrefused⟩ | ⟨htext, hname, hdir⟩
  · rw [hrefused] at hmade
    exact absurd rfl hmade
  · rw [openIn_of_dir htext hname hdir] at hmade ⊢
    rw [openIn_of_dir htext hname (.inr (dir_openFiles ..))]
    rcases openFiles_cases dir spec { s with dir := some .dir } with hsame | ⟨hfile, -, -, htable⟩
    · rw [hsame] at hmade
      exact absurd rfl hmade
    · rw [htable, openFiles_of_made hfile rfl, if_neg fun e => hformat e.symm]

/-! ### What changes -/

/-- A directory may be made, a table made where there is none, and the scratch file go. -/
structure Grows (s s' : Slot) : Prop where
  dir : s'.dir = s.dir ∨ s.dir = none ∧ s'.dir = some .dir
  table : s'.table = s.table ∨ s.table = none ∧ ∃ data, s'.table = some (.file data)
  scratch : s'.scratch = s.scratch ∨ s.scratch ≠ some .dir ∧ s'.scratch = none

theorem grows_openFiles (dir : Path) (spec : PartitionSpec)
    (hdir : s.dir = none ∨ s.dir = some .dir) :
    s.Grows (openFiles dir spec { s with dir := some .dir }).2 := by
  have hgrown : some .dir = s.dir ∨ s.dir = none ∧ some Node.dir = some .dir :=
    hdir.symm.imp Eq.symm fun hnone => ⟨hnone, rfl⟩
  rcases openFiles_cases dir spec { s with dir := some .dir } with
    hsame | ⟨-, hnone, hscratch, hmade⟩
  · rw [hsame]
    exact ⟨hgrown, .inl rfl, .inl rfl⟩
  · rw [hmade]
    exact ⟨hgrown, .inr ⟨hnone, _, rfl⟩, .inr ⟨hscratch, rfl⟩⟩

theorem grows_openIn (dir : Path) (name : String) (spec : PartitionSpec) (s : Slot) :
    s.Grows (openIn dir name spec s).2 := by
  rcases openIn_cases dir name s with ⟨e, hrefused⟩ | ⟨htext, hname, hdir⟩
  · rw [hrefused]
    exact ⟨.inl rfl, .inl rfl, .inl rfl⟩
  · rw [openIn_of_dir htext hname hdir]
    exact grows_openFiles dir spec hdir

/-- The scratch file is left alone where there is a table. -/
theorem scratch_openIn {node : Node} (htable : s.table = some node) :
    (openIn dir name spec s).2.scratch = s.scratch := by
  rcases openIn_cases dir name s with ⟨e, hrefused⟩ | ⟨htext, hname, hdir⟩
  · rw [hrefused]
  · rw [openIn_of_dir htext hname hdir]
    rcases openFiles_cases dir spec { s with dir := some .dir } with hsame | ⟨-, hnone, -, -⟩
    · rw [hsame]
    · cases htable.symm.trans hnone

/-- Where something changed there was no directory, and there is no link. -/
theorem Filled.of_changed {s' : Slot} (filled : s'.Filled loc t u) (grows : (of t loc).Grows s')
    {l : Location} (hl : u.node? l ≠ t.node? l) :
    loc <:+ l ∧ t.node? l ≠ some .dir ∧ ∀ target, u.node? l ≠ some (.link target) := by
  obtain ⟨rfl, hsame⟩ := filled
  have hin : Has loc l := Classical.byContradiction fun hout => hl (hsame l hout)
  rcases hin with rfl | rfl | rfl
  · obtain ⟨hnone, hdir⟩ : t.node? l = none ∧ u.node? l = some .dir := grows.dir.resolve_left hl
    exact ⟨List.suffix_refl _, by simp [hnone], by simp [hdir]⟩
  · obtain ⟨hnone, data, hfile⟩ : t.node? (tableFileName :: loc) = none ∧
        ∃ data, u.node? (tableFileName :: loc) = some (.file data) := grows.table.resolve_left hl
    exact ⟨List.suffix_cons .., by simp [hnone], by simp [hfile]⟩
  · obtain ⟨hne, hnone⟩ : t.node? (scratchName :: loc) ≠ some .dir ∧
        u.node? (scratchName :: loc) = none := grows.scratch.resolve_left hl
    exact ⟨List.suffix_cons .., hne, by simp [hnone]⟩

end Slot

/-! ### Opening in a tree -/

variable {dir p : Path} {name : String} {spec : PartitionSpec} {t u : FileTree}
  {loc parent : Location} {e : StoreError}

/-- Opening the partition in the directory `dir` answers what the result says, and fills the slot
at the location with what it says. -/
def OpensTo (t : FileTree) (dir : Path) (spec : PartitionSpec) (loc : Location)
    (result : Except StoreError (SortedMap Bytes Bytes) × Slot) : Prop :=
  ∃ u, result.2.Filled loc t u ∧ openTable dir spec t = match result.1 with
    | .ok entries => .ok ⟨spec.id, spec.format, entries, .table dir false, false⟩ u
    | .error e => .error e u

/-- What is refused at once leaves its slot as it is. -/
theorem OpensTo.refused (h : openTable dir spec t = .error e t) :
    OpensTo t dir spec loc (.error e, Slot.of t loc) :=
  ⟨t, ⟨rfl, fun _ _ => rfl⟩, h⟩

/-- Where the path of the scratch file is too long no table is found, for the path of the table
file is no shorter, and none can be made. -/
theorem opensTo_of_long {cause : IoError} (hmake : Files.createDirAll dir t = .ok () t)
    (hdir : dir.text ≠ "") (hslash : dir.endsWithSlash = false)
    (htext : checkText (dir.join scratchName) = .error cause) :
    OpensTo t dir spec loc ((Slot.of t loc).openFiles dir spec) := by
  have hfiles : (Slot.of t loc).openFiles dir spec = (.error (.io cause), Slot.of t loc) := by
    rw [Slot.openFiles, htext]
  have hmissing : ¬t.exists (tableFile dir) = true := by
    intro hthere
    have room := hasRoom_of_files hdir hslash (.inl rfl) (checkText_of_exists hthere)
    rw [Path.checkText_of_hasRoom (hasRoom_files room).2] at htext
    cases htext
  rw [hfiles]
  refine .refused ?_
  rw [openTable_of_createDirAll spec hmake, if_neg hmissing]
  exact Action.bind_of_error (Table.write_of_checkText (by rwa [scratchFile_tableFile]) _)

/-- What is in the place of the table decides, if there is anything. -/
theorem opensTo_of_some {node : Node} (hmake : Files.createDirAll dir t = .ok () t)
    (htext : checkText (dir.join scratchName) = .ok ())
    (htable : t.NamesEntry (tableFile dir) loc tableFileName)
    (hlink : ∀ target, t.node? (tableFileName :: loc) ≠ some (.link target))
    (hnode : t.node? (tableFileName :: loc) = some node) :
    OpensTo t dir spec loc ((Slot.of t loc).openFiles dir spec) := by
  -- A directory under the table's name cannot be read; a file is decoded, and left as it is.
  cases node with
  | link target => exact absurd hnode (hlink target)
  | dir =>
      have hfiles : (Slot.of t loc).openFiles dir spec =
          (.error (.io .isADirectory), Slot.of t loc) := by
        simp only [Slot.openFiles, htext, Slot.of, hnode]
      have hread : Table.read (tableFile dir) t = .error (.io .isADirectory) t := by
        refine Action.bind_of_error (StoreAction.io_of_error ?_)
        rw [Files.ask, FileTree.read, htable.find .followed hnode (by simp)]
        rfl
      rw [hfiles]
      refine .refused ?_
      rw [openTable_of_createDirAll spec hmake, if_pos (htable.exists_of_some hnode (by simp))]
      exact Action.bind_of_error hread
  | file data =>
      have hopen := openTable_of_read spec (htable.read hnode)
      have hslot : ((Slot.of t loc).openFiles dir spec).2 = Slot.of t loc := by
        rcases Slot.openFiles_cases dir spec (Slot.of t loc) with hsame | ⟨-, hnone, -⟩
        · exact hsame
        · cases hnone.symm.trans hnode
      refine ⟨t, ⟨hslot.symm, fun _ _ => rfl⟩, ?_⟩
      rw [hopen]
      simp only [Slot.openFiles, htext, Slot.of, hnode]
      cases Table.ofImage data with
      | error damage => rfl
      | ok table => dsimp only; split <;> rfl

/-- Where there is no table one is made by way of the scratch file, unless a directory is in the
place of that. -/
theorem opensTo_of_none (hmake : Files.createDirAll dir t = .ok () t)
    (htext : checkText (dir.join scratchName) = .ok ())
    (htable : t.NamesEntry (tableFile dir) loc tableFileName)
    (hscratch : t.NamesEntry (Table.scratchFile (tableFile dir)) loc scratchName)
    (hlink : ∀ target, t.node? (scratchName :: loc) ≠ some (.link target))
    (hnone : t.node? (tableFileName :: loc) = none) :
    OpensTo t dir spec loc ((Slot.of t loc).openFiles dir spec) := by
  have hopen := openTable_of_createDirAll spec hmake
  rw [if_neg (by simp [htable.exists_of_none hnone])] at hopen
  -- A directory under the scratch name is in the way of writing the new table.
  by_cases hblocked : t.node? (scratchName :: loc) = some .dir
  · have hfiles : (Slot.of t loc).openFiles dir spec =
        (.error (.io .isADirectory), Slot.of t loc) := by
      simp only [Slot.openFiles, htext, Slot.of, hnone, if_pos hblocked]
    rw [hfiles]
    exact .refused (hopen.trans (Action.bind_of_error
      (Table.write_of_scratch (hscratch.write_of_isDir hblocked) _)))
  · have hfiles : (Slot.of t loc).openFiles dir spec = (.ok SortedMap.empty,
        ⟨t.node? loc, some (.file (Table.image ⟨spec.format, SortedMap.empty⟩)), none⟩) := by
      simp only [Slot.openFiles, htext, Slot.of, hnone, if_neg hblocked]
    have fits : ∀ entry ∈ (Table.mk spec.format SortedMap.empty).entries.toList,
        Table.Fits entry := by simp [SortedMap.empty]
    obtain ⟨u, hwrite, hu⟩ := Table.write_of_fits htable hscratch (by decide)
      (takesFile_of_none hnone) (takesFile_of_ne hblocked hlink) fits
    have hne (file : String) : ¬loc = file :: loc := fun e => List.cons_ne_self _ _ e.symm
    have hfile : ¬scratchName :: loc = tableFileName :: loc := fun e =>
      absurd (List.cons.inj e).1 (by decide)
    rw [hfiles]
    refine ⟨u, ⟨?_, fun l hl => ?_⟩, hopen.trans (Action.bind_of_ok hwrite)⟩
    · rw [Slot.of, hu, hu, hu, if_neg (hne _), if_neg (hne _), if_pos rfl, if_neg hfile, if_pos rfl]
    · rw [hu, if_neg fun e => hl (.inr (.inl e)), if_neg fun e => hl (.inr (.inr e))]

/-- In a directory that is led to the two files decide. -/
theorem opensTo_openFiles (htext : checkText dir = .ok ()) (hne : dir.text ≠ "")
    (hslash : dir.endsWithSlash = false)
    (hway : t.resolveSteps .followed dir.steps = .ok (.occupied loc .dir))
    (free : LinkFreeFiles t loc) (spec : PartitionSpec) :
    OpensTo t dir spec loc ((Slot.of t loc).openFiles dir spec) := by
  have hmake := createDirAll_of_resolveSteps htext hway
  have named {file : String} (hfile : isEntryName file = true)
      (hlong : checkText (dir.join file) = .ok ()) : t.NamesEntry (dir.join file) loc file :=
    have hplain := isPlainName_of_isEntryName hfile
    ⟨hlong, Path.endsWithSlash_join dir hplain, hfile, dir.steps, Path.steps_join hplain, hway⟩
  cases hscratch : checkText (dir.join scratchName) with
  | error cause => exact opensTo_of_long hmake hne hslash hscratch
  | ok _ =>
      have room := hasRoom_of_files hne hslash (.inr rfl) hscratch
      have htable : t.NamesEntry (tableFile dir) loc tableFileName :=
        named (by decide) (Path.checkText_of_hasRoom (hasRoom_files room).1)
      cases hnode : t.node? (tableFileName :: loc) with
      | some node => exact opensTo_of_some hmake hscratch htable (free _ (.inl rfl)) hnode
      | none =>
          have hscratch' : t.NamesEntry (Table.scratchFile (tableFile dir)) loc scratchName := by
            rw [scratchFile_tableFile]
            exact named (by decide) hscratch
          exact opensTo_of_none hmake hscratch htable hscratch' (free _ (.inr rfl)) hnode

/-- So it is in a directory that is there and has this name. -/
theorem opensTo_of_isDir (named : t.NamesEntry dir parent name)
    (hdir : t.node? (name :: parent) = some .dir) (free : t.LinkFree (name :: parent))
    (spec : PartitionSpec) :
    OpensTo t dir spec (name :: parent) ((Slot.of t (name :: parent)).openFiles dir spec) := by
  have hway := named.resolveSteps .followed (by simp [hdir])
  rw [hdir] at hway
  refine opensTo_openFiles named.text named.text_ne named.noSlash hway (fun l hl target => ?_) spec
  rcases hl with rfl | rfl <;> exact free.entry _ target

/-- Where there is no directory it is made, and then it is for the files in it to decide. -/
theorem opensTo_of_missing (named : t.NamesEntry dir parent name)
    (hnone : t.node? (name :: parent) = none) (free : t.LinkFree (name :: parent))
    (spec : PartitionSpec) :
    OpensTo t dir spec (name :: parent)
      (Slot.openFiles dir spec { Slot.of t (name :: parent) with dir := some .dir }) := by
  have hmake := createDirAll_ok named hnone
  have hgrown := grown_createDirAll dir t
  rw [hmake] at hgrown
  replace hgrown : Grown t (t.place parent name .dir) := hgrown
  have hthere : (t.place parent name .dir).node? (name :: parent) = some .dir :=
    node?_place_self named.usable named.isDir (by simp [hnone])
  have helse (l : Location) (hl : l ≠ name :: parent) := node?_place_of_ne t parent name .dir hl
  have named' : (t.place parent name .dir).NamesEntry dir parent name :=
    named.frame (S := (· = name :: parent)) (fun l hl => hl ▸ takesFile_of_none hnone) helse
  have hslot : Slot.of (t.place parent name .dir) (name :: parent) =
      { Slot.of t (name :: parent) with dir := some .dir } := by
    rw [Slot.of, hthere, helse _ (List.cons_ne_self _ _), helse _ (List.cons_ne_self _ _)]
    rfl
  obtain ⟨u, filled, hopen⟩ := opensTo_of_isDir named' hthere (free.congr hgrown.sameLinks) spec
  rw [hslot] at filled hopen
  refine ⟨u, ⟨filled.slot, fun l hl =>
    (filled.same l hl).trans (helse l fun e => hl (.inl e))⟩, ?_⟩
  rw [openTable_of_createDirAll spec hmake,
    ← openTable_of_createDirAll spec (createDirAll_of_isDir named' hthere)]
  exact hopen

/-- What opening a partition answers, and what it leaves, is for its slot to decide. -/
theorem opensTo_openIn (hway : t.resolveSteps .followed p.steps = .ok (.occupied loc .dir))
    (hplain : Path.isPlainName name = true) (free : t.LinkFree (name :: loc))
    (spec : PartitionSpec) :
    OpensTo t (p.join name) spec (name :: loc)
      ((Slot.of t (name :: loc)).openIn (p.join name) name spec) := by
  -- What stands in the way is found in this order: the path, the name, and what is there already.
  cases htext : checkText (p.join name) with
  | error cause =>
      rw [Slot.openIn, htext]
      exact .refused (openTable_of_checkText spec (Path.text_join_ne p hplain) htext)
  | ok _ =>
      cases hname : isEntryName name with
      | false =>
          rw [Slot.openIn, htext, if_pos hname]
          refine .refused ?_
          rw [openTable, Action.bind_of_error (StoreAction.io_of_error
            (createDirAll_of_unusable hway hplain hname htext))]
      | true =>
          have named : t.NamesEntry (p.join name) loc name :=
            ⟨htext, Path.endsWithSlash_join p hplain, hname, p.steps, Path.steps_join hplain, hway⟩
          cases hdir : t.node? (name :: loc) with
          | none =>
              rw [Slot.openIn_of_dir htext hname (.inl hdir)]
              exact opensTo_of_missing named hdir free spec
          | some node =>
              cases node with
              | link target => exact absurd hdir (free _ target (List.suffix_refl _))
              | file data =>
                  have hslot : (Slot.of t (name :: loc)).openIn (p.join name) name spec =
                      (.error (.io .alreadyExists), Slot.of t (name :: loc)) := by
                    simp [Slot.openIn, htext, hname, Slot.of, hdir]
                  rw [hslot]
                  refine .refused ?_
                  rw [openTable, Action.bind_of_error (StoreAction.io_of_error
                    (createDirAll_of_file named hdir))]
              | dir =>
                  have hsame : { Slot.of t (name :: loc) with dir := some .dir } =
                      Slot.of t (name :: loc) := by rw [Slot.of, hdir]
                  rw [Slot.openIn_of_dir htext hname (.inr hdir), hsame]
                  exact opensTo_of_isDir named hdir free spec

end PartitionStore.Partition
