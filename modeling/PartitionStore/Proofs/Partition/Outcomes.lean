import PartitionStore.Proofs.FileTree.Replacing
import PartitionStore.Proofs.Partition

/-!
# `PartitionStore.Proofs.Partition.Outcomes`: all that an operation of a partition can do

An operation of a partition may fail at any of its steps. Here is what it leaves in
the tree and in memory in every case, as long as the path of the partition's
directory points somewhere (`PointsTo`) and no links are there. Whatever stands in
the place of its files may be in the way.

* `TableAt t loc table`: the table file of the directory at `loc` decodes to the table.
* `openTable_cases`, `flush_cases`: success comes with the table on disk, and nothing
  but the partition's two files and new directories changes either way.
* `drop_cases`: a partition that is dropped takes its directory with it.
-/

set_option autoImplicit false

namespace PartitionStore.Partition

open FileTree

/-- The table file of the directory at `loc` decodes to the table. -/
def TableAt (t : FileTree) (loc : Location) (table : Table) : Prop :=
  ∃ data, t.node? (tableFileName :: loc) = some (.file data) ∧ Table.ofImage data = .ok table

/-- The places of a partition's two files in its directory at `loc`. -/
def IsFile (loc l : Location) : Prop := l = tableFileName :: loc ∨ l = scratchName :: loc

section

variable {t u : FileTree} {dir : Path} {loc : Location} {name : String} {part : Partition}
  {table : Table} {data : Bytes} {S : Location → Prop}

/-- A table stays where nothing changes. -/
theorem TableAt.within (h : TableAt t loc table) (within : Within S t u)
    (hout : ¬S (tableFileName :: loc)) : TableAt u loc table := by
  obtain ⟨data, hfile, himage⟩ := h
  exact ⟨data, within.eq_of_some hout hfile, himage⟩

theorem tableAt_image (hfile : t.node? (tableFileName :: loc) = some (.file table.image))
    (fits : ∀ entry ∈ table.entries.toList, Table.Fits entry) : TableAt t loc table :=
  ⟨_, hfile, Table.ofImage_eq_ok_iff.2 (Table.isImage_image fits)⟩

/-! ### Writing the table -/

/-- A table that is written fits and is in its file afterwards, and the scratch file is gone.
Where the writing fails the scratch file alone may have changed. -/
theorem write_table_cases (points : t.PointsTo dir loc) (free : t.LinkFree loc) (table : Table) :
    (∃ size u, Table.write table (tableFile dir) t = .ok size u ∧ TableAt u loc table ∧
        ∀ l, u.node? l = if l = tableFileName :: loc then some (.file table.image)
          else if l = scratchName :: loc then none else t.node? l) ∨
      ∃ e u, Table.write table (tableFile dir) t = .error e u ∧
        Within (· = scratchName :: loc) t u := by
  by_cases fits : ∀ entry ∈ table.entries.toList, Table.Fits entry
  · obtain ⟨w, haddAll, hfinish⟩ := Table.Writer.finish_eq_image fits
    have hwrite : Table.write table (tableFile dir) t = (do
        StoreAction.io (Files.replace (tableFile dir) (dir.join scratchName) table.image)
        pure table.image.length : StoreAction Nat) t := by
      rw [Table.write_eq, haddAll, scratchFile_tableFile]
      simp only [hfinish]
    rw [hwrite]
    have hname : Path.isPlainName tableFileName = true := by decide
    have hother : Path.isPlainName scratchName = true := by decide
    rcases replace_cases points free hname hother (by decide) table.image with
      ⟨u, hreplace, hnode⟩ | ⟨e, u, hreplace, links, same⟩
    · refine .inl ⟨_, u, Action.bind_of_ok (StoreAction.io_of_ok hreplace), ?_, hnode⟩
      exact tableAt_image (by rw [hnode, if_pos rfl]) fits
    · exact .inr ⟨_, u, Action.bind_of_error (StoreAction.io_of_error hreplace), links,
        fun l hl => .inl (same l hl)⟩
  · -- The writer gives up at an entry, and what it has goes to the scratch file.
    obtain ⟨fault, w, haddAll⟩ :=
      Table.Writer.addAll_of_not_fits (w := Table.Writer.create table.format) fits
    have hwrite : Table.write table (tableFile dir) t = (do
        StoreAction.io (Files.change (·.write (dir.join scratchName) w.written.toList))
        throw (.request fault) : StoreAction Nat) t := by
      rw [Table.write_eq, haddAll, scratchFile_tableFile]
    rw [hwrite]
    cases hscratch : t.write (dir.join scratchName) w.written.toList with
    | error e =>
        exact .inr ⟨_, t, Action.bind_of_error (StoreAction.io_of_error
          (Files.change_of_error hscratch)), .refl _ t⟩
    | ok u =>
        obtain ⟨named, takes, rfl⟩ := points.of_write (by decide) (free.entry scratchName) hscratch
        have beside := beside_place_file named.usable named.isDir takes w.written.toList
        exact .inr ⟨_, _, Action.bind_of_ok (StoreAction.io_of_ok (Files.change_of_ok hscratch)),
          beside.sameLinks, fun l hl => .inl (beside.same l hl)⟩

/-! ### Opening -/

/-- Once its directory was made the table in it is opened, or one is made. -/
theorem openTable_of_createDirAll (spec : PartitionSpec)
    (h : Files.createDirAll dir t = .ok () u) :
    openTable dir spec t = (if u.exists (tableFile dir) then do
        let table ← Table.read (tableFile dir)
        if table.format = spec.format then
          pure ⟨spec.id, spec.format, table.entries, .table dir false, false⟩
        else throw (.formatMismatch spec.id spec.format table.format)
      else do
        let _ ← Table.write ⟨spec.format, SortedMap.empty⟩ (tableFile dir)
        pure ⟨spec.id, spec.format, SortedMap.empty, .table dir false, false⟩ :
      StoreAction Partition) u := by
  rw [openTable, Action.bind_of_ok (StoreAction.io_of_ok h), Action.bind_of_ok (Action.get_apply u)]

/-- A partition that is opened holds what its table file has then. Nothing but its two files
changes, and new directories, be it opened or refused. -/
theorem openTable_cases (points : t.PointsTo dir loc) (free : t.LinkFree loc)
    (spec : PartitionSpec) :
    (∃ entries u, openTable dir spec t =
        .ok ⟨spec.id, spec.format, entries, .table dir false, false⟩ u ∧
      TableAt u loc ⟨spec.format, entries⟩ ∧ Within (IsFile loc) t u) ∨
      ∃ e u, openTable dir spec t = .error e u ∧ Within (IsFile loc) t u := by
  -- In the order of the opening: the directory, then the table that is there or one that is made.
  have hgrown := grown_createDirAll dir t
  cases hmake : Files.createDirAll dir t with
  | error e u =>
      rw [hmake] at hgrown
      exact .inr ⟨_, u, Action.bind_of_error (StoreAction.io_of_error hmake), .of_grown hgrown⟩
  | ok _ u =>
      rw [hmake] at hgrown
      replace hgrown : Grown t u := hgrown
      have points' := points.congr hgrown.sameLinks
      have free' := free.congr hgrown.sameLinks
      have hopen := openTable_of_createDirAll spec hmake
      by_cases hthere : u.exists (tableFile dir) = true
      · rw [hopen, if_pos hthere]
        cases hread : u.read (tableFile dir) with
        | error e =>
            have hfail : Table.read (tableFile dir) u = .error (.io e) u :=
              Action.bind_of_error (StoreAction.io_of_error (by simp only [Files.ask, hread]))
            exact .inr ⟨_, u, Action.bind_of_error hfail, .of_grown hgrown⟩
        | ok data =>
            have hfile := points'.of_read (by decide) (free'.entry tableFileName) hread
            have hdecode := Table.read_eq hread
            cases himage : Table.ofImage data with
            | error damage =>
                rw [himage] at hdecode
                exact .inr ⟨_, u, Action.bind_of_error hdecode, .of_grown hgrown⟩
            | ok table =>
                rw [himage] at hdecode
                rw [Action.bind_of_ok hdecode]
                by_cases hformat : table.format = spec.format
                · rw [if_pos hformat]
                  refine .inl ⟨table.entries, u, rfl, ⟨data, hfile, ?_⟩, .of_grown hgrown⟩
                  rw [himage, ← hformat]
                · rw [if_neg hformat]
                  exact .inr ⟨_, u, rfl, .of_grown hgrown⟩
      · rw [hopen, if_neg hthere]
        rcases write_table_cases points' free' ⟨spec.format, SortedMap.empty⟩ with
          ⟨size, v, hwrite, htable, hnode⟩ | ⟨e, v, hwrite, hwithin⟩
        · refine .inl ⟨_, v, Action.bind_of_ok hwrite, htable, ?_⟩
          exact (Within.of_grown hgrown).trans (within_of_replaced free' hnode)
        · refine .inr ⟨e, v, Action.bind_of_error hwrite, ?_⟩
          exact (Within.of_grown hgrown).trans (hwithin.mono fun l hl => .inr hl)

/-! ### Flushing -/

/-- A flush that succeeds leaves what the partition holds in its table file. If it fails the
partition was dirty. -/
theorem flush_cases (points : t.PointsTo dir loc) (free : t.LinkFree loc) {dirty : Bool}
    (hstorage : part.storage = .table dir dirty)
    (hclean : dirty = false → TableAt t loc part.table) :
    (∃ u, part.flush t = .ok { part with storage := .table dir false } u ∧
        TableAt u loc part.table ∧ Within (IsFile loc) t u) ∨
      ∃ e u, part.flush t = .error e u ∧ dirty = true ∧ Within (IsFile loc) t u := by
  cases dirty with
  | false =>
      have hsettled : { part with storage := .table dir false } = part := by
        rw [← hstorage]
      refine .inl ⟨t, ?_, hclean rfl, .refl _ t⟩
      rw [flush_eq, hstorage, hsettled]
      rfl
  | true =>
      rw [flush_eq, hstorage]
      rcases write_table_cases points free part.table with
        ⟨size, u, hwrite, htable, hnode⟩ | ⟨e, u, hwrite, hwithin⟩
      · exact .inl ⟨u, Action.bind_of_ok hwrite, htable, within_of_replaced free hnode⟩
      · exact .inr ⟨e, u, Action.bind_of_error hwrite, rfl, hwithin.mono fun l hl => .inr hl⟩

/-! ### Dropping -/

/-- A drop that succeeds leaves the same of a partition, whatever it finds in the tree. -/
theorem eq_dropped_of_drop {part' : Partition} (h : part.drop t = .ok part' u) :
    part' = part.dropped := by
  cases hstorage : part.storage with
  | memory =>
      cases (drop_of_memory hstorage t).symm.trans h
      rfl
  | table dir dirty =>
      rw [drop_eq hstorage] at h
      split at h
      · split at h
        · cases h
          rfl
        · cases h
      · cases h
        rfl

/-- Dropping a partition takes its directory with it, or changes nothing in the tree. -/
theorem drop_cases {dirty : Bool} (hstorage : part.storage = .table (dir.join name) dirty)
    (hname : Path.isPlainName name = true) (points : t.PointsTo dir loc)
    (free : t.LinkFree (name :: loc)) :
    (∃ u, part.drop t = .ok part.dropped u ∧ Within (name :: loc <:+ ·) t u) ∨
      ∃ e, part.drop t = .error e t := by
  have hlast : (dir.join name).steps.getLast? = some (.down name) := by
    rw [Path.steps_join hname]
    simp
  have hslash := Path.endsWithSlash_join dir hname
  rw [drop_eq hstorage]
  split
  · rcases removeDirAll_cases hlast hslash t with
      ⟨⟨e, hremove⟩, -⟩ | ⟨loc', node, u, hfind, -, hremove, gone⟩
    · exact .inr ⟨.io e, by rw [hremove]⟩
    · -- What is removed is the directory that the path points to.
      have hloc := points.loc_eq_of_find hname hfind
      subst hloc
      exact .inl ⟨u, by rw [hremove], .of_gone gone free⟩
  · exact .inl ⟨t, rfl, .refl _ t⟩

end

end PartitionStore.Partition
