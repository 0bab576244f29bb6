import PartitionStore.Proofs.FileTree.Existing
import PartitionStore.Proofs.Partition.Steps
import PartitionStore.Proofs.Table.RoundTrip

/-!
# `PartitionStore.Proofs.Partition`: a partition and its directory

`HasTable t loc table` says that the directory at `loc` holds the table in its
table file. `Backed` says the same of an open partition with the entries that it
flushed last, and that it is dirty unless these are the entries it holds.

* `openTable_of_hasTable`, `openTable_of_none`: opening finds the table that is
  there, or makes an empty one.
* `put_of_isOpen`, `delete_of_isOpen`: an open partition that changes is dirty.
* `Backed.flush_cases`: what is held may run ahead of what was flushed. A flush
  brings them together, or it fails and leaves them as they were.
* `Backed.drop_ok`: a partition that is dropped takes its directory with it.
-/

set_option autoImplicit false

namespace PartitionStore.Partition

open FileTree

/-- The name of the file beside the table file. -/
def scratchName : String := "data.tmp"

/-- What a partition would have for a table if it were flushed. -/
def table (part : Partition) : Table := ⟨part.format, part.entries⟩

/-- The table file in the directory at `loc` holds the table, and nothing is in the way of
writing it again. -/
structure HasTable (t : FileTree) (loc : Location) (table : Table) : Prop where
  file : t.node? (tableFileName :: loc) = some (.file table.image)
  fits : ∀ entry ∈ table.entries.toList, Table.Fits entry
  scratch : t.TakesFile (scratchName :: loc)

/-- The partition is open, its directory is the one of this name, and the table there has
the entries `flushed`. The partition is dirty unless it holds just these. -/
structure Backed (t : FileTree) (p : Path) (parent : Location) (name : String)
    (part : Partition) (flushed : SortedMap Bytes Bytes) : Prop where
  room : (p.join name).HasRoom 9
  isOpen : part.closed = false
  storage : ∃ dirty, part.storage = .table (p.join name) dirty ∧
    (dirty = false → part.entries = flushed)
  table : HasTable t (name :: parent) ⟨part.format, flushed⟩

section

variable {t u : FileTree} {p dir : Path} {parent loc : Location} {name : String}
  {part : Partition} {flushed : SortedMap Bytes Bytes} {table : Table}

/-- Where there is a table there is a directory around it. -/
theorem HasTable.isDir (h : HasTable t loc table) : t.node? loc = some .dir :=
  node?_parent_of_node? h.file

/-- What happens elsewhere does not change the table. -/
theorem HasTable.congr (h : HasTable t loc table)
    (file : u.node? (tableFileName :: loc) = t.node? (tableFileName :: loc))
    (scratch : u.node? (scratchName :: loc) = t.node? (scratchName :: loc)) :
    HasTable u loc table :=
  ⟨file ▸ h.file, h.fits, by rw [TakesFile, scratch]; exact h.scratch⟩

/-! ### The files in a partition's directory -/

/-- Nine bytes are enough for a slash and the name of either file. -/
theorem hasRoom_files (h : dir.HasRoom 9) :
    (dir.join tableFileName).HasRoom 0 ∧ (dir.join scratchName).HasRoom 0 :=
  ⟨(Path.hasRoom_join_iff h.nonempty h.noSlash (by decide)).2 ⟨h, by decide⟩,
    (Path.hasRoom_join_iff h.nonempty h.noSlash (by decide)).2 ⟨h, by decide⟩⟩

/-- Nor are less than nine. -/
theorem hasRoom_of_files {file : String} (hdir : dir.text ≠ "") (hslash : dir.endsWithSlash = false)
    (hfile : file = tableFileName ∨ file = scratchName) (h : checkText (dir.join file) = .ok ()) :
    dir.HasRoom 9 := by
  have hplain : Path.isPlainName file = true := by
    rcases hfile with rfl | rfl <;> decide
  have hsize : file.utf8ByteSize = 8 := by
    rcases hfile with rfl | rfl <;> rfl
  have hroom := Path.hasRoom_of_checkText h (Path.endsWithSlash_join _ hplain)
  have := ((Path.hasRoom_join_iff hdir hslash hplain).1 hroom).1
  rwa [hsize] at this

/-- The scratch file is beside the table file. -/
theorem scratchFile_tableFile (dir : Path) :
    Table.scratchFile (tableFile dir) = dir.join scratchName :=
  Path.withExtension_join dir (by decide) (by decide) (by decide) (by decide)

/-- In a directory that is led to, with room for nine bytes more, the table file is named by its
path. -/
theorem namesEntry_tableFile (lead : t.LeadsTo dir loc) (room : dir.HasRoom 9) :
    t.NamesEntry (tableFile dir) loc tableFileName :=
  lead.namesEntry (by decide) (hasRoom_files room).1

/-- The scratch file is, too: its name is as long. -/
theorem namesEntry_scratchFile (lead : t.LeadsTo dir loc) (room : dir.HasRoom 9) :
    t.NamesEntry (Table.scratchFile (tableFile dir)) loc scratchName := by
  rw [scratchFile_tableFile]
  exact lead.namesEntry (by decide) (hasRoom_files room).2

/-- A table that fits is written over whatever table there was. -/
theorem write_table_ok (table : Table) (lead : t.LeadsTo dir loc) (room : dir.HasRoom 9)
    (free : t.TakesFile (tableFileName :: loc)) (freeScratch : t.TakesFile (scratchName :: loc))
    (fits : ∀ entry ∈ table.entries.toList, Table.Fits entry) :
    ∃ t', Table.write table (tableFile dir) t = .ok table.image.length t' ∧
      HasTable t' loc table ∧ ∀ l, l ≠ tableFileName :: loc →
        t'.node? l = if l = scratchName :: loc then none else t.node? l := by
  obtain ⟨t', hwrite, hnode⟩ := Table.write_of_fits (namesEntry_tableFile lead room)
    (namesEntry_scratchFile lead room) (by decide) free freeScratch fits
  have hne : ¬scratchName :: loc = tableFileName :: loc := fun e =>
    absurd (List.cons.inj e).1 (by decide)
  refine ⟨t', hwrite, ⟨by rw [hnode, if_pos rfl], fits, takesFile_of_none ?_⟩, ?_⟩
  · rw [hnode, if_neg hne, if_pos rfl]
  · intro l hl
    rw [hnode, if_neg hl]

/-- A table that does not fit leaves the one that was there. -/
theorem write_table_of_not_fits (table : Table) (lead : t.LeadsTo dir loc) (room : dir.HasRoom 9)
    (freeScratch : t.TakesFile (scratchName :: loc))
    (h : ¬∀ entry ∈ table.entries.toList, Table.Fits entry) :
    ∃ failure t', Table.write table (tableFile dir) t = .error failure t' ∧
      t'.TakesFile (scratchName :: loc) ∧ ∀ l, l ≠ scratchName :: loc → t'.node? l = t.node? l := by
  have hscratch := namesEntry_scratchFile lead room
  obtain ⟨fault, data, hwrite⟩ := Table.write_of_not_fits hscratch freeScratch h
  refine ⟨_, _, hwrite, .inr ⟨data, ?_⟩, fun l hl => node?_place_of_ne _ _ _ _ hl⟩
  exact node?_place_self hscratch.usable hscratch.isDir freeScratch.ne_dir

/-! ### Opening -/

/-- What opening makes of a table file that is there hangs on its bytes, and nothing changes. -/
theorem openTable_of_read (spec : PartitionSpec) {bytes : Bytes}
    (h : t.read (tableFile dir) = .ok bytes) :
    openTable dir spec t = match Table.ofImage bytes with
      | .error damage => .error (.corruption (tableFile dir) damage) t
      | .ok table =>
        if table.format = spec.format then
          .ok ⟨spec.id, spec.format, table.entries, .table dir false, false⟩ t
        else .error (.formatMismatch spec.id spec.format table.format) t := by
  have hmake := createDirAll_of_read (by decide) h
  have hthere : t.exists (tableFile dir) = true := exists_of_read h
  have hread := Table.read_eq h
  rw [openTable, Action.bind_of_ok (StoreAction.io_of_ok hmake),
    Action.bind_of_ok (Action.get_apply t), if_pos hthere]
  cases himage : Table.ofImage bytes with
  | error damage =>
      rw [himage] at hread
      exact Action.bind_of_error hread
  | ok table =>
      rw [himage] at hread
      rw [Action.bind_of_ok hread]
      by_cases hformat : table.format = spec.format
      · simp only [if_pos hformat]
        rfl
      · simp only [if_neg hformat]
        rfl

/-- Opening finds the table that is there, refuses it if it has another format, and changes
nothing. -/
theorem openTable_of_hasTable (spec : PartitionSpec) (lead : t.LeadsTo p parent)
    (room : (p.join name).HasRoom 9) (h : HasTable t (name :: parent) table) :
    openTable (p.join name) spec t = if table.format = spec.format then
        .ok ⟨spec.id, spec.format, table.entries, .table (p.join name) false, false⟩ t
      else .error (.formatMismatch spec.id spec.format table.format) t := by
  have hdir := lead.join h.isDir (room.mono (by omega))
  have hfile := namesEntry_tableFile hdir room
  rw [openTable_of_read spec (hfile.read h.file),
    Table.ofImage_eq_ok_iff.2 (Table.isImage_image h.fits)]

/-- Where there is no directory one is made, with an empty table. -/
theorem openTable_of_none (spec : PartitionSpec) (lead : t.LeadsTo p parent)
    (room : (p.join name).HasRoom 9) (hname : isEntryName name = true)
    (hnone : t.node? (name :: parent) = none) :
    ∃ t', openTable (p.join name) spec t =
        .ok ⟨spec.id, spec.format, SortedMap.empty, .table (p.join name) false, false⟩ t' ∧
      HasTable t' (name :: parent) ⟨spec.format, SortedMap.empty⟩ ∧
      ∀ l, l ≠ name :: parent → l ≠ tableFileName :: name :: parent → t'.node? l = t.node? l := by
  have hentry := lead.namesEntry hname (room.mono (by omega))
  obtain ⟨u, hu⟩ : ∃ u, t.place parent name .dir = u := ⟨_, rfl⟩
  have hdir : u.node? (name :: parent) = some .dir :=
    hu ▸ node?_place_self hname lead.isDir_node (by simp [hnone])
  have helse : ∀ l, l ≠ name :: parent → u.node? l = t.node? l := fun l hl =>
    hu ▸ node?_place_of_ne t parent name _ hl
  have below : ∀ file, t.node? (file :: name :: parent) = none := by
    intro file
    show t.node? ([file] ++ name :: parent) = none
    exact node?_below (by simp [hnone]) (by simp)
  -- The new directory is in the parent, so the way there is what it was, and it is empty.
  have lead' : u.LeadsTo p parent := lead.congr fun l hl =>
    helse l fun e => hl (e ▸ Location.inside_cons name parent)
  have hempty : ∀ file, u.node? (file :: name :: parent) = none := by
    intro file
    rw [helse _ fun e => List.cons_ne_self _ _ e]
    exact below file
  have hinner := lead'.join hdir (room.mono (by omega))
  obtain ⟨t', hwrite, htable, hsame⟩ := write_table_ok ⟨spec.format, SortedMap.empty⟩ hinner room
    (takesFile_of_none (hempty _)) (takesFile_of_none (hempty _))
    (by simp [SortedMap.empty])
  have hfree : u.exists (tableFile (p.join name)) = false :=
    (namesEntry_tableFile hinner room).exists_of_none (hempty _)
  refine ⟨t', ?_, htable, ?_⟩
  · rw [openTable, Action.bind_of_ok (StoreAction.io_of_ok (createDirAll_ok hentry hnone)), hu,
      Action.bind_of_ok (Action.get_apply u), if_neg (by simp [hfree]), Action.bind_of_ok hwrite]
    rfl
  · intro l h₁ h₂
    rw [hsame l h₂]
    split
    · -- Where the scratch file was there is nothing, as there was nothing before.
      rename_i hl
      rw [hl, below]
    · exact helse l h₁

/-- A partition that was opened has room for its files. -/
theorem hasRoom_of_openTable {spec : PartitionSpec} (hdir : dir.text ≠ "")
    (hslash : dir.endsWithSlash = false) (h : openTable dir spec t = .ok part u) :
    dir.HasRoom 9 := by
  obtain ⟨_, t₁, -, h⟩ := Action.bind_eq_ok_iff.1 h
  rw [Action.bind_of_ok (Action.get_apply t₁)] at h
  -- Either a table file was found, or one was written by way of its scratch file.
  by_cases hthere : t₁.exists (tableFile dir) = true
  · exact hasRoom_of_files hdir hslash (.inl rfl) (checkText_of_exists hthere)
  · rw [if_neg hthere] at h
    obtain ⟨_, t₂, hwrite, -⟩ := Action.bind_eq_ok_iff.1 h
    refine hasRoom_of_files hdir hslash (.inr rfl) ?_
    rw [← scratchFile_tableFile]
    cases htext : checkText (Table.scratchFile (tableFile dir)) with
    | ok _ => rfl
    | error e =>
        cases hwrite.symm.trans (Table.write_of_checkText htext _)

/-- Without room for its files a new partition is not opened, and leaves its directory behind. -/
theorem openTable_of_long (spec : PartitionSpec) (lead : t.LeadsTo p parent)
    (room : (p.join name).HasRoom 0) (hlong : ¬(p.join name).HasRoom 9)
    (hname : isEntryName name = true) (hnone : t.node? (name :: parent) = none) :
    ∃ failure, openTable (p.join name) spec t = .error failure (t.place parent name .dir) := by
  have hmake := createDirAll_ok (lead.namesEntry hname room) hnone
  have htooLong {file : String} (hfile : file = tableFileName ∨ file = scratchName) :
      checkText ((p.join name).join file) ≠ .ok () :=
    fun h => hlong (hasRoom_of_files room.nonempty room.noSlash hfile h)
  have hfree : (t.place parent name .dir).exists (tableFile (p.join name)) = false := by
    refine Bool.eq_false_iff.2 ?_
    intro hthere
    exact htooLong (.inl rfl) (checkText_of_exists hthere)
  cases htext : checkText ((p.join name).join scratchName) with
  | ok _ => exact absurd htext (htooLong (.inr rfl))
  | error e =>
      rw [← scratchFile_tableFile] at htext
      refine ⟨.io e, ?_⟩
      rw [openTable, Action.bind_of_ok (StoreAction.io_of_ok hmake),
        Action.bind_of_ok (Action.get_apply _), if_neg (by simp [hfree])]
      exact Action.bind_of_error (Table.write_of_checkText htext _)

/-- A path that is too long for the directory itself leaves the tree as it is. -/
theorem openTable_of_checkText (spec : PartitionSpec) {e : IoError} (hdir : dir.text ≠ "")
    (h : checkText dir = .error e) : openTable dir spec t = .error (.io e) t := by
  have hmake := createDirAll_of_checkText hdir h t
  rw [openTable, Action.bind_of_error (StoreAction.io_of_error hmake)]

/-- A name that no directory can have leaves the tree as it is. -/
theorem openTable_of_unusable (spec : PartitionSpec) (lead : t.LeadsTo p parent)
    (room : (p.join name).HasRoom 9) (hplain : Path.isPlainName name = true)
    (hname : isEntryName name = false) :
    openTable (p.join name) spec t = .error (.io .nameTooLong) t := by
  have hroom : (p.join name).HasRoom 0 := room.mono (by omega)
  have hmake := createDirAll_of_unusable lead.resolveSteps hplain hname
    (Path.checkText_of_hasRoom hroom)
  rw [openTable, Action.bind_of_error (StoreAction.io_of_error hmake)]

/-! ### Reading and writing -/

/-- An open partition refuses nothing. -/
theorem requireOpen_of_isOpen (h : part.closed = false) : part.requireOpen = .ok () := by
  simp [requireOpen, h]

/-- A put into an open partition changes its entries and makes it dirty. -/
theorem put_of_isOpen (h : part.closed = false) (key value : Bytes) :
    part.put key value = .ok
      { part with entries := part.entries.insert key value, storage := part.storage.touched } := by
  rw [put, requireOpen_of_isOpen h]
  rfl

/-- A get from an open partition looks the key up in its entries. -/
theorem get_of_isOpen (h : part.closed = false) (key : Bytes) :
    part.get key = .ok (part.entries.get? key) := by
  rw [get, requireOpen_of_isOpen h]
  rfl

/-- A delete makes the partition dirty if there was anything to delete. -/
theorem delete_of_isOpen (h : part.closed = false) (key : Bytes) :
    part.delete key = .ok (if part.entries.contains key then
      { part with entries := part.entries.erase key, storage := part.storage.touched }
      else part) := by
  rw [delete, requireOpen_of_isOpen h]
  show (if part.entries.contains key = true then Except.ok _ else Except.ok part) = _
  split <;> rfl

/-- A closed partition refuses what only an open one does. -/
theorem requireOpen_of_closed (h : part.closed = true) :
    part.requireOpen = .error (.partitionClosed part.id) := if_pos h

/-- It refuses a put. -/
theorem put_of_closed (h : part.closed = true) (key value : Bytes) :
    part.put key value = .error (.partitionClosed part.id) := by
  rw [put, requireOpen_of_closed h]
  rfl

/-- It refuses a get. -/
theorem get_of_closed (h : part.closed = true) (key : Bytes) :
    part.get key = .error (.partitionClosed part.id) := by
  rw [get, requireOpen_of_closed h]
  rfl

/-- It refuses a delete. -/
theorem delete_of_closed (h : part.closed = true) (key : Bytes) :
    part.delete key = .error (.partitionClosed part.id) := by
  rw [delete, requireOpen_of_closed h]
  rfl

/-! ### Flushing -/

/-- A flush brings what was flushed up to what is held; or it fails, because what is held does not
fit, and what was flushed stays. Nothing else in the tree changes. -/
theorem Backed.flush_cases (h : Backed t p parent name part flushed) (lead : t.LeadsTo p parent) :
    ∃ t', (∀ l, l ≠ tableFileName :: name :: parent → l ≠ scratchName :: name :: parent →
        t'.node? l = t.node? l) ∧
      ((part.flush t = .ok { part with storage := part.storage.settled } t' ∧
          Backed t' p parent name { part with storage := part.storage.settled } part.entries) ∨
        ∃ failure, part.flush t = .error failure t' ∧
          Backed t' p parent name part flushed ∧
          ¬∀ entry ∈ part.entries.toList, Table.Fits entry) := by
  obtain ⟨dirty, hstorage, hclean⟩ := h.storage
  have hdir := lead.join h.table.isDir (h.room.mono (by omega))
  cases dirty with
  | false =>
      -- There is nothing to flush.
      refine ⟨t, fun _ _ _ => rfl, .inl ⟨?_, h.room, h.isOpen, ⟨false, ?_, fun _ => rfl⟩, ?_⟩⟩
      · have hsettled : part.storage.settled = part.storage := by
          rw [hstorage]
          rfl
        have hflush : part.flush = pure part := by
          rw [flush_eq, hstorage]
        rw [hsettled, hflush]
        rfl
      · simp [hstorage, Storage.settled]
      · rw [hclean rfl]
        exact h.table
  | true =>
      by_cases fits : ∀ entry ∈ part.entries.toList, Table.Fits entry
      · -- The new table is on disk, and nothing is left of the scratch file.
        obtain ⟨t', hwrite, htable, hsame⟩ := write_table_ok ⟨part.format, part.entries⟩ hdir
          h.room (.inr ⟨_, h.table.file⟩) h.table.scratch fits
        refine ⟨t', fun l h₁ h₂ => by rw [hsame l h₁, if_neg h₂], .inl ⟨?_, h.room, h.isOpen,
          ⟨false, by simp [hstorage, Storage.settled], fun _ => rfl⟩, htable⟩⟩
        rw [flush_eq, hstorage]
        simp only
        rw [Action.bind_of_ok hwrite]
        rfl
      · -- The writer gives up at the first entry that does not fit, before the move.
        obtain ⟨failure, t', hwrite, hscratch, hsame⟩ :=
          write_table_of_not_fits ⟨part.format, part.entries⟩ hdir h.room h.table.scratch fits
        refine ⟨t', fun l _ h₂ => hsame l h₂, .inr ⟨failure, ?_, ⟨h.room, h.isOpen,
          ⟨true, hstorage, by simp⟩, ?_, h.table.fits, hscratch⟩, fits⟩⟩
        · rw [flush_eq, hstorage]
          simp only
          rw [Action.bind_of_error hwrite]
        · rw [hsame _ fun e => absurd (List.cons.inj e).1 (by decide), h.table.file]

/-- Closing is flushing, and then the partition is closed. -/
theorem close_of_isOpen (h : part.closed = false) :
    part.close t = match part.flush t with
      | .ok part' t' => .ok { part' with closed := true } t'
      | .error failure t' => .error failure t' := by
  rw [close_eq, if_neg (by simp [h])]
  cases hflush : part.flush t with
  | ok part' t' => rw [Action.bind_of_ok hflush]; rfl
  | error failure t' => rw [Action.bind_of_error hflush]

/-! ### Dropping -/

/-- A partition that is dropped takes its directory with it. -/
theorem Backed.drop_ok (h : Backed t p parent name part flushed) (lead : t.LeadsTo p parent) :
    ∃ part' t', part.drop t = .ok part' t' ∧
      ∀ l, t'.node? l = if name :: parent <:+ l then none else t.node? l := by
  obtain ⟨dirty, hstorage, -⟩ := h.storage
  have hroom : (p.join name).HasRoom 0 := h.room.mono (by omega)
  have hthere : t.exists (p.join name) = true := (lead.join h.table.isDir hroom).exists
  have hremove := removeDirAll_ok lead h.table.isDir hroom
  refine ⟨part.dropped, _, ?_, node?_prune_clear t name parent⟩
  rw [drop_eq hstorage, if_pos hthere, hremove]

end

end PartitionStore.Partition
