import PartitionStore.Engine.Open
import PartitionStore.Proofs.Host
import PartitionStore.Proofs.Tables

/-!
# `PartitionStore.Proofs.Engine.Disk`: what an engine keeps on disk

`Disk c d loc t ids flushed` describes the folder of a store, at `loc`, between
any two steps of an engine: a directory for each of the partitions `ids` and
nothing else, in each of them a table with the entries `flushed` of that
partition, and the engine record or none.

* `Disk.tables`, `Disk.recorded`, `Disk.of_tables`: it is what is to be said of the
  tables, and of the record.
* `Disk.addTable`, `Disk.setRecord`: what becomes of it when a partition is made,
  and when the record is written.
* `Disk.keepRecord_ok`: an engine that answers for the store leaves the record
  of its settings behind, be there one already or not.
-/

set_option autoImplicit false

namespace PartitionStore

open FileTree Naming PartitionStore.Partition StoreFolder

/-- The folder at `loc` has a directory and a table for each of the partitions `ids`, with
the entries `flushed`, and the record of the settings or none. -/
structure Disk (c : EngineSettings) (d : StoreFolder) (loc : Location) (t : FileTree)
    (ids : Int32 → Prop) (flushed : Int32 → SortedMap Bytes Bytes) : Prop where
  lead : t.LeadsTo d.path loc
  usable : isEntryName (dirName d.store metadataId) = true
  recordRoom : (d.partitionPath metadataId).HasRoom 17
  room : ∀ id, ids id → (d.partitionPath id).HasRoom 9
  table : ∀ id, ids id → HasTable t (dirName d.store id :: loc) ⟨c.format, flushed id⟩
  only : ∀ name, t.node? (name :: loc) ≠ none → ∃ id, ids id ∧ name = dirName d.store id
  record : t.node? (recordFileName :: dirName d.store metadataId :: loc) = none ∨
    t.node? (recordFileName :: dirName d.store metadataId :: loc) = some (.file c.record.bytes)
  recordScratch : t.TakesFile (recordScratchName :: dirName d.store metadataId :: loc)

/-- In the directory of the metadata partition there is the record of the settings or none. -/
structure Recorded (c : EngineSettings) (d : StoreFolder) (loc : Location) (t : FileTree) :
    Prop where
  usable : isEntryName (dirName d.store metadataId) = true
  recordRoom : (d.partitionPath metadataId).HasRoom 17
  record : t.node? (recordFileName :: dirName d.store metadataId :: loc) = none ∨
    t.node? (recordFileName :: dirName d.store metadataId :: loc) = some (.file c.record.bytes)
  recordScratch : t.TakesFile (recordScratchName :: dirName d.store metadataId :: loc)

/-- The record goes with its directory if the metadata partition is dropped, and is left alone by
all other changes. -/
theorem Recorded.congr {c : EngineSettings} {d : StoreFolder} {loc : Location} {t t' : FileTree}
    (h : Recorded c d loc t) (confined : Confined loc t t') : Recorded c d loc t' := by
  refine ⟨h.usable, h.recordRoom, ?_, ?_⟩
  · rcases confined.others recordFileName (dirName d.store metadataId) (by decide) (by decide) with
      e | e
    · rw [e]
      exact h.record
    · exact .inl e
  · rcases confined.others recordScratchName (dirName d.store metadataId) (by decide) (by decide)
      with e | e
    · rw [TakesFile, e]
      exact h.recordScratch
    · exact .inl e

namespace Disk

variable {c : EngineSettings} {d : StoreFolder} {loc : Location} {t t' : FileTree}
  {ids : Int32 → Prop} {flushed : Int32 → SortedMap Bytes Bytes} {id : Int32}

/-- What is kept on disk are tables, in the format of the settings. -/
theorem tables (h : Disk c d loc t ids flushed) :
    Tables d loc t ids fun i => ⟨c.format, flushed i⟩ := ⟨h.lead, h.room, h.table, h.only⟩

/-- What is kept on disk is also the record, or none. -/
theorem recorded (h : Disk c d loc t ids flushed) : Recorded c d loc t :=
  ⟨h.usable, h.recordRoom, h.record, h.recordScratch⟩

/-- What there is to be known of the folder: its tables, all of one format, and the record. -/
theorem of_tables {table : Int32 → Table} (tables : Tables d loc t ids table)
    (same : ∀ i, ids i → table i = ⟨c.format, flushed i⟩) (recorded : Recorded c d loc t) :
    Disk c d loc t ids flushed :=
  ⟨tables.lead, recorded.usable, recorded.recordRoom, tables.room,
    fun i hi => same i hi ▸ tables.table i hi, tables.only, recorded.record,
    recorded.recordScratch⟩

/-- Exactly the partitions have directories. -/
theorem isDir_iff (h : Disk c d loc t ids flushed) (id : Int32) :
    t.node? (dirName d.store id :: loc) = some .dir ↔ ids id := h.tables.isDir_iff id

/-- Where there is no partition there is nothing by its name. -/
theorem node?_of_not (h : Disk c d loc t ids flushed) (hid : ¬ids id) :
    t.node? (dirName d.store id :: loc) = none := h.tables.node?_of_not hid

/-- By the name of the metadata partition there is its directory, or nothing. -/
theorem metadataDir (h : Disk c d loc t ids flushed) :
    t.node? (dirName d.store metadataId :: loc) = none ∨
      t.node? (dirName d.store metadataId :: loc) = some .dir := h.tables.dir_cases metadataId

/-! ### Changes of one partition -/

/-- To put new entries on disk for one partition is to put a new table there. -/
theorem update_table (c : EngineSettings) (flushed : Int32 → SortedMap Bytes Bytes) (id : Int32)
    (entries : SortedMap Bytes Bytes) (i : Int32) :
    Function.update (fun i => (⟨c.format, flushed i⟩ : Table)) id ⟨c.format, entries⟩ i =
      ⟨c.format, Function.update flushed id entries i⟩ := by
  by_cases hi : i = id
  · subst hi
    rw [Function.update_self, Function.update_self]
  · rw [Function.update_of_ne hi, Function.update_of_ne hi]

/-- A partition is made. -/
theorem addTable (h : Disk c d loc t ids flushed) (hid : ¬ids id)
    (room : (d.partitionPath id).HasRoom 9) {entries : SortedMap Bytes Bytes}
    (table : HasTable t' (dirName d.store id :: loc) ⟨c.format, entries⟩)
    (same : ∀ l, l ≠ dirName d.store id :: loc →
      l ≠ tableFileName :: dirName d.store id :: loc → t'.node? l = t.node? l) :
    Disk c d loc t' (fun i => i = id ∨ ids i) (Function.update flushed id entries) :=
  of_tables (h.tables.addTable hid room table same)
    (fun i _ => update_table c flushed id entries i) (h.recorded.congr (Confined.of_made same))

/-! ### The engine record -/

section TwoFiles

variable {a b dir : String} (same : ∀ l, l ≠ a :: dir :: loc → l ≠ b :: dir :: loc →
  t'.node? l = t.node? l)
include same

/-- Two files that change in a directory of the folder change no entry of the folder itself. -/
theorem node?_near (name : String) : t'.node? (name :: loc) = t.node? (name :: loc) := by
  refine same _ ?_ ?_
  · intro e
    simpa using congrArg List.length e
  · intro e
    simpa using congrArg List.length e

/-- Nor do they change a file of another name, in any directory of the folder. -/
theorem node?_other (name : String) {file : String} (ha : file ≠ a) (hb : file ≠ b) :
    t'.node? (file :: name :: loc) = t.node? (file :: name :: loc) := by
  refine same _ ?_ ?_
  · intro e
    exact ha (List.cons.inj e).1
  · intro e
    exact hb (List.cons.inj e).1

end TwoFiles

/-- The record is written. -/
theorem setRecord (h : Disk c d loc t ids flushed)
    (file : t'.node? (recordFileName :: dirName d.store metadataId :: loc) =
      some (.file c.record.bytes))
    (scratch : t'.node? (recordScratchName :: dirName d.store metadataId :: loc) = none)
    (same : ∀ l, l ≠ recordFileName :: dirName d.store metadataId :: loc →
      l ≠ recordScratchName :: dirName d.store metadataId :: loc → t'.node? l = t.node? l) :
    Disk c d loc t' ids flushed := by
  have lead' := h.lead.congr_of_ne (Location.inside_cons_cons ..) (Location.inside_cons_cons ..)
    same
  refine ⟨lead', h.usable, h.recordRoom, h.room, ?_,
    fun name hname => h.only name (node?_near same name ▸ hname), .inr file,
    takesFile_of_none scratch⟩
  intro j hj
  exact (h.table j hj).congr (node?_other same _ (by decide) (by decide))
    (node?_other same _ (by decide) (by decide))

/-- An engine that answers for the store leaves its record there. -/
theorem keepRecord_ok (h : Disk c d loc t ids flushed) (hid : ids metadataId)
    (hset : c.withMetadata = true) :
    ∃ t', Engine.keepRecord d c t = .ok () t' ∧ Disk c d loc t' ids flushed ∧
      t'.node? (recordFileName :: dirName d.store metadataId :: loc) =
        some (.file c.record.bytes) := by
  have hdir := (h.isDir_iff metadataId).2 hid
  obtain ⟨wrote, t', hrecord, hdisk, hfile⟩ : ∃ wrote t',
      d.recordOnce c.record t = .ok wrote t' ∧ Disk c d loc t' ids flushed ∧
        t'.node? (recordFileName :: dirName d.store metadataId :: loc) =
          some (.file c.record.bytes) := by
    rcases h.record with hnone | hfile
    · -- There is none yet, so it is written now.
      obtain ⟨t', hwrite, hnode⟩ := recordOnce_ok c.record h.lead h.recordRoom h.usable
        h.metadataDir hnone h.recordScratch
      have hne : ¬recordScratchName :: dirName d.store metadataId :: loc =
          recordFileName :: dirName d.store metadataId :: loc := fun e =>
        absurd (List.cons.inj e).1 (by decide)
      have hfile' : t'.node? (recordFileName :: dirName d.store metadataId :: loc) =
          some (.file c.record.bytes) := by rw [hnode, if_pos rfl]
      refine ⟨true, t', hwrite, h.setRecord hfile' ?_ ?_, hfile'⟩
      · rw [hnode, if_neg hne, if_pos rfl]
      · intro l h₁ h₂
        rw [hnode, if_neg h₁, if_neg h₂]
        split
        · rename_i hl
          rw [hl, hdir]
        · rfl
    · -- The one that is there has the settings already, and stays.
      have hthere := (readRecord_of_file h.lead (h.recordRoom.mono (by omega)) hfile).1
      exact ⟨false, t, recordOnce_of_exists hthere _, h, hfile⟩
  have hduring : StoreAction.during .keepRecord (d.recordOnce c.record) t = .ok wrote t' := by
    simp only [StoreAction.during, hrecord]
  refine ⟨t', ?_, hdisk, hfile⟩
  rw [Engine.keepRecord, if_pos hset, Action.bind_of_ok hduring]
  rfl

end Disk

end PartitionStore
