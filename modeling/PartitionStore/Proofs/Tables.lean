import Mathlib.Logic.Function.Basic
import PartitionStore.Backend
import PartitionStore.Proofs.Host
import PartitionStore.Proofs.Partition
import PartitionStore.Proofs.StoreFolder

/-!
# `PartitionStore.Proofs.Tables`: the tables in a store's folder

`Tables d loc t ids table` says what the folder of a store, at `loc`, holds of
its partitions: a directory for each of `ids` and nothing else, and in the
directory of an id the table `table id`. No two of them need to have the same
format.

* `Tables.setTable`, `Tables.addTable`, `Tables.dropTable`: what becomes of that
  when one partition is flushed, made or dropped.
* `Tables.attach_eq`: what opening makes of a partition that is there.
* `Confined`: none of these changes reaches beyond the folder, or spoils another
  file in it.
-/

set_option autoImplicit false

namespace PartitionStore

open FileTree Naming PartitionStore.Partition StoreFolder

/-- The folder at `loc` has a directory and a table for each of the partitions `ids`, and
nothing else. -/
structure Tables (d : StoreFolder) (loc : Location) (t : FileTree) (ids : Int32 → Prop)
    (table : Int32 → Table) : Prop where
  lead : t.LeadsTo d.path loc
  room : ∀ id, ids id → (d.partitionPath id).HasRoom 9
  table : ∀ id, ids id → HasTable t (dirName d.store id :: loc) (table id)
  only : ∀ name, t.node? (name :: loc) ≠ none → ∃ id, ids id ∧ name = dirName d.store id

/-- From `t` to `t'` nothing changed outside the folder at `loc`, and of the files in its
directories none but tables and their scratch files, except that some may be gone. -/
structure Confined (loc : Location) (t t' : FileTree) : Prop where
  outside : ∀ l, ¬Location.Inside loc l → t'.node? l = t.node? l
  others : ∀ file name, file ≠ tableFileName → file ≠ scratchName →
    t'.node? (file :: name :: loc) = t.node? (file :: name :: loc) ∨
      t'.node? (file :: name :: loc) = none

variable {d : StoreFolder} {loc : Location} {t t' : FileTree} {ids ids' : Int32 → Prop}
  {table table' : Int32 → Table} {id : Int32} {new : Table}

/-! ### Changes in the folder -/

namespace Confined

/-- A table file is written by way of its scratch file. -/
theorem of_files {dir : String} (same : ∀ l, l ≠ tableFileName :: dir :: loc →
      l ≠ scratchName :: dir :: loc → t'.node? l = t.node? l) : Confined loc t t' := by
  refine ⟨fun l hl => same l ?_ ?_, fun file name h₁ h₂ => .inl (same _ ?_ ?_)⟩
  · rintro rfl
    exact hl (Location.inside_cons_cons ..)
  · rintro rfl
    exact hl (Location.inside_cons_cons ..)
  · exact fun e => h₁ (List.cons.inj e).1
  · exact fun e => h₂ (List.cons.inj e).1

/-- A directory is made, with a table file in it. -/
theorem of_made {dir : String} (same : ∀ l, l ≠ dir :: loc →
      l ≠ tableFileName :: dir :: loc → t'.node? l = t.node? l) : Confined loc t t' := by
  refine ⟨fun l hl => same l ?_ ?_, fun file name h₁ _ => .inl (same _ ?_ ?_)⟩
  · rintro rfl
    exact hl (Location.inside_cons ..)
  · rintro rfl
    exact hl (Location.inside_cons_cons ..)
  · intro e
    simpa using congrArg List.length e
  · exact fun e => h₁ (List.cons.inj e).1

/-- A directory is removed with everything in it. -/
theorem of_gone {dir : String}
    (gone : ∀ l, t'.node? l = if dir :: loc <:+ l then none else t.node? l) :
    Confined loc t t' := by
  refine ⟨fun l hl => ?_, fun file name _ _ => ?_⟩
  · rw [gone, if_neg]
    intro hs
    refine hl ⟨(List.suffix_cons ..).trans hs, ?_⟩
    rintro rfl
    exact not_cons_suffix _ _ hs
  · rw [gone]
    split
    · exact .inr rfl
    · exact .inl rfl

end Confined

namespace Tables

theorem isDir_iff (h : Tables d loc t ids table) (id : Int32) :
    t.node? (dirName d.store id :: loc) = some .dir ↔ ids id := by
  constructor
  · intro hdir
    obtain ⟨j, hj, hname⟩ := h.only (dirName d.store id) (by simp [hdir])
    exact dirName_injective hname ▸ hj
  · intro hid
    exact (h.table id hid).isDir

/-- All names in the folder are those of partitions, and no other name is read as one of them. -/
theorem lists_iff (h : Tables d loc t ids table) (id : Int32) : d.Lists t loc id ↔ ids id := by
  refine ⟨?_, fun hid => lists_of_dir ((h.isDir_iff id).2 hid)⟩
  rintro ⟨name, hread, hdir⟩
  obtain ⟨j, hj, rfl⟩ := h.only name (by simp [hdir])
  rw [FileName.reading_of_text (d.mark_not_mem_dirName j)] at hread
  exact dirName_injective hread ▸ hj

theorem node?_of_not (h : Tables d loc t ids table) (hid : ¬ids id) :
    t.node? (dirName d.store id :: loc) = none := by
  by_contra hsome
  obtain ⟨j, hj, hname⟩ := h.only _ hsome
  exact hid (dirName_injective hname ▸ hj)

theorem dir_cases (h : Tables d loc t ids table) (id : Int32) :
    t.node? (dirName d.store id :: loc) = none ∨
      t.node? (dirName d.store id :: loc) = some .dir := by
  by_cases hid : ids id
  · exact .inr ((h.isDir_iff id).2 hid)
  · exact .inl (h.node?_of_not hid)

/-- The partitions that are there, and the tables of those that are not, can be said in another
way. -/
theorem congr (h : Tables d loc t ids table) (hids : ∀ i, ids' i ↔ ids i)
    (same : ∀ i, ids i → table' i = table i) : Tables d loc t ids' table' := by
  refine ⟨h.lead, fun i hi => h.room i ((hids i).1 hi), fun i hi => ?_, fun name hname => ?_⟩
  · have hi := (hids i).1 hi
    exact same i hi ▸ h.table i hi
  · obtain ⟨i, hi, e⟩ := h.only name hname
    exact ⟨i, (hids i).2 hi, e⟩

/-- Exactly the partitions that are there are found. -/
theorem idsOnDisk_ok (h : Tables d loc t ids table) :
    ∃ found, d.idsOnDisk t = .ok found t ∧ found.Pairwise (fun a b => compare a b = .lt) ∧
      ∀ id, id ∈ found ↔ ids id := by
  obtain ⟨found, hfound, hascending, hmem⟩ := StoreFolder.idsOnDisk_ok h.lead
  exact ⟨found, hfound, hascending, fun id => (hmem id).trans (h.lists_iff id)⟩

/-- A partition's table is replaced. -/
theorem setTable (h : Tables d loc t ids table)
    (written : HasTable t' (dirName d.store id :: loc) new)
    (same : ∀ l, l ≠ tableFileName :: dirName d.store id :: loc →
      l ≠ scratchName :: dirName d.store id :: loc → t'.node? l = t.node? l) :
    Tables d loc t' ids (Function.update table id new) := by
  refine ⟨h.lead.congr (Confined.of_files same).outside, h.room, ?_, ?_⟩
  · intro j hj
    by_cases hji : j = id
    · rw [hji, Function.update_self]
      exact written
    · -- Another id has another directory, and neither file lies in it.
      rw [Function.update_of_ne hji]
      have hne (file file' : String) : file :: dirName d.store j :: loc ≠
          file' :: dirName d.store id :: loc := by
        intro e
        obtain ⟨-, e⟩ := List.cons.inj e
        exact hji (dirName_injective (List.cons.inj e).1)
      have elsewhere (file : String) : t'.node? (file :: dirName d.store j :: loc) =
          t.node? (file :: dirName d.store j :: loc) := same _ (hne _ _) (hne _ _)
      exact (h.table j hj).congr (elsewhere _) (elsewhere _)
  · -- The entries of the folder itself are what they were.
    intro name hname
    have hne (file : String) : name :: loc ≠ file :: dirName d.store id :: loc := by
      intro e
      simpa using congrArg List.length e
    rw [same _ (hne _) (hne _)] at hname
    exact h.only name hname

/-- A partition is made. -/
theorem addTable (h : Tables d loc t ids table) (hid : ¬ids id)
    (room : (d.partitionPath id).HasRoom 9)
    (written : HasTable t' (dirName d.store id :: loc) new)
    (same : ∀ l, l ≠ dirName d.store id :: loc →
      l ≠ tableFileName :: dirName d.store id :: loc → t'.node? l = t.node? l) :
    Tables d loc t' (fun i => i = id ∨ ids i) (Function.update table id new) := by
  refine ⟨h.lead.congr (Confined.of_made same).outside, ?_, ?_, ?_⟩
  · rintro j (rfl | hj)
    · exact room
    · exact h.room j hj
  · rintro j (rfl | hj)
    · rw [Function.update_self]
      exact written
    · -- The directories that were there before are other ones.
      have hji : j ≠ id := fun e => hid (e ▸ hj)
      rw [Function.update_of_ne hji]
      have inner (file : String) : t'.node? (file :: dirName d.store j :: loc) =
          t.node? (file :: dirName d.store j :: loc) := by
        refine same _ (fun e => ?_) fun e => ?_
        · simpa using congrArg List.length e
        · exact hji (dirName_injective (List.cons.inj (List.cons.inj e).2).1)
      exact (h.table j hj).congr (inner _) (inner _)
  · -- One entry of the folder is new, and it is the directory of `id`.
    intro name hname
    by_cases hnew : name = dirName d.store id
    · exact ⟨id, .inl rfl, hnew⟩
    · have hlength : name :: loc ≠ tableFileName :: dirName d.store id :: loc := by
        intro e
        simpa using congrArg List.length e
      rw [same _ (fun e => hnew (List.cons.inj e).1) hlength] at hname
      obtain ⟨j, hj, hname⟩ := h.only name hname
      exact ⟨j, .inr hj, hname⟩

/-- A partition is dropped. -/
theorem dropTable (h : Tables d loc t ids table)
    (gone : ∀ l, t'.node? l = if dirName d.store id :: loc <:+ l then none else t.node? l) :
    Tables d loc t' (fun i => i ≠ id ∧ ids i) table := by
  -- Only what is below the directory of `id` is gone, and that is nothing of another one.
  have kept (name file : String) (hne : name ≠ dirName d.store id) :
      t'.node? (name :: loc) = t.node? (name :: loc) ∧
        t'.node? (file :: name :: loc) = t.node? (file :: name :: loc) := by
    have hname : ¬dirName d.store id :: loc <:+ name :: loc := fun hs =>
      hne (List.cons.inj (hs.eq_of_length rfl)).1.symm
    have hfile : ¬dirName d.store id :: loc <:+ file :: name :: loc := by
      intro hs
      rcases List.suffix_cons_iff.1 hs with e | hs
      · simpa using congrArg List.length e
      · exact hname hs
    rw [gone, gone, if_neg hname, if_neg hfile]
    exact ⟨rfl, rfl⟩
  refine ⟨h.lead.congr (Confined.of_gone gone).outside, fun j hj => h.room j hj.2, ?_, ?_⟩
  · intro j hj
    have hne : dirName d.store j ≠ dirName d.store id := fun e => hj.1 (dirName_injective e)
    exact (h.table j hj.2).congr (kept _ _ hne).2 (kept _ _ hne).2
  · intro name hname
    have hne : name ≠ dirName d.store id := by
      rintro rfl
      exact hname (by rw [gone, if_pos (List.suffix_refl _)])
    rw [(kept name name hne).1] at hname
    obtain ⟨j, hj, rfl⟩ := h.only name hname
    exact ⟨j, ⟨fun e => hne (e ▸ rfl), hj⟩, rfl⟩

end Tables

/-! ### Opening a partition of the folder -/

/-- A table is opened at the path of its partition, for a partition of the store's own. -/
theorem Backend.attach_table {spec : PartitionSpec} (hstore : spec.store = d.store) :
    Backend.table.attach d spec =
      HostAction.register (openTable (d.partitionPath spec.id) spec) := if_pos hstore

/-- What comes of that in any case: the partition gets the next handle, or no partition is added. -/
theorem Backend.attach_table_cases (d : StoreFolder) (spec : PartitionSpec) (host : Host) :
    (∃ part t, openTable (d.partitionPath spec.id) spec host.tree = .ok part t ∧
        Backend.table.attach d spec host =
          .ok host.partitions.length ⟨t, host.partitions ++ [part]⟩) ∨
      ∃ e t, Backend.table.attach d spec host = .error e { host with tree := t } ∧
        (openTable (d.partitionPath spec.id) spec host.tree = .error e t ∨ t = host.tree) := by
  by_cases hstore : spec.store = d.store
  · rw [Backend.attach_table hstore]
    cases hopen : openTable (d.partitionPath spec.id) spec host.tree with
    | ok part t => exact .inl ⟨part, t, rfl, HostAction.register_of_ok hopen⟩
    | error e t => exact .inr ⟨e, t, HostAction.register_of_error hopen, .inl rfl⟩
  · have hrefuse : Backend.table.attach d spec =
        throw (.request (.foreignStore spec.store d.store)) := if_neg hstore
    exact .inr ⟨_, host.tree, by rw [hrefuse]; rfl, .inr rfl⟩

/-- What success tells: the partition is one of the store's own, and its table was opened. -/
theorem Backend.exists_of_attach_table {spec : PartitionSpec} {host host' : Host} {h : Handle}
    (hattach : Backend.table.attach d spec host = .ok h host') :
    ∃ part, openTable (d.partitionPath spec.id) spec host.tree = .ok part host'.tree := by
  rcases Backend.attach_table_cases d spec host with ⟨part, t, hopen, hok⟩ | ⟨e, t, herror, -⟩
  · cases hattach.symm.trans hok
    exact ⟨part, hopen⟩
  · cases hattach.symm.trans herror

/-- A partition that is on disk is opened with its entries, or refused if it has another format,
and nothing on disk changes. -/
theorem Tables.attach_eq {host : Host} (h : Tables d loc host.tree ids table)
    {spec : PartitionSpec} (hstore : spec.store = d.store) (hid : ids spec.id) :
    Backend.table.attach d spec host = if (table spec.id).format = spec.format then
        .ok host.partitions.length ⟨host.tree, host.partitions ++ [⟨spec.id, spec.format,
          (table spec.id).entries, .table (d.partitionPath spec.id) false, false⟩]⟩
      else .error (.formatMismatch spec.id spec.format (table spec.id).format) host := by
  have hopen := openTable_of_hasTable spec h.lead (h.room _ hid) (h.table _ hid)
  rw [Backend.attach_table hstore]
  split
  · rename_i hformat
    rw [if_pos hformat] at hopen
    exact HostAction.register_of_ok hopen
  · rename_i hformat
    rw [if_neg hformat] at hopen
    exact HostAction.register_of_error hopen

end PartitionStore
