import PartitionStore.Proofs.FileTree.Entry
import PartitionStore.Proofs.Table.Image
import PartitionStore.Proofs.Table.Writer

/-!
# `PartitionStore.Proofs.Table.RoundTrip`: tables come back from their files

A table is written to a scratch file beside its place and then moved there.
`write_of_fits` says what that leaves in the tree, and `write_of_not_fits` what
is left if an entry is too long. `exists_write_then_read` is the round trip.
-/

set_option autoImplicit false

namespace PartitionStore.Table

open FileTree

variable {t : FileTree} {p : Path} {parent : Location} {name scratch : String} {table : Table}

/-- Writing a table, where nothing stops it. -/
theorem write_eq (table : Table) (p : Path) : table.write p =
    match (Writer.create table.format).addAll table.entries.toList with
    | .error (refusal, w) => (do
      .io <| Files.change (·.write (scratchFile p) w.written.toList)
      throw (.request refusal))
    | .ok w => (do
      .io <| Files.replace p (scratchFile p) w.finish
      pure w.finish.length) := rfl

/-- A table whose entries fit is written: its image is in the file's place, the
scratch file is gone, and nothing else changed. -/
theorem write_of_fits (hp : t.NamesEntry p parent name)
    (hscratch : t.NamesEntry (scratchFile p) parent scratch) (hne : scratch ≠ name)
    (free : t.TakesFile (name :: parent)) (freeScratch : t.TakesFile (scratch :: parent))
    (fits : ∀ entry ∈ table.entries.toList, Fits entry) :
    ∃ t', write table p t = .ok table.image.length t' ∧
      ∀ loc, t'.node? loc =
        if loc = name :: parent then some (.file table.image)
        else if loc = scratch :: parent then none
        else t.node? loc := by
  -- What the writer has at the end is what replaces the file.
  obtain ⟨w, haddAll, hfinish⟩ := Writer.finish_eq_image fits
  obtain ⟨t', hreplace, hnode⟩ := replace_ok hp hscratch hne free freeScratch table.image
  refine ⟨t', ?_, hnode⟩
  rw [write_eq, haddAll]
  simp only [hfinish]
  rw [Action.bind_of_ok (StoreAction.io_of_ok hreplace)]
  rfl

/-- What is in the file then is the image. -/
theorem exists_write_image (hp : t.NamesEntry p parent name)
    (hscratch : t.NamesEntry (scratchFile p) parent scratch) (hne : scratch ≠ name)
    (free : t.TakesFile (name :: parent)) (freeScratch : t.TakesFile (scratch :: parent))
    (fits : ∀ entry ∈ table.entries.toList, Fits entry) :
    ∃ t', write table p t = .ok table.image.length t' ∧ t'.read p = .ok table.image := by
  obtain ⟨t', hwrite, hnode⟩ := write_of_fits hp hscratch hne free freeScratch fits
  -- The way to the file goes through neither of the two files that changed.
  have stuck : ∀ loc, loc = name :: parent ∨ loc = scratch :: parent → t.TakesFile loc := by
    rintro loc (rfl | rfl)
    · exact free
    · exact freeScratch
  have named : t'.NamesEntry p parent name := by
    refine hp.frame stuck ?_
    intro loc hloc
    rw [hnode, if_neg fun e => hloc (.inl e), if_neg fun e => hloc (.inr e)]
  exact ⟨t', hwrite, named.read (by rw [hnode, if_pos rfl])⟩

/-- A table that was written fits, and its image is what was written to the scratch file and then
moved. -/
theorem exists_of_write_ok {u : FileTree} {size : Nat} (h : write table p t = .ok size u) :
    (∀ entry ∈ table.entries.toList, Fits entry) ∧
      ∃ v, t.write (scratchFile p) table.image = .ok v ∧ v.rename (scratchFile p) p = .ok u := by
  rw [write_eq] at h
  cases haddAll : (Writer.create table.format).addAll table.entries.toList with
  | error failure =>
      rw [haddAll] at h
      obtain ⟨_, _, -, hthrow⟩ := Action.bind_eq_ok_iff.1 h
      cases hthrow
  | ok w =>
      have fits : ∀ entry ∈ table.entries.toList, Fits entry := by
        refine Decidable.byContradiction fun hnot => ?_
        obtain ⟨fault, w', hstop⟩ := Writer.addAll_of_not_fits (w := Writer.create table.format) hnot
        cases haddAll.symm.trans hstop
      obtain ⟨w', haddAll', hfinish⟩ := Writer.finish_eq_image fits
      cases haddAll.symm.trans haddAll'
      rw [haddAll] at h
      obtain ⟨_, u', hreplace, hpure⟩ := Action.bind_eq_ok_iff.1 h
      cases hpure
      rw [StoreAction.io, StoreAction.ofFiles_eq_ok_iff, hfinish] at hreplace
      exact ⟨fits, Files.exists_of_replace_ok hreplace⟩

/-- A table with an entry that is too long is not written. Some of it stays in the
scratch file. -/
theorem write_of_not_fits (hscratch : t.NamesEntry (scratchFile p) parent scratch)
    (freeScratch : t.TakesFile (scratch :: parent))
    (h : ¬∀ entry ∈ table.entries.toList, Fits entry) :
    ∃ fault data,
      write table p t = .error (.request fault) (t.place parent scratch (.file data)) := by
  obtain ⟨fault, w, haddAll⟩ := Writer.addAll_of_not_fits (w := Writer.create table.format) h
  refine ⟨fault, w.written.toList, ?_⟩
  have hwrite : Files.change (·.write (scratchFile p) w.written.toList) t =
      .ok () (t.place parent scratch (.file w.written.toList)) :=
    Files.change_of_ok (hscratch.write freeScratch w.written.toList)
  rw [write_eq, haddAll]
  simp only
  rw [Action.bind_of_ok (StoreAction.io_of_ok hwrite)]
  rfl

/-- A table whose scratch file cannot be written is not written, and nothing changes. -/
theorem write_of_scratch {e : IoError} (h : ∀ data, t.write (scratchFile p) data = .error e)
    (table : Table) : write table p t = .error (.io e) t := by
  have hwrite (data : Bytes) : Files.change (·.write (scratchFile p) data) t = .error e t :=
    Files.change_of_error (h data)
  rw [write_eq]
  cases (Writer.create table.format).addAll table.entries.toList with
  | error failure => exact Action.bind_of_error (StoreAction.io_of_error (hwrite _))
  | ok w =>
      exact Action.bind_of_error (StoreAction.io_of_error (Files.replace_of_write_error (h _)))

/-- One whose path cannot be walked is such a file. -/
theorem write_of_checkText {e : IoError} (h : checkText (scratchFile p) = .error e)
    (table : Table) : write table p t = .error (.io e) t := by
  refine write_of_scratch (fun data => ?_) table
  rw [FileTree.write, h]
  rfl

/-- A table that was written is read back. The file has the header and the footer, 23 bytes
together, around a block of the entries in the order of their keys; its size is what the
writing tells; and the scratch file is gone. -/
theorem exists_write_then_read (format : TableFormat)
    (entries : SortedMap (List UInt8) (List UInt8)) (hp : t.NamesEntry p parent name)
    (hscratch : t.NamesEntry (scratchFile p) parent scratch) (hne : scratch ≠ name)
    (free : t.TakesFile (name :: parent)) (freeScratch : t.TakesFile (scratch :: parent))
    (fits : ∀ entry ∈ entries.toList, Fits entry) :
    ∃ size t', write ⟨format, entries⟩ p t = .ok size t' ∧
      read p t' = .ok ⟨format, entries⟩ t' ∧
      (∃ front block back, t'.read p = .ok (front ++ block ++ back) ∧
        IsBlock block entries.toList ∧ front.length = 15 ∧ back.length = 8 ∧
        size = (front ++ block ++ back).length) ∧
      size = 23 +
        entries.toList.foldr (fun e others => 8 + e.1.length + e.2.length + others) 0 ∧
      entries.toList.Pairwise (fun a b => a.1 < b.1) ∧
      t'.exists (scratchFile p) = false ∧
      ∀ loc, loc ≠ name :: parent → loc ≠ scratch :: parent → t'.node? loc = t.node? loc := by
  obtain ⟨t', hwrite, hnode⟩ :=
    @write_of_fits _ _ _ _ _ ⟨format, entries⟩ hp hscratch hne free freeScratch fits
  have hloc : ¬scratch :: parent = name :: parent := by
    intro e
    exact hne (List.cons.inj e).1
  -- Nothing but the two files changed, and no way leads through files.
  have stuck : ∀ loc, loc = name :: parent ∨ loc = scratch :: parent → t.TakesFile loc := by
    intro loc hloc'
    cases hloc' with
    | inl e => exact e ▸ free
    | inr e => exact e ▸ freeScratch
  have same : ∀ loc, ¬(loc = name :: parent ∨ loc = scratch :: parent) →
      t'.node? loc = t.node? loc := by
    intro loc h
    rw [hnode, if_neg fun e => h (.inl e), if_neg fun e => h (.inr e)]
  have hfile : t'.read p = .ok (image ⟨format, entries⟩) :=
    (hp.frame stuck same).read (by rw [hnode, if_pos rfl])
  have hgone : t'.node? (scratch :: parent) = none := by rw [hnode, if_neg hloc, if_pos rfl]
  refine ⟨_, t', hwrite, ?_, ⟨header format entries.size, block entries.toList,
    footer (block entries.toList), hfile, isBlock_block fits, rfl, ?_, rfl⟩, ?_,
    entries.lt_of_ascending, (hscratch.frame stuck same).exists_of_none hgone, ?_⟩
  · rw [read_eq hfile, ofImage_eq_ok_iff.2 (isImage_image fits)]
  · simp [footer]
  · exact length_image ⟨format, entries⟩
  · intro loc h₁ h₂
    exact same loc fun h => h.elim h₁ h₂

/-- Two entries, written at the top of an empty tree: 8 and 11 bytes beside the 23. -/
theorem write_then_read_two_entries :
    ∃ t', write ⟨.plain, SortedMap.ofList [([97], [1, 2]), ([], [])]⟩ ⟨"data.tbl"⟩ FileTree.empty =
        .ok 42 t' ∧
      read ⟨"data.tbl"⟩ t' = .ok ⟨.plain, SortedMap.ofList [([97], [1, 2]), ([], [])]⟩ t' := by
  have hp : FileTree.empty.NamesEntry ⟨"data.tbl"⟩ [] "data.tbl" :=
    ⟨rfl, rfl, by decide, [], rfl, rfl⟩
  have hscratch : FileTree.empty.NamesEntry (scratchFile ⟨"data.tbl"⟩) [] "data.tmp" :=
    ⟨rfl, rfl, by decide, [], rfl, rfl⟩
  obtain ⟨size, t', hwrite, hread, -, hsize, -⟩ :=
    exists_write_then_read .plain (SortedMap.ofList [([97], [1, 2]), ([], [])]) hp hscratch
      (by decide) (takesFile_of_none rfl) (takesFile_of_none rfl) (by decide)
  have h42 : size = 42 := hsize.trans (by decide)
  exact ⟨t', h42 ▸ hwrite, hread⟩

end PartitionStore.Table
