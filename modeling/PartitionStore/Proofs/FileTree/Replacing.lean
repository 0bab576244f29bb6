import PartitionStore.Proofs.FileTree.Outcomes

/-!
# `PartitionStore.Proofs.FileTree.Replacing`: all that replacing a file can do

A file is replaced by way of another one beside it. Where that is done below a path
that points somewhere, and no links are there, it comes out in one of two ways
(`replace_cases`): the file has the data, or the scratch file alone has changed.

* `PointsTo.of_write`, `PointsTo.of_rename`, `PointsTo.of_replace`: what success tells.
* `NamesEntry.write_of_isDir`, `NamesEntry.rename_of_isDir`: a directory is in the way.
-/

set_option autoImplicit false

namespace PartitionStore.FileTree

variable {t u : FileTree} {p q dir : Path} {loc parent : Location} {name other : String}
  {data : Bytes}

/-- What is neither a directory nor a link takes a file. -/
theorem takesFile_of_ne (hdir : t.node? loc ≠ some .dir)
    (hlink : ∀ target, t.node? loc ≠ some (.link target)) : t.TakesFile loc := by
  cases hnode : t.node? loc with
  | none => exact takesFile_of_none hnode
  | some node =>
      cases node with
      | file data => exact .inr ⟨data, hnode⟩
      | dir => exact absurd hnode hdir
      | link target => exact absurd hnode (hlink target)

/-! ### Reading -/

/-- What a name below a path leads to, if to anything, is what the path's directory has under
that name. -/
theorem PointsTo.of_exists (points : t.PointsTo dir loc) (hname : Path.isPlainName name = true)
    (h : t.exists (dir.join name) = true) : t.NamesEntry (dir.join name) loc name := by
  obtain ⟨spot, hspot⟩ := exists_resolveSteps_of_exists (Path.endsWithSlash_join dir hname) h
  exact points.namesEntry hname (checkText_of_exists h) hspot

/-- What is read there is the file that the directory has under that name. -/
theorem PointsTo.of_read (points : t.PointsTo dir loc) (hname : Path.isPlainName name = true)
    (hlink : ∀ target, t.node? (name :: loc) ≠ some (.link target))
    (h : t.read (dir.join name) = .ok data) : t.node? (name :: loc) = some (.file data) := by
  have named := points.of_exists hname (exists_of_read h)
  cases hnode : t.node? (name :: loc) with
  | none =>
      have hfind := named.find_of_none .followed hnode
      simp [FileTree.read, hfind, bind, Except.bind] at h
  | some node =>
      cases node with
      | link target => exact absurd hnode (hlink target)
      | dir =>
          have hfind := named.find .followed hnode (by simp)
          simp [FileTree.read, hfind, bind, Except.bind] at h
      | file data' =>
          have hread := named.read hnode
          rw [h] at hread
          rw [Except.ok.inj hread]

/-! ### Writing -/

/-- A directory is in the way of a file that is to be written. -/
theorem NamesEntry.write_of_isDir (h : t.NamesEntry p parent name)
    (hdir : t.node? (name :: parent) = some .dir) (data : Bytes) :
    t.write p data = .error .isADirectory := by
  have hresolve := h.resolveSteps .written (by simp [hdir])
  rw [hdir] at hresolve
  rw [FileTree.write, h.text, h.noSlash]
  simp [bind, Except.bind, hresolve]

/-- And of one that is to be moved there. -/
theorem NamesEntry.rename_of_isDir (hp : t.NamesEntry p parent name)
    (hq : t.NamesEntry q parent other) (hsource : t.node? (other :: parent) = some (.file data))
    (hdir : t.node? (name :: parent) = some .dir) : t.rename q p = .error .isADirectory := by
  have hold := hq.resolveEntry
  have hnew := hp.resolveEntry
  rw [hsource] at hold
  rw [hdir] at hnew
  have hloc : ¬name :: parent = other :: parent := by
    intro e
    rw [e, hsource] at hdir
    cases hdir
  rw [FileTree.rename, hold]
  simp [bind, Except.bind, hnew, hp.endsInName, hq.endsInName, hp.noSlash, hq.noSlash, hloc]

/-- What success in writing a file below a path tells. -/
theorem PointsTo.of_write (points : t.PointsTo dir loc) (hname : Path.isPlainName name = true)
    (hlink : ∀ target, t.node? (name :: loc) ≠ some (.link target))
    (h : t.write (dir.join name) data = .ok u) :
    t.NamesEntry (dir.join name) loc name ∧ t.TakesFile (name :: loc) ∧
      u = t.place loc name (.file data) := by
  cases htext : checkText (dir.join name) with
  | error e => simp [FileTree.write, htext, bind, Except.bind] at h
  | ok _ =>
      cases hspot : t.resolveSteps .written (dir.join name).steps with
      | error e =>
          simp [FileTree.write, htext, Path.endsWithSlash_join dir hname, hspot, bind,
            Except.bind] at h
      | ok spot =>
          have named := points.namesEntry hname htext hspot
          have hdir : t.node? (name :: loc) ≠ some .dir := by
            intro hdir
            rw [named.write_of_isDir hdir] at h
            cases h
          have free := takesFile_of_ne hdir hlink
          rw [named.write free] at h
          exact ⟨named, free, (Except.ok.inj h).symm⟩

/-- What success in moving a file to a place below the same path tells. -/
theorem PointsTo.of_rename (points : t.PointsTo dir loc) (hname : Path.isPlainName name = true)
    (hlink : ∀ target, t.node? (name :: loc) ≠ some (.link target))
    (hq : t.NamesEntry q loc other) (hsource : t.node? (other :: loc) = some (.file data))
    (h : t.rename q (dir.join name) = .ok u) :
    t.NamesEntry (dir.join name) loc name ∧ t.TakesFile (name :: loc) := by
  have hold := hq.resolveEntry
  cases hentry : t.resolveEntry (dir.join name) with
  | error e => simp [FileTree.rename, hold, hentry, bind, Except.bind] at h
  | ok spot =>
      obtain ⟨htext, hspot⟩ := resolveSteps_of_resolveEntry hentry
      have named := points.namesEntry hname htext hspot
      refine ⟨named, takesFile_of_ne ?_ hlink⟩
      intro hdir
      rw [named.rename_of_isDir hq hsource hdir] at h
      cases h

/-- What success in replacing a file below a path tells: the paths name the file and the scratch
file, and nothing was in the way of either. -/
theorem PointsTo.of_replace (points : t.PointsTo dir loc) (free : t.LinkFree loc)
    (hname : Path.isPlainName name = true) (hother : Path.isPlainName other = true)
    (hne : other ≠ name) (h : Files.replace (dir.join name) (dir.join other) data t = .ok () u) :
    t.NamesEntry (dir.join name) loc name ∧ t.NamesEntry (dir.join other) loc other ∧
      t.TakesFile (name :: loc) ∧ t.TakesFile (other :: loc) := by
  obtain ⟨v, hwrite, hrename⟩ := Files.exists_of_replace_ok h
  obtain ⟨hq, takes, rfl⟩ := points.of_write hother (free.entry other) hwrite
  have beside := beside_place_file hq.usable hq.isDir takes data
  have hscratch : (t.place loc other (.file data)).node? (other :: loc) = some (.file data) :=
    node?_place_self hq.usable hq.isDir takes.ne_dir
  -- The file could be moved, so nothing is in its way, and nothing was before.
  obtain ⟨hp, takes'⟩ := (points.congr beside.sameLinks).of_rename hname
    ((free.congr beside.sameLinks).entry name)
    (hq.beside beside) hscratch hrename
  have hloc : name :: loc ≠ other :: loc := fun e => hne (List.cons.inj e).1.symm
  refine ⟨hp.beside beside.symm, hq, ?_, takes⟩
  rw [TakesFile, ← beside.same _ hloc]
  exact takes'

/-- Where replacing a file below a path fails the scratch file is all that may have changed. -/
theorem PointsTo.of_replace_error {e : IoError} (points : t.PointsTo dir loc)
    (free : t.LinkFree loc) (hother : Path.isPlainName other = true)
    (h : Files.replace p (dir.join other) data t = .error e u) :
    u = t ∨ Beside (other :: loc) t u := by
  rcases Files.cases_of_replace_error h with hsame | hwrite
  · exact .inl hsame
  · obtain ⟨hq, takes, rfl⟩ := points.of_write hother (free.entry other) hwrite
    exact .inr (beside_place_file hq.usable hq.isDir takes data)

/-- A file that is replaced has the data afterwards, or the replacing fails, and then the scratch
file is all that may have changed. -/
theorem replace_cases (points : t.PointsTo dir loc) (free : t.LinkFree loc)
    (hname : Path.isPlainName name = true) (hother : Path.isPlainName other = true)
    (hne : other ≠ name) (data : Bytes) :
    (∃ u, Files.replace (dir.join name) (dir.join other) data t = .ok () u ∧
        ∀ l, u.node? l = if l = name :: loc then some (.file data)
          else if l = other :: loc then none else t.node? l) ∨
      ∃ e u, Files.replace (dir.join name) (dir.join other) data t = .error e u ∧
        SameLinks t u ∧ ∀ l, l ≠ other :: loc → u.node? l = t.node? l := by
  cases hreplace : Files.replace (dir.join name) (dir.join other) data t with
  | ok _ u =>
      obtain ⟨hp, hq, takes, takes'⟩ := points.of_replace free hname hother hne hreplace
      exact .inl (hreplace ▸ replace_ok hp hq hne takes takes' data)
  | error e u =>
      refine .inr ⟨e, u, rfl, ?_⟩
      rcases points.of_replace_error free hother hreplace with rfl | beside
      · exact ⟨.refl u, fun _ _ => rfl⟩
      · exact ⟨beside.sameLinks, beside.same⟩

/-- A file that was replaced below a path reads as what was written. -/
theorem PointsTo.read_of_replace (points : t.PointsTo dir loc) (free : t.LinkFree loc)
    (hname : Path.isPlainName name = true) (hother : Path.isPlainName other = true)
    (hne : other ≠ name) (h : Files.replace (dir.join name) (dir.join other) data t = .ok () u) :
    u.read (dir.join name) = .ok data := by
  obtain ⟨hp, hq, takes, takes'⟩ := points.of_replace free hname hother hne h
  obtain ⟨v, hreplace, hnode⟩ := replace_ok hp hq hne takes takes' data
  cases h.symm.trans hreplace
  refine (hp.frame (S := fun l => l = name :: loc ∨ l = other :: loc) ?_ fun l hl => ?_).read
    (by rw [hnode, if_pos rfl])
  · rintro l (rfl | rfl)
    · exact takes
    · exact takes'
  · rw [hnode, if_neg fun e => hl (.inl e), if_neg fun e => hl (.inr e)]

/-- A replacement fails and changes nothing, or there was room for the scratch file. Then there is
room for it afterwards, too. -/
theorem replace_scratch_cases (points : t.PointsTo dir loc) (free : t.LinkFree loc)
    (hother : Path.isPlainName other = true) (p : Path) (data : Bytes) :
    (∃ e, Files.replace p (dir.join other) data t = .error e t) ∨
      t.TakesFile (other :: loc) ∧ ∀ e u, Files.replace p (dir.join other) data t = .error e u →
        u.TakesFile (other :: loc) := by
  cases hwrite : t.write (dir.join other) data with
  | error e => exact .inl ⟨e, Files.replace_of_write_error hwrite⟩
  | ok v =>
      obtain ⟨hq, takes, rfl⟩ := points.of_write hother (free.entry other) hwrite
      refine .inr ⟨takes, fun e u h => ?_⟩
      obtain rfl := Files.eq_of_change_error ((Files.replace_of_write hwrite).symm.trans h)
      exact .inr ⟨data, node?_place_self hq.usable hq.isDir takes.ne_dir⟩

/-- Where a file was replaced nothing but the two files changed. -/
theorem within_of_replaced (free : t.LinkFree loc) (hnode : ∀ l, u.node? l =
      if l = name :: loc then some (.file data)
      else if l = other :: loc then none else t.node? l) :
    Within (fun l => l = name :: loc ∨ l = other :: loc) t u := by
  refine ⟨.of_changed fun l hl target => ?_, fun l hl => ?_⟩
  · by_cases hname : l = name :: loc
    · subst hname
      exact ⟨by rw [hnode, if_pos rfl]; simp, free.entry _ target⟩
    · by_cases hother : l = other :: loc
      · subst hother
        exact ⟨by rw [hnode, if_neg hname, if_pos rfl]; simp, free.entry _ target⟩
      · exact absurd (by rw [hnode, if_neg hname, if_neg hother]) hl
  · exact .inl (by rw [hnode, if_neg fun e => hl (.inl e), if_neg fun e => hl (.inr e)])

end PartitionStore.FileTree
