import PartitionStore.Proofs.FileTree.Directory

/-!
# `PartitionStore.Proofs.FileTree.Existing`: directories that are there already

A path may lead to a directory through symbolic links, and the last step may be
one. To make the directory is then to do nothing (`createDirAll_of_read`), and
to remove it is to remove the link or the directory
(`LeadsTo.exists_removeDirAll`).

* `exists_resolveSteps_of_append`: steps that can be gone on from lead to a directory.
* `resolveSteps_itself`: where a directory is found at the end of the steps, there is the
  directory or a link to it.
* `resolveSteps_of_find`: a directory that is found without a look behind links is found with one.
* `resolveSteps_of_createDirAll`: a directory that was made, or found, is led to.
-/

set_option autoImplicit false

namespace PartitionStore.FileTree

variable {t u : FileTree} {last : LastLink} {start loc : Location} {steps more : List Step}
  {spot : Spot} {p dir : Path} {name : String}

/-! ### The front of a walk -/

/-- A walk that goes on behind some steps came to a directory by them, if it does so behind links.
-/
theorem exists_walk_of_append {jump jump' : Location → List Step → Except IoError Spot}
    (hmore : more ≠ [])
    (hjump : ∀ loc steps, jump loc (steps ++ more) = .ok spot →
      ∃ loc', jump' loc steps = .ok (.occupied loc' .dir))
    (h : t.walk last jump start (steps ++ more) = .ok spot) :
    ∃ loc, t.walk .followed jump' start steps = .ok (.occupied loc .dir) := by
  induction steps generalizing start with
  | nil => exact ⟨start, rfl⟩
  | cons step rest ih =>
      cases step with
      | here => exact ih h
      | up => exact ih h
      | down name =>
          have hrest : ¬rest ++ more = [] := by simp [hmore]
          rw [List.cons_append] at h
          obtain ⟨usable, down⟩ := walk_down_eq_ok_iff.1 h
          -- Only a directory or a link can be gone on from.
          cases down with
          | vacant _ atEnd _ | file _ atEnd _ => exact absurd atEnd hrest
          | itself _ atEnd _ => exact absurd atEnd.1 hrest
          | dir isDir goesOn =>
              obtain ⟨loc, hloc⟩ := ih goesOn
              exact ⟨loc, walk_down_eq_ok_iff.2 ⟨usable, .dir isDir hloc⟩⟩
          | link isLink _ _ follows =>
              rw [← List.append_assoc] at follows
              obtain ⟨loc, hloc⟩ := hjump _ _ follows
              exact ⟨loc, walk_down_eq_ok_iff.2 ⟨usable, .link isLink (by simp) (by simp) hloc⟩⟩

/-- Steps that can be gone on from lead to a directory. -/
theorem exists_walkWithin_of_append {links : Nat} (hmore : more ≠ [])
    (h : t.walkWithin last links start (steps ++ more) = .ok spot) :
    ∃ loc, t.walkWithin .followed links start steps = .ok (.occupied loc .dir) := by
  induction links generalizing start steps with
  | zero => exact exists_walk_of_append hmore (fun _ _ h => by simp at h) h
  | succ links ih => exact exists_walk_of_append hmore (fun _ _ h => ih h) h

/-- So do steps from the top. -/
theorem exists_resolveSteps_of_append (hmore : more ≠ [])
    (h : t.resolveSteps last (steps ++ more) = .ok spot) :
    ∃ loc, t.resolveSteps .followed steps = .ok (.occupied loc .dir) := by
  simp only [resolveSteps_eq] at h ⊢
  exact exists_walkWithin_of_append hmore h

/-! ### The end of a walk -/

/-- The directory, or a link in its place. -/
def Spot.IsOrLinks (loc : Location) (spot : Spot) : Prop :=
  spot = .occupied loc .dir ∨ ∃ loc' target, spot = .occupied loc' (.link target)

/-- Where a walk leads to a directory with links followed, one that stops at a link leads there, or
to the link that it stops at. -/
theorem walk_itself {jump jump' : Location → List Step → Except IoError Spot}
    (hjump : ∀ start steps, jump start steps = .ok (.occupied loc .dir) →
      ∃ spot, jump' start steps = .ok spot ∧ Spot.IsOrLinks loc spot)
    (h : t.walk .followed jump start steps = .ok (.occupied loc .dir)) :
    ∃ spot, t.walk .itself jump' start steps = .ok spot ∧ Spot.IsOrLinks loc spot := by
  induction steps generalizing start with
  | nil => exact ⟨_, h, .inl rfl⟩
  | cons step rest ih =>
      cases step with
      | here => exact ih h
      | up => exact ih h
      | down name =>
          obtain ⟨usable, down⟩ := walk_down_eq_ok_iff.1 h
          cases down with
          | vacant _ _ here | file _ _ here | itself _ _ here => cases here
          | dir isDir goesOn =>
              obtain ⟨spot, hspot, orLinks⟩ := ih goesOn
              exact ⟨spot, walk_down_eq_ok_iff.2 ⟨usable, .dir isDir hspot⟩, orLinks⟩
          | @link target isLink _ _ follows =>
              -- A link at the end is taken for itself, and any other one is followed.
              by_cases hitself : rest = [] ∧ LastLink.itself = .itself
              · exact ⟨_, walk_down_eq_ok_iff.2 ⟨usable, .itself isLink hitself rfl⟩,
                  .inr ⟨_, target, rfl⟩⟩
              · obtain ⟨spot, hspot, orLinks⟩ := hjump _ _ follows
                exact ⟨spot, walk_down_eq_ok_iff.2
                  ⟨usable, .link isLink hitself (by simp) hspot⟩, orLinks⟩

/-- Where a directory is found at the end of the steps, there is the directory or a link. -/
theorem walkWithin_itself {links : Nat}
    (h : t.walkWithin .followed links start steps = .ok (.occupied loc .dir)) :
    ∃ spot, t.walkWithin .itself links start steps = .ok spot ∧ Spot.IsOrLinks loc spot := by
  induction links generalizing start steps with
  | zero => exact walk_itself (fun _ _ h => by simp at h) h
  | succ links ih => exact walk_itself (fun _ _ h => ih h) h

/-- So do steps from the top. -/
theorem resolveSteps_itself (h : t.resolveSteps .followed steps = .ok (.occupied loc .dir)) :
    ∃ spot, t.resolveSteps .itself steps = .ok spot ∧ Spot.IsOrLinks loc spot := by
  simp only [resolveSteps_eq] at h ⊢
  exact walkWithin_itself h

/-- A walk that ends in a directory ends there too if links at the end are followed. -/
theorem walk_followed {jump jump' : Location → List Step → Except IoError Spot}
    (hjump : ∀ start steps, jump start steps = .ok (.occupied loc .dir) →
      jump' start steps = .ok (.occupied loc .dir))
    (h : t.walk last jump start steps = .ok (.occupied loc .dir)) :
    t.walk .followed jump' start steps = .ok (.occupied loc .dir) := by
  -- A directory was reached, so the last link was not left alone, however links were to be taken.
  induction steps generalizing start with
  | nil => exact h
  | cons step rest ih =>
      cases step with
      | here => exact ih h
      | up => exact ih h
      | down name =>
          obtain ⟨usable, down⟩ := walk_down_eq_ok_iff.1 h
          refine walk_down_eq_ok_iff.2 ⟨usable, ?_⟩
          cases down with
          | vacant _ _ here | file _ _ here | itself _ _ here => cases here
          | dir isDir goesOn => exact .dir isDir (ih goesOn)
          | link isLink _ _ follows => exact .link isLink (by simp) (by simp) (hjump _ _ follows)

/-- A walk that ends at a directory ends there with links followed, too: there was none at its end.
-/
theorem walkWithin_followed {links : Nat}
    (h : t.walkWithin last links start steps = .ok (.occupied loc .dir)) :
    t.walkWithin .followed links start steps = .ok (.occupied loc .dir) := by
  induction links generalizing start steps with
  | zero => exact walk_followed (fun _ _ h => by simp at h) h
  | succ links ih => exact walk_followed (fun _ _ h => ih h) h

/-! ### What is found -/

/-- What is found is where the path's steps lead, and the path has a text that can be one. -/
theorem find_eq_ok_iff {node : Node} : t.find last p = .ok (loc, node) ↔
    checkText p = .ok () ∧ t.resolveSteps last p.demandingSteps = .ok (.occupied loc node) := by
  rw [FileTree.find, FileTree.resolve]
  cases htext : checkText p with
  | error e => simp [bind, Except.bind]
  | ok _ =>
      cases hspot : t.resolveSteps last p.demandingSteps with
      | error e => simp [bind, Except.bind]
      | ok spot => cases spot <;> simp [bind, Except.bind]

/-- What is found is in the tree. -/
theorem node?_of_find {node : Node} (h : t.find last p = .ok (loc, node)) :
    t.node? loc = some node :=
  resolveSteps_isIn (find_eq_ok_iff.1 h).2

/-- The way to a directory that is found is that of the path's steps. -/
theorem resolveSteps_of_find (h : t.find last p = .ok (loc, .dir)) :
    t.resolveSteps .followed p.steps = .ok (.occupied loc .dir) := by
  obtain ⟨-, hsteps⟩ := find_eq_ok_iff.1 h
  rw [resolveSteps_eq] at hsteps
  replace hsteps : t.resolveSteps .followed p.demandingSteps = .ok (.occupied loc .dir) :=
    (resolveSteps_eq ..).trans (walkWithin_followed hsteps)
  rw [Path.demandingSteps] at hsteps
  split at hsteps
  · obtain ⟨loc', hfront⟩ := exists_resolveSteps_of_append (List.cons_ne_nil _ _) hsteps
    cases (resolveSteps_here .followed hfront).symm.trans hsteps
    exact hfront
  · exact hsteps

/-! ### Making -/

/-- A file that is read is there. -/
theorem exists_of_read {data : Bytes} (h : t.read p = .ok data) : t.exists p = true := by
  cases hfind : t.find .followed p with
  | error e => simp [FileTree.read, hfind, bind, Except.bind] at h
  | ok found =>
      rw [FileTree.exists, hfind]
      rfl

/-- A path without a closing slash reads as the file that its steps lead to. -/
theorem read_eq_ok_iff {data : Bytes} (hslash : p.endsWithSlash = false) : t.read p = .ok data ↔
    checkText p = .ok () ∧
      ∃ loc, t.resolveSteps .followed p.steps = .ok (.occupied loc (.file data)) := by
  rw [FileTree.read, FileTree.find, FileTree.resolve, Path.demandingSteps, hslash]
  cases htext : checkText p with
  | error e => simp [bind, Except.bind]
  | ok _ =>
      cases hspot : t.resolveSteps .followed p.steps with
      | error e => simp [bind, Except.bind, hspot]
      | ok spot =>
          cases spot with
          | vacant parent name => simp [bind, Except.bind, hspot]
          | occupied loc node => cases node <;> simp [bind, Except.bind, hspot]

/-- Where a directory is found at the end of a path, the path leads to it. -/
theorem exists_way_of_isDir (hslash : p.endsWithSlash = false) (h : t.isDir p = true) :
    checkText p = .ok () ∧ ∃ loc, t.resolveSteps .followed p.steps = .ok (.occupied loc .dir) := by
  rw [FileTree.isDir, FileTree.find, FileTree.resolve, Path.demandingSteps, hslash] at h
  cases htext : checkText p with
  | error e => simp [htext, bind, Except.bind] at h
  | ok _ =>
      cases hspot : t.resolveSteps .followed p.steps with
      | error e => simp [htext, hspot, bind, Except.bind] at h
      | ok spot =>
          cases spot with
          | vacant parent name => simp [htext, hspot, bind, Except.bind] at h
          | occupied loc node =>
              cases node with
              | dir => exact ⟨rfl, loc, rfl⟩
              | _ => simp [htext, hspot, bind, Except.bind] at h

/-- A directory that a path leads to is left as it is. -/
theorem createDirAll_of_resolveSteps (htext : checkText p = .ok ())
    (h : t.resolveSteps .followed p.steps = .ok (.occupied loc .dir)) :
    Files.createDirAll p t = .ok () t := by
  rw [Files.createDirAll]
  split
  · rfl
  obtain ⟨spot, hspot, hend⟩ := resolveSteps_itself h
  have hmake : t.makeDir p.steps = .error .alreadyExists := by
    rw [makeDir, hspot]
    rcases hend with rfl | ⟨_, _, rfl⟩ <;> rfl
  rw [Action.bind_of_ok (Files.ask_of_ok htext), Files.ensureDir]
  simp only [hmake, h]

/-- So is one with a file that can be read. -/
theorem createDirAll_of_read {data : Bytes} (hname : Path.isPlainName name = true)
    (h : t.read (dir.join name) = .ok data) : Files.createDirAll dir t = .ok () t := by
  have hthere := exists_of_read h
  obtain ⟨spot, hsteps⟩ := exists_resolveSteps_of_exists (Path.endsWithSlash_join dir hname) hthere
  rw [Path.steps_join hname] at hsteps
  obtain ⟨loc, hloc⟩ := exists_resolveSteps_of_append (List.cons_ne_nil _ _) hsteps
  by_cases hempty : dir.text = ""
  · rw [Files.createDirAll, if_pos hempty]
    rfl
  · have htext := Path.checkText_of_join hname hempty (checkText_of_exists hthere)
    exact createDirAll_of_resolveSteps htext hloc

/-- A directory that was made is there. -/
theorem resolveSteps_of_makeDir (h : t.makeDir (steps ++ [.down name]) = .ok u) :
    ∃ loc, u.resolveSteps .followed (steps ++ [.down name]) = .ok (.occupied loc .dir) := by
  rw [makeDir] at h
  cases hspot : t.resolveSteps .itself (steps ++ [.down name]) with
  | error e =>
      rw [hspot] at h
      cases h
  | ok spot =>
      obtain ⟨loc, hfront⟩ := exists_resolveSteps_of_append (by simp) hspot
      cases hname : isEntryName name with
      | false =>
          rw [resolveSteps_down_of_unusable .itself hfront hname] at hspot
          cases hspot
      | true =>
          rw [resolveSteps_down .itself hfront hname fun hne => absurd rfl hne] at hspot
          rw [resolveSteps_down .itself hfront hname fun hne => absurd rfl hne] at h
          cases hnode : t.node? (name :: loc) with
          | some node =>
              rw [hnode] at h
              cases h
          | none =>
              rw [hnode] at h
              cases h
              have hthere : (t.place loc name .dir).node? (name :: loc) = some .dir :=
                node?_place_self hname (resolveSteps_isIn hfront) (by simp [hnode])
              -- Where the directory is now the way to the one above did not go through.
              have hfront' : (t.place loc name .dir).resolveSteps .followed steps =
                  .ok (.occupied loc .dir) :=
                resolveSteps_frame (S := (· = name :: loc))
                  (fun l hl => hl ▸ takesFile_of_none hnode)
                  (fun l hl => node?_place_of_ne t loc name .dir hl) hfront
                  fun e => List.cons_ne_self _ _ e.symm
              refine ⟨name :: loc, ?_⟩
              rw [resolveSteps_down .followed hfront' hname (by simp [hthere]), hthere]

/-- What comes of a directory that could not be made: it is there all the same, or it is an
error. -/
def settleDir (steps : List Step) (e : IoError) : Files Unit := fun t =>
  match t.resolveSteps .followed steps with
  | .ok (.occupied _ .dir) => .ok () t
  | _ => .error e t

/-- Where a failure is made good, the directory is there after all. -/
theorem exists_of_settled {v : FileTree} {e : IoError} (h : settleDir steps e v = .ok () u) :
    ∃ loc, u.resolveSteps .followed steps = .ok (.occupied loc .dir) := by
  rw [settleDir] at h
  split at h
  · rename_i loc hloc
    cases h
    exact ⟨loc, hloc⟩
  · cases h

/-- A path leads to a directory once all that was missing on it was made. -/
theorem resolveSteps_of_createDirAll (hname : Path.isPlainName name = true)
    (h : Files.createDirAll (dir.join name) t = .ok () u) :
    checkText (dir.join name) = .ok () ∧
      ∃ loc, u.resolveSteps .followed (dir.join name).steps = .ok (.occupied loc .dir) := by
  rw [Files.createDirAll, if_neg (Path.text_join_ne dir hname)] at h
  obtain ⟨_, t', hask, h⟩ := Action.bind_eq_ok_iff.1 h
  cases htext : checkText (dir.join name) with
  | error e =>
      simp [Files.ask, htext] at hask
  | ok _ =>
      refine ⟨rfl, ?_⟩
      rw [Path.steps_join hname] at h ⊢
      rw [Files.ensureDir] at h
      split at h
      · rename_i hmake
        cases h
        exact resolveSteps_of_makeDir hmake
      · split at h
        · cases h
        · split at h
          · rename_i hmake
            cases h
            exact resolveSteps_of_makeDir hmake
          · exact exists_of_settled h
      · exact exists_of_settled h

/-! ### Removing -/

/-- Where the steps lead is what the path finds, if it can be walked and has no closing slash. -/
theorem find_of_resolveSteps {node : Node} (room : p.HasRoom 0)
    (h : t.resolveSteps last p.steps = .ok (.occupied loc node)) :
    t.find last p = .ok (loc, node) := by
  refine find_eq_ok_iff.2 ⟨Path.checkText_of_hasRoom room, ?_⟩
  rw [Path.demandingSteps, room.noSlash]
  exact h

/-- A directory that a path leads to can be removed if the path ends in a name. Where that is a
link, it is the link that goes. -/
theorem LeadsTo.exists_removeDirAll (h : t.LeadsTo p loc)
    (hlast : p.steps.getLast? = some (.down name)) :
    ∃ t', Files.removeDirAll p t = .ok () t' := by
  obtain ⟨spot, hspot, hend⟩ := resolveSteps_itself h.resolveSteps
  rcases hend with rfl | ⟨loc', target, rfl⟩
  · -- After the clearing the walk ends at the directory again, and at no link.
    obtain ⟨spot, hcleared, hend⟩ := resolveSteps_itself h.way
    have hdir : spot = .occupied loc .dir := by
      refine hend.resolve_right ?_
      rintro ⟨loc', target, rfl⟩
      have hout : ¬Location.Inside loc loc' := by
        intro hin
        have hnode : (t.clear loc).node? loc' = some (.link target) := resolveSteps_isIn hcleared
        exact (takesFile_clear hin).ne_link target hnode
      have hsame := resolveSteps_frame (u := t) (fun _ hl => takesFile_clear hl)
        (fun _ hl => (node?_clear_of_not_inside hl).symm) hcleared hout
      cases hspot.symm.trans hsame
    have hentry : (t.clear loc).resolveEntry p = .ok (.occupied loc .dir) := by
      rw [FileTree.resolveEntry, Path.checkText_of_hasRoom h.room]
      exact hdir ▸ hcleared
    refine ⟨(t.clear loc).prune loc, ?_⟩
    rw [Files.removeDirAll, find_of_resolveSteps h.room hspot]
    simp only [Files.removeEmptied, hentry, hlast]
  · refine ⟨t.prune loc', ?_⟩
    rw [Files.removeDirAll, find_of_resolveSteps h.room hspot]

end PartitionStore.FileTree
