import PartitionStore.Proofs.FileTree.Outcomes

/-!
# `PartitionStore.Proofs.FileTree.Removing`: what removals leave to be found

A removal takes nodes away and puts none in their place (`Less.removeDirAll`, whether it
succeeds or not). A path that leads to a node afterwards led to the same node before, since
the walk meets no node that was not there (`Less.walkWithin`). So whatever a path does not
lead to stays out of its reach through any number of removals (`Less.exists_of_exists`).

If the way to what is removed does not lead through it, it is taken out of the tree with all that
is in it, and that is all (`NamesEntry.removeDirAll`). In any case a removal that succeeds
leaves its own path leading nowhere (`exists_of_removeDirAll`): where the emptied
directory had to be left behind it is the way there that is gone.
-/

set_option autoImplicit false

namespace PartitionStore.FileTree

variable {t u v : FileTree} {last : LastLink} {start loc : Location} {steps : List Step}
  {node : Node} {links : Nat} {p : Path} {name : String}

/-- All nodes of `u` are nodes of `t`. -/
def Less (t u : FileTree) : Prop := ∀ l, u.node? l = t.node? l ∨ u.node? l = none

namespace Less

/-- All nodes of a tree are its own. -/
theorem refl (t : FileTree) : Less t t := fun _ => .inl rfl

/-- What has less than less has less. -/
theorem trans (h : Less t u) (h' : Less u v) : Less t v := by
  intro l
  rcases h' l with e | hnone
  · rw [e]
    exact h l
  · exact .inr hnone

/-- Clearing a directory leaves less. -/
theorem clear (t : FileTree) (loc : Location) : Less t (t.clear loc) := by
  intro l
  rw [node?_clear]
  split
  · exact .inr rfl
  · exact .inl rfl

/-- Removing a node leaves less. -/
theorem prune (t : FileTree) (loc : Location) : Less t (t.prune loc) := by
  intro l
  by_cases hl : l = []
  · rw [hl]
    exact .inl rfl
  · rw [node?_prune t loc l hl]
    split
    · exact .inr rfl
    · exact .inl rfl

/-- To remove an emptied directory leaves less, or the same where that fails. -/
theorem removeEmptied (p : Path) (loc : Location) (t : FileTree) :
    Less t (Action.after (Files.removeEmptied p loc t)) := by
  rw [Files.removeEmptied]
  repeat' split
  all_goals first | exact refl t | exact prune t loc

/-- What a removal leaves of the tree was there before, whether it succeeds or not. -/
theorem removeDirAll (p : Path) (t : FileTree) :
    Less t (Action.after (Files.removeDirAll p t)) := by
  rw [Files.removeDirAll]
  split
  · exact refl t
  · exact refl t
  · exact prune t _
  · exact (clear t _).trans (removeEmptied p _ _)

/-- A walk that ends at a node of what is left ended there before: each directory, file and link on
its way was there already. -/
theorem walk {jump jump' : Location → List Step → Except IoError Spot} (less : Less t u)
    (hjump : ∀ start steps, jump start steps = .ok (.occupied loc node) →
      jump' start steps = .ok (.occupied loc node))
    (h : u.walk last jump start steps = .ok (.occupied loc node)) :
    t.walk last jump' start steps = .ok (.occupied loc node) := by
  induction steps generalizing start with
  | nil => exact h
  | cons step rest ih =>
      cases step with
      | here => exact ih h
      | up => exact ih h
      | down name =>
          obtain ⟨usable, down⟩ := walk_down_eq_ok_iff.1 h
          have there {inner : Node} (hinner : u.node? (name :: start) = some inner) :
              t.node? (name :: start) = some inner := by
            rcases less (name :: start) with hsame | hnone
            · exact hsame ▸ hinner
            · cases hinner.symm.trans hnone
          refine walk_down_eq_ok_iff.2 ⟨usable, ?_⟩
          cases down with
          | vacant _ _ here => cases here
          | dir isDir goesOn => exact .dir (there isDir) (ih goesOn)
          | file isFile atEnd here => exact .file (there isFile) atEnd here
          | itself isLink atEnd here => exact .itself (there isLink) atEnd here
          | link isLink notItself notWritten follows =>
              exact .link (there isLink) notItself notWritten (hjump _ _ follows)

/-- What a walk finds among the nodes that are left it found before. -/
theorem walkWithin (less : Less t u)
    (h : u.walkWithin last links start steps = .ok (.occupied loc node)) :
    t.walkWithin last links start steps = .ok (.occupied loc node) := by
  induction links generalizing start steps with
  | zero => exact less.walk (fun _ _ h => by simp at h) h
  | succ links ih => exact less.walk (fun _ _ h => ih h) h

/-- So do steps from the top. -/
theorem resolveSteps (less : Less t u)
    (h : u.resolveSteps last steps = .ok (.occupied loc node)) :
    t.resolveSteps last steps = .ok (.occupied loc node) := by
  rw [resolveSteps_eq] at h ⊢
  exact less.walkWithin h

/-- What a path leads to in what is left it led to before. -/
theorem find (less : Less t u) (h : u.find last p = .ok (loc, node)) :
    t.find last p = .ok (loc, node) := by
  rw [find_eq_ok_iff] at h ⊢
  exact ⟨h.1, less.resolveSteps h.2⟩

/-- A path that leads to something among the nodes that are left led there before. -/
theorem exists_of_exists (less : Less t u) (h : u.exists p = true) : t.exists p = true := by
  rw [FileTree.exists] at h ⊢
  cases hfind : u.find .followed p with
  | error e =>
      rw [hfind] at h
      cases h
  | ok found =>
      rw [less.find hfind]
      rfl

/-- So a path that led to nothing still leads to nothing. -/
theorem exists_eq_false (less : Less t u) (h : t.exists p = false) : u.exists p = false := by
  rw [← Bool.not_eq_true] at h ⊢
  exact mt less.exists_of_exists h

/-- What a path names among the directories that are left it named before. -/
theorem namesEntry {parent : Location} (less : Less t u) (named : u.NamesEntry p parent name) :
    t.NamesEntry p parent name := by
  obtain ⟨front, hsteps, hfront⟩ := named.way
  exact ⟨named.text, named.noSlash, named.usable, front, hsteps, less.resolveSteps hfront⟩

/-- Where there were no links there are none in what is left. -/
theorem linkFree (less : Less t u) (free : t.LinkFree loc) : u.LinkFree loc := by
  intro l target hl
  rcases less l with e | hnone
  · rw [e]
    exact free l target hl
  · simp [hnone]

end Less

/-- Where the way to an entry is there also without the entry, removing it is taking it out of the
tree. -/
theorem NamesEntry.removeDirAll {parent : Location}
    (named : (t.prune (name :: parent)).NamesEntry p parent name)
    (hnode : t.node? (name :: parent) = some .dir ∨
      ∃ target, t.node? (name :: parent) = some (.link target)) :
    Files.removeDirAll p t = .ok () (t.prune (name :: parent)) := by
  have before := (Less.prune t (name :: parent)).namesEntry named
  rcases hnode with hdir | ⟨target, hlink⟩
  · -- The directory is cleared first, and looked up again: that is the entry still.
    have hsame : (t.clear (name :: parent)).prune (name :: parent) = t.prune (name :: parent) :=
      ext_node? fun l => by rw [node?_prune_clear, node?_prune_cons]
    have hcleared : (t.clear (name :: parent)).node? (name :: parent) = some .dir := by
      rw [node?_clear_of_not_inside fun hin => hin.2 rfl, hdir]
    have hentry := ((Less.prune (t.clear (name :: parent)) (name :: parent)).namesEntry
      (hsame ▸ named)).resolveEntry
    rw [hcleared] at hentry
    obtain ⟨front, hsteps, -⟩ := named.way
    have hlast : p.steps.getLast? = some (.down name) := by
      rw [hsteps]
      simp
    rw [Files.removeDirAll, before.find .itself hdir fun hne => absurd rfl hne]
    simp only [Files.removeEmptied, hentry, hlast, hsame]
  · rw [Files.removeDirAll, before.find .itself hlink fun hne => absurd rfl hne]

/-! ### Removing at several places -/

/-- The tree without what is at the locations or below them. -/
def without (t : FileTree) (locs : List Location) : FileTree := locs.foldl prune t

/-- To take the last location away is to remove it after all others. -/
theorem without_concat (t : FileTree) (locs : List Location) (loc : Location) :
    t.without (locs ++ [loc]) = (t.without locs).prune loc := by
  rw [without, List.foldl_append]
  rfl

/-- What is left without some locations is less. -/
theorem Less.without (t : FileTree) (locs : List Location) : Less t (t.without locs) := by
  induction locs generalizing t with
  | nil => exact .refl t
  | cons loc locs ih => exact (Less.prune t loc).trans (ih _)

/-- What is removed at more places is left less of. -/
theorem Less.without_append (t : FileTree) (locs more : List Location) :
    Less (t.without locs) (t.without (locs ++ more)) := by
  rw [FileTree.without, FileTree.without, List.foldl_append]
  exact .without _ more

/-- Exactly what is at or below one of the locations is gone. -/
theorem node?_without {locs : List Location} (hlocs : [] ∉ locs) (t : FileTree) (l : Location) :
    (t.without locs).node? l = if ∃ loc ∈ locs, loc <:+ l then none else t.node? l := by
  induction locs generalizing t with
  | nil =>
      rw [if_neg (by simp)]
      rfl
  | cons loc locs ih =>
      rw [List.mem_cons, not_or] at hlocs
      obtain ⟨name, parent, rfl⟩ := List.exists_cons_of_ne_nil (Ne.symm hlocs.1)
      show ((t.prune (name :: parent)).without locs).node? l = _
      rw [ih hlocs.2, node?_prune_cons]
      simp only [List.mem_cons, exists_eq_or_imp]
      by_cases hfirst : name :: parent <:+ l
      · rw [if_pos hfirst, ite_self, if_pos (.inl hfirst)]
      · rw [if_neg hfirst]
        simp only [hfirst, false_or]

/-! ### What is found after a removal -/

/-- A path that leads to something, links followed, and ends in a name has an entry of that name at
its end. -/
theorem exists_entry_of_exists (hlast : p.steps.getLast? = some (.down name))
    (hslash : p.endsWithSlash = false) (h : t.exists p = true) :
    ∃ loc node, t.resolveEntry p = .ok (.occupied loc node) := by
  have htext := checkText_of_exists h
  obtain ⟨loc, node, hspot⟩ : ∃ loc node,
      t.resolveSteps .followed p.steps = .ok (.occupied loc node) := by
    rw [FileTree.exists, FileTree.find, FileTree.resolve, Path.demandingSteps, hslash, htext] at h
    cases hspot : t.resolveSteps .followed p.steps with
    | error e => simp [hspot, bind, Except.bind, Except.isOk, Except.toBool] at h
    | ok spot =>
        cases spot with
        | occupied loc node => exact ⟨loc, node, rfl⟩
        | vacant parent name => simp [hspot, bind, Except.bind, Except.isOk, Except.toBool] at h
  have hentry : t.resolveEntry p = t.resolveSteps .itself p.steps := by
    rw [FileTree.resolveEntry, htext]
    rfl
  rw [hentry]
  -- The way to the last name is the same, whatever becomes of a link there.
  obtain ⟨front, hsteps⟩ := List.getLast?_eq_some_iff.1 hlast
  rw [hsteps] at hspot ⊢
  obtain ⟨parent, hfront⟩ := exists_resolveSteps_of_append (List.cons_ne_nil _ []) hspot
  cases hname : isEntryName name with
  | false => cases (resolveSteps_down_of_unusable .followed hfront hname).symm.trans hspot
  | true =>
      rw [resolveSteps_down .itself hfront hname fun hne => absurd rfl hne]
      cases hnode : t.node? (name :: parent) with
      | some entry => exact ⟨_, _, rfl⟩
      | none =>
          rw [resolveSteps_down .followed hfront hname (by simp [hnode]), hnode] at hspot
          cases hspot

/-- Once what a path leads to was removed, the path leads nowhere. -/
theorem exists_of_removeDirAll (hlast : p.steps.getLast? = some (.down name))
    (hslash : p.endsWithSlash = false) (h : Files.removeDirAll p t = .ok () u) :
    u.exists p = false := by
  rw [← Bool.not_eq_true]
  intro hthere
  obtain ⟨loc, node, hentry⟩ := exists_entry_of_exists hlast hslash hthere
  have less : Less t u := by
    have hafter := Less.removeDirAll p t
    rwa [h] at hafter
  have hfind : t.find .itself p = .ok (loc, node) :=
    less.find ((find_itself_eq_ok_iff hslash).2 hentry)
  have hnode : u.node? loc = some node :=
    resolveSteps_isIn (resolveSteps_of_resolveEntry hentry).2
  -- If the path still led somewhere, it would lead there in the larger tree too; but that place was
  -- emptied and taken away.
  have hgone : u.node? loc = none ∨ u.resolveEntry p = .error .notFound := by
    obtain ⟨parent, hloc⟩ := exists_loc_eq_cons hlast (resolveSteps_of_resolveEntry hentry).2
    obtain rfl : loc = name :: parent := hloc
    rw [Files.removeDirAll, hfind] at h
    cases node with
    | file data => cases h
    | link target =>
        cases h
        exact .inl (by rw [node?_prune_cons, if_pos (List.suffix_refl _)])
    | dir =>
        simp only [Files.removeEmptied, hlast] at h
        split at h
        · rename_i hnot
          cases h
          exact .inr hnot
        · cases h
        · cases h
        · cases h
          exact .inl (by rw [node?_prune_cons, if_pos (List.suffix_refl _)])
  rcases hgone with hnone | hnot
  · cases hnode.symm.trans hnone
  · cases hentry.symm.trans hnot

end PartitionStore.FileTree
