import PartitionStore.Proofs.FileTree.Outcomes

/-!
# `PartitionStore.Proofs.FileTree.OnWay`: trees without symbolic links

Where there are no links, where a path leads can be read off its steps: each step down adds a
name and each step up takes one away (`Location.follow`). The same goes for the directories that
are made for a path: they are all on its way (`OnWay`), one for each front of its steps.

* `loc_eq_follow`: steps that lead anywhere lead to where they go.
* `pointsTo_follow`: so a path points there.
* `grownAt_createDirAll`: making a directory makes directories on the way to it only.
-/

set_option autoImplicit false

namespace PartitionStore

/-- Where one step goes from a location. -/
def Location.step : Location → Step → Location
  | loc, .here => loc
  | loc, .up => loc.tail
  | loc, .down name => name :: loc

/-- Where steps go from the top. -/
def Location.follow (steps : List Step) : Location := steps.foldl Location.step []

namespace FileTree

/-- The location is on the way of the path: a front of the path's steps goes there. -/
def OnWay (p : Path) (l : Location) : Prop := ∃ front, front <+: p.steps ∧ l = Location.follow front

/-- The second tree has everything that the first one has, and maybe more directories, which are at
places of `S`. -/
def GrownAt (S : Location → Prop) (t u : FileTree) : Prop :=
  ∀ l, u.node? l = t.node? l ∨ t.node? l = none ∧ u.node? l = some .dir ∧ S l

variable {t u v : FileTree} {p : Path} {start : Location} {steps : List Step} {spot : Spot}
  {last : LastLink} {links : Nat} {name : String} {S S' : Location → Prop}

/-! ### Where steps lead -/

/-- A walk that leads anywhere leads to where its steps go: without links it makes no jump. -/
theorem walk_loc {jump : Location → List Step → Except IoError Spot} (free : t.LinkFree [])
    (h : t.walk last jump start steps = .ok spot) : spot.loc = steps.foldl Location.step start := by
  induction steps generalizing start with
  | nil =>
      cases h
      rfl
  | cons step rest ih =>
      cases step with
      | here => exact ih h
      | up => exact ih h
      | down name =>
          -- A walk that ends at the name is at the end of its steps.
          cases (walk_down_eq_ok_iff.1 h).2 with
          | vacant _ atEnd here | file _ atEnd here =>
              rw [atEnd, here]
              rfl
          | dir _ goesOn => exact ih goesOn
          | itself isLink | link isLink => exact absurd isLink (free _ _ List.nil_suffix)

/-- Steps that lead anywhere lead to where they go. -/
theorem loc_eq_follow (free : t.LinkFree []) (h : t.resolveSteps last steps = .ok spot) :
    spot.loc = Location.follow steps := by
  rw [resolveSteps_eq] at h
  cases hlinks : maxLinks with
  | zero =>
      rw [hlinks] at h
      exact walk_loc free h
  | succ links =>
      rw [hlinks] at h
      exact walk_loc free h

/-- The course of steps is where they go, whether anything is there or not. -/
theorem course_of_linkFree {jump : Location → List Step → Option Location} (free : t.LinkFree []) :
    t.course jump start steps = some (steps.foldl Location.step start) := by
  induction steps generalizing start with
  | nil => rfl
  | cons step rest ih =>
      cases step with
      | here => exact ih
      | up => exact ih
      | down name =>
          rw [course]
          split
          · rename_i target hlink
            exact absurd hlink (free _ target List.nil_suffix)
          · exact ih

/-- A path points to where its steps go. -/
theorem pointsTo_follow (free : t.LinkFree []) (p : Path) :
    t.PointsTo p (Location.follow p.steps) := by
  rw [PointsTo]
  cases maxLinks with
  | zero => exact course_of_linkFree free
  | succ links => exact course_of_linkFree free

/-! ### Steps that stay -/

/-- To stay adds nothing. -/
theorem follow_filter (steps : List Step) :
    Location.follow (steps.filter (· != .here)) = Location.follow steps := by
  rw [Location.follow, Location.follow, List.foldl_filter]
  congr 1
  funext loc step
  cases step <;> rfl

/-- What is on the way without the steps that stay is on the way. -/
theorem onWay_of_prefix_properSteps {front : List Step} (h : front <+: p.properSteps) :
    OnWay p (Location.follow front) := by
  obtain ⟨front', hfront', rfl⟩ := List.prefix_filter_iff.1 h
  exact ⟨front', hfront', follow_filter front'⟩

/-- A step down goes to a name out of the path's text. -/
theorem mem_text_of_mem_steps (h : .down name ∈ p.steps) {c : Char} (hc : c ∈ name.toList) :
    c ∈ p.text.toList := by
  obtain ⟨piece, hpiece, hstep⟩ := List.mem_filterMap.1 h
  have hname : name = String.ofList piece := by
    unfold Step.ofPiece? at hstep
    split at hstep <;> cases hstep
    rfl
  rw [hname, String.toList_ofList] at hc
  exact Text.mem_of_mem_pieces hpiece hc

/-- Where steps go there are no names but those of where they start and their own. -/
theorem mem_of_mem_foldl_step (h : name ∈ steps.foldl Location.step start) :
    name ∈ start ∨ .down name ∈ steps := by
  induction steps generalizing start with
  | nil => exact .inl h
  | cons step rest ih =>
      rcases ih h with hstart | hrest
      · cases step with
        | here => exact .inl hstart
        | up => exact .inl (List.mem_of_mem_tail hstart)
        | down other =>
            rcases List.mem_cons.1 hstart with rfl | hstart
            · exact .inr (List.mem_cons_self ..)
            · exact .inl hstart
      · exact .inr (List.mem_cons_of_mem _ hrest)

/-- The names on the way of a path are texts. -/
theorem mark_not_mem_of_onWay {l : Location} (htext : checkText p = .ok ()) (h : OnWay p l)
    (hname : name ∈ l) : FileName.mark ∉ name.toList := by
  obtain ⟨front, hfront, rfl⟩ := h
  have hstep : .down name ∈ front := (mem_of_mem_foldl_step hname).resolve_left (by simp)
  exact fun hmark => (Path.checkText_eq_ok_iff.1 htext).1
    (mem_text_of_mem_steps (hfront.subset hstep) hmark)

/-- Where a path leads to a directory all that is on its way are directories. -/
theorem isDir_of_onWay (free : t.LinkFree []) {loc l : Location}
    (hway : t.resolveSteps .followed p.steps = .ok (.occupied loc .dir)) (h : OnWay p l) :
    t.node? l = some .dir := by
  obtain ⟨front, ⟨rest, hsteps⟩, rfl⟩ := h
  obtain ⟨place, hplace⟩ :
      ∃ place, t.resolveSteps .followed front = .ok (.occupied place .dir) := by
    cases rest with
    | nil => exact ⟨loc, by rwa [← List.append_nil front, hsteps]⟩
    | cons step rest => exact exists_resolveSteps_of_append (List.cons_ne_nil _ _) (hsteps ▸ hway)
  have hloc : place = Location.follow front := loc_eq_follow free hplace
  rw [← hloc]
  exact resolveSteps_isIn hplace

/-! ### Making directories -/

namespace GrownAt

/-- No directory is new. -/
theorem refl (S : Location → Prop) (t : FileTree) : GrownAt S t t := fun _ => .inl rfl

/-- Directories that are new at some places are new. -/
theorem grown (h : GrownAt S t u) : Grown t u := fun l =>
  (h l).imp id fun ⟨hnone, hdir, _⟩ => ⟨hnone, hdir⟩

/-- What is new at some places is so at more of them. -/
theorem mono (h : GrownAt S t u) (hsub : ∀ l, S l → S' l) : GrownAt S' t u := fun l =>
  (h l).imp id fun ⟨hnone, hdir, hS⟩ => ⟨hnone, hdir, hsub l hS⟩

/-- New directories and then new ones, all at some places, are new ones at these. -/
theorem trans (h : GrownAt S t u) (h' : GrownAt S u v) : GrownAt S t v := by
  intro l
  rcases h' l with e | ⟨hnone, hdir, hS⟩
  · rw [e]
    exact h l
  · rcases h l with e | ⟨-, hdir', -⟩
    · exact .inr ⟨e ▸ hnone, hdir, hS⟩
    · cases hnone.symm.trans hdir'

end GrownAt

/-- The directory that is made is where the steps go. -/
theorem grownAt_makeDir (free : t.LinkFree []) (h : t.makeDir steps = .ok u) :
    GrownAt (· = Location.follow steps) t u := by
  cases hspot : t.resolveSteps .itself steps with
  | error e => simp [makeDir, hspot, bind, Except.bind] at h
  | ok spot =>
      cases spot with
      | occupied loc node => simp [makeDir, hspot, bind, Except.bind] at h
      | vacant parent name =>
          obtain ⟨hname, hparent, hnone⟩ := resolveSteps_isIn hspot
          have hloc : name :: parent = Location.follow steps := loc_eq_follow free hspot
          simp only [makeDir, hspot, bind, Except.bind, Except.ok.injEq] at h
          subst h
          intro l
          by_cases hl : l = name :: parent
          · rw [hl]
            exact .inr ⟨hnone, node?_place_self hname hparent (by simp [hnone]), hloc⟩
          · exact .inl (node?_place_of_ne _ _ _ _ hl)

/-- Making a directory makes directories on the way to it, and changes nothing else. -/
theorem grownAt_createDirAll (free : t.LinkFree []) (p : Path) :
    GrownAt (OnWay p) t (Action.after (Files.createDirAll p t)) := by
  -- No links come of it, so each single directory is made where its steps go.
  refine rel_createDirAll (R := fun t u => t.LinkFree [] → GrownAt (OnWay p) t u)
    (fun t _ => .refl _ t) (fun h h' free => ?_) (fun front hfront hmake free => ?_) t free
  · exact (h free).trans (h' (free.congr (h free).grown.sameLinks))
  · refine (grownAt_makeDir free hmake).mono fun l hl => hl ▸ ?_
    rcases hfront with hfront | rfl
    · exact onWay_of_prefix_properSteps hfront
    · exact ⟨_, List.prefix_refl _, rfl⟩

end FileTree

end PartitionStore
