import PartitionStore.Proofs.FileTree.Existing
import PartitionStore.Proofs.Respects

/-!
# `PartitionStore.Proofs.FileTree.Shape`: trees that differ in what files hold

Two trees have the same shape if they have the same directories and links, and files in the same
places. Where a path leads depends on the shape alone, and so does what making and removing
directories comes to: both answer the same in trees of one shape, and leave trees of one shape.
-/

set_option autoImplicit false

namespace PartitionStore

open PartitionStore.Action

namespace FileTree

/-- The trees have the same nodes, but for what their files hold. -/
def SameShape (t u : FileTree) : Prop :=
  ∀ loc, u.node? loc = t.node? loc ∨
    ∃ data data', t.node? loc = some (.file data) ∧ u.node? loc = some (.file data')

/-- Both lead to the same, or to a file of the same place. -/
def SameSpot (x y : Except IoError Spot) : Prop :=
  y = x ∨ ∃ loc data data',
    x = .ok (.occupied loc (.file data)) ∧ y = .ok (.occupied loc (.file data'))

variable {t u : FileTree} {last : LastLink} {loc parent : Location} {steps : List Step}
  {name : String}

/-! ### Where paths lead -/

/-- A walk in trees of one shape ends alike. At each name both trees have nothing, a directory, a
file or the same link, and which it is decides how the walk goes on. -/
theorem SameShape.walk (h : SameShape t u)
    {jump jump' : Location → List Step → Except IoError Spot}
    (hjump : ∀ loc steps, SameSpot (jump loc steps) (jump' loc steps)) (loc : Location)
    (steps : List Step) : SameSpot (t.walk last jump loc steps) (u.walk last jump' loc steps) := by
  induction steps generalizing loc with
  | nil => exact .inl rfl
  | cons step rest ih =>
      cases step with
      | here => exact ih loc
      | up => exact ih loc.tail
      | down name =>
          simp only [FileTree.walk]
          by_cases hname : isEntryName name = false
          · rw [if_pos hname, if_pos hname]
            exact .inl rfl
          rw [if_neg hname, if_neg hname]
          rcases h (name :: loc) with hsame | ⟨data, data', hfile, hfile'⟩
          · rw [hsame]
            cases t.node? (name :: loc) with
            | none => exact .inl rfl
            | some node =>
                cases node with
                | dir => exact ih (name :: loc)
                | file data => exact .inl rfl
                | link target =>
                    simp only
                    split
                    · exact .inl rfl
                    · split
                      · -- Only whether the directory around the last name is there counts.
                        rcases hjump (if target.isAbsolute then [] else loc)
                          target.enclosingSteps with hsame | ⟨l, data, data', hx, hy⟩
                        · rw [hsame]
                          exact .inl rfl
                        · rw [hx, hy]
                          exact .inl rfl
                      · exact hjump _ _
          · -- At a file a walk ends, whatever the file holds.
            rw [hfile, hfile']
            simp only
            split
            · exact .inr ⟨_, _, _, rfl, rfl⟩
            · exact .inl rfl

/-- So does a walk that follows links, by induction on how many are left. -/
theorem SameShape.walkWithin (h : SameShape t u) (links : Nat) (loc : Location)
    (steps : List Step) :
    SameSpot (t.walkWithin last links loc steps) (u.walkWithin last links loc steps) := by
  induction links generalizing loc steps with
  | zero => exact h.walk (fun _ _ => .inl rfl) loc steps
  | succ links ih => exact h.walk ih loc steps

/-- So do steps from the top. -/
theorem SameShape.resolveSteps (h : SameShape t u) (last : LastLink) (steps : List Step) :
    SameSpot (t.resolveSteps last steps) (u.resolveSteps last steps) := by
  rw [resolveSteps_eq, resolveSteps_eq]
  exact h.walkWithin maxLinks [] steps

/-- So does a path, which is refused for its text in both trees or in neither. -/
theorem SameShape.resolveEntry (h : SameShape t u) (p : Path) :
    SameSpot (t.resolveEntry p) (u.resolveEntry p) := by
  rw [FileTree.resolveEntry, FileTree.resolveEntry]
  cases checkText p with
  | error e => exact .inl (by simp only [bind, Except.bind])
  | ok _ =>
      simp only [bind, Except.bind]
      exact h.resolveSteps .itself p.steps

/-- What is found is the same, or a file of the same place. -/
theorem SameShape.find (h : SameShape t u) (last : LastLink) (p : Path) :
    u.find last p = t.find last p ∨ ∃ loc data data',
      t.find last p = .ok (loc, .file data) ∧ u.find last p = .ok (loc, .file data') := by
  rw [FileTree.find, FileTree.find, resolve, resolve]
  cases checkText p with
  | error e => exact .inl (by simp only [bind, Except.bind])
  | ok _ =>
      rcases h.resolveSteps last p.demandingSteps with hsame | ⟨loc, data, data', hx, hy⟩
      · exact .inl (congrArg (· >>= _) hsame)
      · simp only [bind, Except.bind, hx, hy]
        exact .inr ⟨loc, data, data', rfl, rfl⟩

/-! ### Changes -/

/-- Trees have one shape if they have the same nodes wherever they differ from two that do. -/
theorem SameShape.of_node?_eq {t' u' : FileTree} (h : SameShape t u)
    (hnodes : ∀ loc, (t'.node? loc = u'.node? loc) ∨
      (t'.node? loc = t.node? loc ∧ u'.node? loc = u.node? loc)) : SameShape t' u' := by
  intro loc
  rcases hnodes loc with hsame | ⟨ht, hu⟩
  · exact .inl hsame.symm
  · rw [ht, hu]
    exact h loc

/-- Trees of one shape still have one when the same directory is cleared in both. -/
theorem SameShape.clear (h : SameShape t u) (loc : Location) :
    SameShape (t.clear loc) (u.clear loc) := by
  refine h.of_node?_eq fun l => ?_
  rw [node?_clear, node?_clear]
  split
  · exact .inl rfl
  · exact .inr ⟨rfl, rfl⟩

/-- Trees of one shape still have one when the same node is removed from both. -/
theorem SameShape.prune (h : SameShape t u) (loc : Location) :
    SameShape (t.prune loc) (u.prune loc) := by
  refine h.of_node?_eq fun l => ?_
  by_cases hl : l = []
  · rw [hl]
    exact .inl rfl
  rw [node?_prune _ _ _ hl, node?_prune _ _ _ hl]
  split
  · exact .inl rfl
  · exact .inr ⟨rfl, rfl⟩

/-- A node that finds its place in one tree finds it in the other. -/
theorem SameShape.place (h : SameShape t u) (usable : isEntryName name = true)
    (hparent : t.node? parent = some .dir) (hparent' : u.node? parent = some .dir)
    (hnone : t.node? (name :: parent) = none) (hnone' : u.node? (name :: parent) = none)
    (node : Node) : SameShape (t.place parent name node) (u.place parent name node) := by
  refine h.of_node?_eq fun l => ?_
  by_cases hl : l = name :: parent
  · rw [hl, node?_place_self usable hparent (by simp [hnone]),
      node?_place_self usable hparent' (by simp [hnone'])]
    exact .inl rfl
  · exact .inr ⟨node?_place_of_ne _ _ _ _ hl, node?_place_of_ne _ _ _ _ hl⟩

/-- One file in the place of another leaves the shape as it is. -/
theorem sameShape_place_file (usable : isEntryName name = true)
    (hparent : t.node? parent = some .dir) (hold : t.node? (name :: parent) ≠ some .dir)
    (data data' : Bytes) :
    SameShape (t.place parent name (.file data)) (t.place parent name (.file data')) := by
  intro l
  by_cases hl : l = name :: parent
  · rw [hl, node?_place_self usable hparent hold, node?_place_self usable hparent hold]
    exact .inr ⟨data, data', rfl, rfl⟩
  · rw [node?_place_of_ne _ _ _ _ hl, node?_place_of_ne _ _ _ _ hl]
    exact .inl rfl

/-- A directory is made in both trees or in neither, and then in the same place. -/
theorem SameShape.makeDir (h : SameShape t u) (steps : List Step) :
    Agree SameShape (t.makeDir steps) (u.makeDir steps) := by
  rw [FileTree.makeDir, FileTree.makeDir]
  rcases h.resolveSteps .itself steps with hsame | ⟨loc, data, data', hx, hy⟩
  · rw [hsame]
    refine .bind fun spot hspot => ?_
    cases spot with
    | occupied loc node => exact .error _
    | vacant parent name =>
        obtain ⟨usable, hparent, hnone⟩ := resolveSteps_isIn hspot
        obtain ⟨-, hparent', hnone'⟩ := resolveSteps_isIn (hsame.trans hspot)
        exact .ok (h.place usable hparent hparent' hnone hnone' .dir)
  · rw [hx, hy]
    exact .error _

/-! ### Making and removing directories -/

/-- Whether a directory is there after all is seen alike in both trees. -/
theorem respects_settleDir_shape (steps : List Step) (e : IoError) :
    Respects SameShape (settleDir steps e) := by
  intro t u h
  rw [settleDir, settleDir]
  rcases h.resolveSteps .followed steps with hsame | ⟨loc, data, data', hx, hy⟩
  · rw [hsame]
    split <;> exact ⟨rfl, h⟩
  · rw [hx, hy]
    exact ⟨rfl, h⟩

/-- A directory with those above it is made alike, if those above it are. -/
theorem respects_ensureDir_shape {parents : Files Unit} (hparents : Respects SameShape parents)
    (steps : List Step) : Respects SameShape (Files.ensureDir steps parents) := by
  intro t u h
  rw [Files.ensureDir, Files.ensureDir]
  rcases (h.makeDir steps).cases with ⟨t', u', ht, hu, h'⟩ | ⟨e, ht, hu⟩
  · simp only [ht, hu]
    exact ⟨rfl, h'⟩
  by_cases he : e = .notFound
  · subst he
    simp only [ht, hu]
    rcases hparents.cases h with ⟨_, t₁, u₁, ht₁, hu₁, h₁⟩ | ⟨e, t₁, u₁, ht₁, hu₁, h₁⟩
    · rw [ht₁, hu₁]
      rcases (h₁.makeDir steps).cases with ⟨t₂, u₂, ht₂, hu₂, h₂⟩ | ⟨e, ht₂, hu₂⟩
      · simp only [ht₂, hu₂]
        exact ⟨rfl, h₂⟩
      · simp only [ht₂, hu₂]
        exact respects_settleDir_shape steps e t₁ u₁ h₁
    · rw [ht₁, hu₁]
      exact ⟨rfl, h₁⟩
  · simp only [ht, hu]
    exact respects_settleDir_shape steps e t u h

/-- So are all directories of a path, by induction on its steps from the inside out. -/
theorem respects_ensureDirs_shape (outer : List Step) :
    Respects SameShape (Files.ensureDirs outer) := by
  induction outer with
  | nil => exact respects_pure _ ()
  | cons step outer ih => exact respects_ensureDir_shape ih _

/-- So is whatever a path needs. -/
theorem respects_createDirAll_shape (p : Path) : Respects SameShape (Files.createDirAll p) := by
  rw [Files.createDirAll]
  refine respects_ite (respects_pure _ ()) (.bind (Files.respects_ask fun _ _ _ => rfl) fun _ => ?_)
  exact respects_ensureDir_shape (respects_ensureDirs_shape _) _

/-- An emptied directory goes from both trees or stays in both: its path leads to the same place. -/
theorem respects_removeEmptied_shape (p : Path) (loc : Location) :
    Respects SameShape (Files.removeEmptied p loc) := by
  intro t u h
  rw [Files.removeEmptied, Files.removeEmptied]
  rcases h.resolveEntry p with hsame | ⟨l, data, data', hx, hy⟩
  · rw [hsame]
    split
    · exact ⟨rfl, h⟩
    · exact ⟨rfl, h⟩
    · exact ⟨rfl, h⟩
    · split
      · exact ⟨rfl, h.prune loc⟩
      all_goals exact ⟨rfl, h⟩
  · rw [hx, hy]
    simp only
    split
    · exact ⟨rfl, h.prune loc⟩
    all_goals exact ⟨rfl, h⟩

/-- A directory is removed with everything in it from both trees or from neither. -/
theorem respects_removeDirAll_shape (p : Path) : Respects SameShape (Files.removeDirAll p) := by
  intro t u h
  rw [Files.removeDirAll, Files.removeDirAll]
  rcases h.find .itself p with hsame | ⟨loc, data, data', hx, hy⟩
  · rw [hsame]
    split
    · exact ⟨rfl, h⟩
    · exact ⟨rfl, h⟩
    · exact ⟨rfl, h.prune _⟩
    · exact respects_removeEmptied_shape p _ _ _ (h.clear _)
  · rw [hx, hy]
    exact ⟨rfl, h⟩

end FileTree

end PartitionStore
