import PartitionStore.FileTree.Walk

/-!
# `PartitionStore.FileTree.Trail`: walks that remember the way

`FileTree.walk` looks every entry up from the top, which takes the longer the
deeper it is. A trail keeps the directories that a walk came through, so that
each step looks into one directory only.

* `walkWithin_eq`: walking along a trail leads where walking by locations leads.
-/

set_option autoImplicit false

namespace PartitionStore

/-- The way from the top to a directory, innermost first: the name of each
directory with what it holds. -/
abbrev Trail := List (String × Entries)

namespace Trail

/-- The location where a trail ends. -/
def loc (trail : Trail) : Location := trail.map Prod.fst

/-- What the directory holds where a trail ends. -/
def here (t : FileTree) : Trail → Entries
  | [] => t.top
  | (_, es) :: _ => es

/-- Walks steps downward from where a trail ends, as `FileTree.walk` does. -/
def walk (t : FileTree) (last : LastLink) (jump : Trail → List Step → Except IoError Spot) :
    Trail → List Step → Except IoError Spot
  | trail, [] => .ok (.occupied trail.loc .dir)
  | trail, .here :: rest => walk t last jump trail rest
  | trail, .up :: rest => walk t last jump trail.tail rest
  | trail, .down name :: rest =>
    if isEntryName name = false then .error .nameTooLong
    else match (here t trail).lookup name with
      | none => if rest = [] then .ok (.vacant trail.loc name) else .error .notFound
      | some (.dir, inside) => walk t last jump ((name, inside) :: trail) rest
      | some (.file data, _) =>
        if rest = [] then .ok (.occupied (name :: trail.loc) (.file data))
        else .error .notADirectory
      | some (.link target, _) =>
        if rest = [] ∧ last = .itself then .ok (.occupied (name :: trail.loc) (.link target))
        else if rest = [] ∧ last = .written ∧ target.endsWithSlash = true then do
          let _ ← jump (if target.isAbsolute then [] else trail) target.enclosingSteps
          .error .isADirectory
        else jump (if target.isAbsolute then [] else trail) (target.demandingSteps ++ rest)

/-- Walks steps from where a trail ends, following up to `links` symbolic links. -/
def walkWithin (t : FileTree) (last : LastLink) :
    (links : Nat) → Trail → List Step → Except IoError Spot
  | 0 => walk t last fun _ _ => .error .tooManyLinks
  | links + 1 => walk t last (walkWithin t last links)

/-! ### Both ways of walking lead to the same place -/

/-- The directories of a trail are those that the tree has at its locations. -/
def IsOf (t : FileTree) : Trail → Prop
  | [] => True
  | (name, es) :: outer => t.at? (name :: loc outer) = some (.dir, es) ∧ IsOf t outer

/-- The last directory of a trail holds what the tree has there. -/
theorem IsOf.at?_loc {t : FileTree} {trail : Trail} (h : IsOf t trail) :
    t.at? trail.loc = some (.dir, here t trail) := by
  cases trail with
  | nil => rfl
  | cons first outer => exact h.1

/-- To go up leaves a trail of the tree. -/
theorem IsOf.tail {t : FileTree} {trail : Trail} (h : IsOf t trail) : IsOf t trail.tail := by
  cases trail with
  | nil => trivial
  | cons first outer => exact h.2

/-- To go up leads to the location above. -/
theorem loc_tail (trail : Trail) : loc trail.tail = trail.loc.tail := by
  simp [loc, List.map_tail]

/-- A walk along a trail ends where that by locations ends, if it does so behind links. At each name
the trail has at hand what the other walk looks up from the top. -/
theorem walk_eq {t : FileTree} {last : LastLink}
    {jump : Trail → List Step → Except IoError Spot}
    {jumpTo : Location → List Step → Except IoError Spot} {trail : Trail} {steps : List Step}
    (htrail : IsOf t trail)
    (hjump : ∀ trail steps, IsOf t trail → jump trail steps = jumpTo trail.loc steps) :
    walk t last jump trail steps = t.walk last jumpTo trail.loc steps := by
  induction steps generalizing trail with
  | nil => rfl
  | cons step rest ih =>
    cases step with
    | here => exact ih htrail
    | up =>
      simp only [walk, FileTree.walk]
      rw [ih htrail.tail, loc_tail]
    | down name =>
      have hnode := FileTree.node?_cons_of_at? htrail.at?_loc name
      -- A link continues at the top or where it stands, and either is a trail of the tree.
      have start (target : Path) : IsOf t (if target.isAbsolute then [] else trail) ∧
          loc (if target.isAbsolute then [] else trail) =
            if target.isAbsolute then [] else trail.loc := by
        split
        · exact ⟨trivial, rfl⟩
        · exact ⟨htrail, rfl⟩
      simp only [walk, FileTree.walk]
      rw [hnode]
      cases hl : (here t trail).lookup name with
      | none => rfl
      | some there =>
        obtain ⟨node, inside⟩ := there
        cases node with
        | file data => rfl
        | dir =>
          have : IsOf t ((name, inside) :: trail) := by
            refine ⟨?_, htrail⟩
            rw [FileTree.at?_cons, htrail.at?_loc]
            exact hl
          exact congrArg _ (ih this)
        | link target =>
          simp only [Option.map_some, hjump _ _ (start target).1, (start target).2]

/-- Walking along a trail leads where walking by locations leads. -/
theorem walkWithin_eq {t : FileTree} {last : LastLink} {links : Nat} {trail : Trail}
    {steps : List Step} (htrail : IsOf t trail) :
    walkWithin t last links trail steps = t.walkWithin last links trail.loc steps := by
  induction links generalizing trail steps with
  | zero => exact walk_eq htrail fun _ _ _ => rfl
  | succ links ih => exact walk_eq htrail fun _ _ h => ih h

end Trail

end PartitionStore
