import PartitionStore.FileTree.Resolve

/-!
# `PartitionStore.Proofs.FileTree.Frame`: what a walk does not depend on

A walk looks at the entries on its way and at no others. So where the way
leads is the same in every tree that has the same nodes on it.

The way itself is not a value of the model. What stands in for it is a set of
locations where no walk gets any further, because there is nothing, or a file.
A walk that succeeds elsewhere did not touch them, and they may become anything
(`resolveSteps_frame`).
-/

set_option autoImplicit false

namespace PartitionStore

/-- The location that a spot is about. -/
def Spot.loc : Spot → Location
  | .occupied loc _ => loc
  | .vacant parent name => name :: parent

namespace FileTree

/-- At `loc` there is nothing, or a file: a file can be written there, and no walk goes on. -/
def TakesFile (t : FileTree) (loc : Location) : Prop :=
  t.node? loc = none ∨ ∃ data, t.node? loc = some (.file data)

/-- A free place takes a file. -/
theorem takesFile_of_none {t : FileTree} {loc : Location} (h : t.node? loc = none) :
    t.TakesFile loc := .inl h

/-- A place that takes a file has no directory. -/
theorem TakesFile.ne_dir {t : FileTree} {loc : Location} (h : t.TakesFile loc) :
    t.node? loc ≠ some .dir := by
  rcases h with h | ⟨data, h⟩ <;> simp [h]

/-- A place that takes a file has no link. -/
theorem TakesFile.ne_link {t : FileTree} {loc : Location} (h : t.TakesFile loc) (target : Path) :
    t.node? loc ≠ some (.link target) := by
  rcases h with h | ⟨data, h⟩ <;> simp [h]

/-- The place takes a file in either tree, and all else is the same in both. -/
structure Beside (w : Location) (t u : FileTree) : Prop where
  takes : t.TakesFile w
  takes' : u.TakesFile w
  same : ∀ l, l ≠ w → u.node? l = t.node? l

/-- What is beside a place in one tree is so in the other. -/
theorem Beside.symm {t u : FileTree} {w : Location} (h : Beside w t u) : Beside w u t :=
  ⟨h.takes', h.takes, fun l hl => (h.same l hl).symm⟩

/-- No location is below an entry of its own. -/
theorem not_cons_suffix (name : String) (loc : Location) : ¬name :: loc <:+ loc := by
  intro h
  have := h.length_le
  rw [List.length_cons] at this
  omega

/-- Below what is no directory there is nothing. -/
theorem node?_below {t : FileTree} {loc : Location} (h : t.node? loc ≠ some .dir)
    {inner : Location} (hinner : inner ≠ []) : t.node? (inner ++ loc) = none := by
  -- If there were something, all directories above it would be there, up to `loc`.
  induction inner with
  | nil => exact absurd rfl hinner
  | cons name inner ih =>
      cases hnode : t.node? (name :: inner ++ loc) with
      | none => rfl
      | some node =>
          exfalso
          have hparent : t.node? (inner ++ loc) = some .dir := node?_parent_of_node? hnode
          cases inner with
          | nil => exact h hparent
          | cons name' inner' => rw [ih (by simp)] at hparent; cases hparent

section

variable {t u : FileTree} {S : Location → Prop} {last : LastLink} {start : Location}
  {steps : List Step} {spot : Spot} {name : String}

/-- A walk leads to the same spot where the tree differs only at places from which no walk leads
to it. -/
theorem walk_frame_of_dead {jump jump' : Location → List Step → Except IoError Spot}
    (dead : ∀ start name rest, S (name :: start) →
      t.walk last jump start (.down name :: rest) ≠ .ok spot)
    (same : ∀ loc, ¬S loc → u.node? loc = t.node? loc)
    (hjump : ∀ loc steps, jump loc steps = .ok spot → jump' loc steps = .ok spot)
    (h : t.walk last jump start steps = .ok spot) : u.walk last jump' start steps = .ok spot := by
  -- Induction on the steps. A step down is the only one that looks at the tree.
  induction steps generalizing start with
  | nil => exact h
  | cons step rest ih =>
      cases step with
      | here => exact ih h
      | up => exact ih h
      | down name =>
          have hS : ¬S (name :: start) := fun hS => dead start name rest hS h
          have hsame := same _ hS
          obtain ⟨usable, down⟩ := walk_down_eq_ok_iff.1 h
          refine walk_down_eq_ok_iff.2 ⟨usable, ?_⟩
          cases down with
          | vacant free atEnd here => exact .vacant (hsame.trans free) atEnd here
          | dir isDir goesOn => exact .dir (hsame.trans isDir) (ih goesOn)
          | file isFile atEnd here => exact .file (hsame.trans isFile) atEnd here
          | itself isLink atEnd here => exact .itself (hsame.trans isLink) atEnd here
          | link isLink notItself notWritten follows =>
              -- The walk goes on with fewer links to follow.
              exact .link (hsame.trans isLink) notItself notWritten (hjump _ _ follows)

/-- From a place that takes a file a walk leads nowhere but there. -/
theorem TakesFile.walk_ne {jump : Location → List Step → Except IoError Spot}
    (free : t.TakesFile (name :: start)) (hspot : spot.loc ≠ name :: start) :
    t.walk last jump start (.down name :: steps) ≠ .ok spot := by
  intro h
  cases (walk_down_eq_ok_iff.1 h).2 with
  | vacant _ _ here | file _ _ here | itself _ _ here => exact hspot (here ▸ rfl)
  | dir isDir => exact free.ne_dir isDir
  | link isLink => exact free.ne_link _ isLink

/-- A walk that ends outside the places leads to the same spot in a tree that differs at them only,
if it does so behind links. It touched none of them: it would have ended there. -/
theorem walk_frame {jump jump' : Location → List Step → Except IoError Spot}
    (stuck : ∀ loc, S loc → t.TakesFile loc)
    (same : ∀ loc, ¬S loc → u.node? loc = t.node? loc)
    (hjump : ∀ loc steps, jump loc steps = .ok spot → jump' loc steps = .ok spot)
    (h : t.walk last jump start steps = .ok spot) (hspot : ¬S spot.loc) :
    u.walk last jump' start steps = .ok spot :=
  walk_frame_of_dead (fun _ _ _ hS => (stuck _ hS).walk_ne fun e => hspot (e ▸ hS)) same hjump h

/-- Where a walk stops short, the tree may be anything: the walk that did not stop leads
to the same spot. -/
theorem walkWithin_frame {links : Nat} (stuck : ∀ loc, S loc → t.TakesFile loc)
    (same : ∀ loc, ¬S loc → u.node? loc = t.node? loc)
    (h : t.walkWithin last links start steps = .ok spot) (hspot : ¬S spot.loc) :
    u.walkWithin last links start steps = .ok spot := by
  induction links generalizing start steps with
  | zero => exact walk_frame stuck same (fun _ _ h => by simp at h) h hspot
  | succ links ih => exact walk_frame stuck same (fun _ _ h => ih h) h hspot

/-- So do steps from the top. -/
theorem resolveSteps_frame (stuck : ∀ loc, S loc → t.TakesFile loc)
    (same : ∀ loc, ¬S loc → u.node? loc = t.node? loc)
    (h : t.resolveSteps last steps = .ok spot) (hspot : ¬S spot.loc) :
    u.resolveSteps last steps = .ok spot := by
  rw [resolveSteps_eq] at h ⊢
  exact walkWithin_frame stuck same h hspot

/-- A walk that reaches a directory goes one step further from there. -/
theorem walkWithin_append_singleton {links : Nat} {loc : Location} (last : LastLink) (step : Step)
    (h : t.walkWithin .followed links start steps = .ok (.occupied loc .dir)) :
    ∃ left, left ≤ links ∧
      t.walkWithin last links start (steps ++ [step]) = t.walkWithin last left loc [step] :=
  walkWithin_append (by simp) h

/-- Steps that lead to a directory can be followed by another name. -/
theorem resolveSteps_down {loc : Location} {name : String} (last : LastLink)
    (h : t.resolveSteps .followed steps = .ok (.occupied loc .dir))
    (hname : isEntryName name = true)
    (hlink : last ≠ .itself → ∀ target, t.node? (name :: loc) ≠ some (.link target)) :
    t.resolveSteps last (steps ++ [.down name]) = .ok
      (match t.node? (name :: loc) with
        | none => .vacant loc name
        | some node => .occupied (name :: loc) node) := by
  rw [resolveSteps_eq] at h ⊢
  obtain ⟨left, -, e⟩ := walkWithin_append_singleton last (.down name) h
  exact e.trans (walkWithin_down hname hlink)

/-- A name that no entry can have leads nowhere. -/
theorem resolveSteps_down_of_unusable {loc : Location} {name : String} (last : LastLink)
    (h : t.resolveSteps .followed steps = .ok (.occupied loc .dir))
    (hname : isEntryName name = false) :
    t.resolveSteps last (steps ++ [.down name]) = .error .nameTooLong := by
  rw [resolveSteps_eq] at h ⊢
  obtain ⟨left, -, e⟩ := walkWithin_append_singleton last (.down name) h
  rw [e]
  cases left <;> simp [walkWithin, walk, hname]

/-- To stay in a directory adds nothing to the way there. -/
theorem resolveSteps_here {loc : Location} (last : LastLink)
    (h : t.resolveSteps .followed steps = .ok (.occupied loc .dir)) :
    t.resolveSteps last (steps ++ [.here]) = .ok (.occupied loc .dir) := by
  rw [resolveSteps_eq] at h ⊢
  obtain ⟨left, -, e⟩ := walkWithin_append_singleton last .here h
  rw [e]
  cases left <;> rfl

end

end FileTree

end PartitionStore
