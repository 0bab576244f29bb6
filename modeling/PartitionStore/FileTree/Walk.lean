import PartitionStore.FileTree.Basic
import PartitionStore.IoError

/-!
# `PartitionStore.FileTree.Walk`: following steps through a tree

A walk follows steps from a directory. It ends at a node, or at a name that
is still free in an existing directory, or fails. A symbolic link on the way
is replaced by the steps of its target; at most `maxLinks` of them are
followed, and that number is what the recursion runs on, so that a circle of
links ends in `IoError.tooManyLinks`.

* `walk_down_eq_ok_iff`: the ways in which a step down leads anywhere.
* `walkWithin_append`: a walk that reaches a directory goes on from there.
  Paths that share their front therefore resolve in the same directory.
* `walkWithin_down`: one more name below it is looked up in that directory.
* `walkWithin_isIn`: what a walk finds is in the tree.
-/

set_option autoImplicit false

namespace PartitionStore

/-- Where steps lead. -/
inductive Spot where
  /-- To a node. -/
  | occupied (loc : Location) (node : Node)
  /-- To a name that no entry of the directory `parent` has. -/
  | vacant (parent : Location) (name : String)
  deriving DecidableEq, Repr, Inhabited

/-- What becomes of a symbolic link that the steps end in. -/
inductive LastLink where
  /-- It is taken for itself. -/
  | itself
  /-- It is followed. -/
  | followed
  /-- It is followed to the place of a file to be written. A target with a
  closing slash names no such place, whatever is there. -/
  | written
  deriving DecidableEq, Repr, Inhabited

namespace FileTree

/-- How many symbolic links one walk follows. -/
def maxLinks : Nat := 40

/-- Walks steps downward from the directory at a location. `jump` continues a
walk behind a link, from the directory where the link's target starts. A name
that no entry can have is refused as too long: nothing else can be wrong with
the bytes between two slashes. -/
def walk (t : FileTree) (last : LastLink)
    (jump : Location → List Step → Except IoError Spot) :
    Location → List Step → Except IoError Spot
  | loc, [] => .ok (.occupied loc .dir)
  | loc, .here :: rest => walk t last jump loc rest
  | loc, .up :: rest => walk t last jump loc.tail rest
  | loc, .down name :: rest =>
    if isEntryName name = false then .error .nameTooLong
    else match t.node? (name :: loc) with
      | none => if rest = [] then .ok (.vacant loc name) else .error .notFound
      | some .dir => walk t last jump (name :: loc) rest
      | some (.file data) =>
        if rest = [] then .ok (.occupied (name :: loc) (.file data)) else .error .notADirectory
      | some (.link target) =>
        if rest = [] ∧ last = .itself then .ok (.occupied (name :: loc) (.link target))
        else if rest = [] ∧ last = .written ∧ target.endsWithSlash = true then do
          -- The directory around the last name has to be there all the same.
          let _ ← jump (if target.isAbsolute then [] else loc) target.enclosingSteps
          .error .isADirectory
        else jump (if target.isAbsolute then [] else loc) (target.demandingSteps ++ rest)

/-- Walks steps from a directory, following up to `links` symbolic links. -/
def walkWithin (t : FileTree) (last : LastLink) :
    (links : Nat) → Location → List Step → Except IoError Spot
  | 0 => t.walk last fun _ _ => .error .tooManyLinks
  | links + 1 => t.walk last (walkWithin t last links)

/-! ### One step down -/

/-- How a step down to `name` can lead to `spot`, where the walk goes on with `rest`. -/
inductive StepsDown (t : FileTree) (last : LastLink)
    (jump : Location → List Step → Except IoError Spot) (start : Location) (name : String)
    (rest : List Step) (spot : Spot) : Prop
  /-- Nothing is there, and the walk is at its end. -/
  | vacant (free : t.node? (name :: start) = none) (atEnd : rest = [])
      (here : spot = .vacant start name)
  /-- A directory is there, and the walk goes on in it. -/
  | dir (isDir : t.node? (name :: start) = some .dir)
      (goesOn : t.walk last jump (name :: start) rest = .ok spot)
  /-- A file is there, and the walk is at its end. -/
  | file {data : Bytes} (isFile : t.node? (name :: start) = some (.file data)) (atEnd : rest = [])
      (here : spot = .occupied (name :: start) (.file data))
  /-- A link is there, and it is what the walk is for. -/
  | itself {target : Path} (isLink : t.node? (name :: start) = some (.link target))
      (atEnd : rest = [] ∧ last = .itself) (here : spot = .occupied (name :: start) (.link target))
  /-- A link is there, and the walk goes on behind it. -/
  | link {target : Path} (isLink : t.node? (name :: start) = some (.link target))
      (notItself : ¬(rest = [] ∧ last = .itself))
      (notWritten : ¬(rest = [] ∧ last = .written ∧ target.endsWithSlash = true))
      (follows : jump (if target.isAbsolute then [] else start) (target.demandingSteps ++ rest) =
        .ok spot)

/-- A walk that begins with a step down leads anywhere in one of these ways only. -/
theorem walk_down_eq_ok_iff {t : FileTree} {last : LastLink}
    {jump : Location → List Step → Except IoError Spot} {start : Location} {name : String}
    {rest : List Step} {spot : Spot} :
    t.walk last jump start (.down name :: rest) = .ok spot ↔
      isEntryName name = true ∧ t.StepsDown last jump start name rest spot := by
  rw [walk]
  constructor
  · intro h
    split at h
    · cases h
    rename_i husable
    refine ⟨by simpa using husable, ?_⟩
    split at h
    · rename_i hnone
      split at h
      · rename_i hrest
        cases h
        exact .vacant hnone hrest rfl
      · cases h
    · rename_i hdir
      exact .dir hdir h
    · rename_i hfile
      split at h
      · rename_i hrest
        cases h
        exact .file hfile hrest rfl
      · cases h
    · rename_i target hlink
      split at h
      · rename_i hitself
        cases h
        exact .itself hlink hitself rfl
      rename_i hitself
      split at h
      · cases hj : jump (if target.isAbsolute then [] else start) target.enclosingSteps <;>
          simp [hj, bind, Except.bind] at h
      · rename_i hwritten
        exact .link hlink hitself hwritten h
  · rintro ⟨usable, down⟩
    rw [if_neg (by simp [usable])]
    cases down with
    | vacant free atEnd here => simp only [free, atEnd, here, if_true]
    | dir isDir goesOn => simpa only [isDir] using goesOn
    | file isFile atEnd here => simp only [isFile, atEnd, here, if_true]
    | itself isLink atEnd here => simp only [isLink, if_pos atEnd, here]
    | link isLink notItself notWritten follows =>
      simpa only [isLink, if_neg notItself, if_neg notWritten] using follows

/-! ### Walks continue -/

/-- A walk that reaches a directory goes on from there, or it goes on behind a link, and that leads
to the directory. -/
theorem walk_append {t : FileTree} {last : LastLink}
    {jump jump' : Location → List Step → Except IoError Spot} {start loc : Location}
    {steps more : List Step} (hmore : more ≠ [])
    (h : t.walk .followed jump start steps = .ok (.occupied loc .dir)) :
    t.walk last jump' start (steps ++ more) = t.walk last jump' loc more ∨
      ∃ origin behind, jump origin behind = .ok (.occupied loc .dir) ∧
        t.walk last jump' start (steps ++ more) = jump' origin (behind ++ more) := by
  induction steps generalizing start with
  | nil =>
    cases h
    exact .inl rfl
  | cons step rest ih =>
    cases step with
    | here => simpa [walk] using ih h
    | up => simpa [walk] using ih h
    | down name =>
      obtain ⟨usable, down⟩ := walk_down_eq_ok_iff.1 h
      rw [List.cons_append, walk, if_neg (by simp [usable])]
      cases down with
      | vacant _ _ here | file _ _ here | itself _ _ here => cases here
      | dir isDir goesOn => simpa only [isDir] using ih goesOn
      | link isLink _ _ follows =>
        -- More steps follow the link, so neither way to leave a last link alone applies.
        refine .inr ⟨_, _, follows, ?_⟩
        simp only [isLink]
        rw [if_neg (by simp [hmore]), if_neg (by simp [hmore]), List.append_assoc]

/-- A walk that reaches a directory goes on from there, with the links that it
has left. -/
theorem walkWithin_append {t : FileTree} {last : LastLink} {links : Nat} {start loc : Location}
    {steps more : List Step} (hmore : more ≠ [])
    (h : t.walkWithin .followed links start steps = .ok (.occupied loc .dir)) :
    ∃ left, left ≤ links ∧
      t.walkWithin last links start (steps ++ more) = t.walkWithin last left loc more := by
  induction links generalizing start steps with
  | zero =>
    rcases walk_append hmore h with hsame | ⟨_, _, hjump, -⟩
    · exact ⟨0, Nat.le_refl 0, hsame⟩
    · cases hjump
  | succ links ih =>
    rcases walk_append hmore h with hsame | ⟨origin, behind, hjump, hsame⟩
    · exact ⟨links + 1, Nat.le_refl _, hsame⟩
    · obtain ⟨left, hleft, hrest⟩ := ih hjump
      exact ⟨left, Nat.le_succ_of_le hleft, hsame.trans hrest⟩

/-- One name below a reached directory: the entry of that name, or its free place. -/
theorem walkWithin_down {t : FileTree} {last : LastLink} {links : Nat} {loc : Location}
    {name : String} (hname : isEntryName name = true)
    (hlink : last ≠ .itself → ∀ target, t.node? (name :: loc) ≠ some (.link target)) :
    t.walkWithin last links loc [.down name] = .ok
      (match t.node? (name :: loc) with
        | none => .vacant loc name
        | some node => .occupied (name :: loc) node) := by
  cases links <;> cases hn : t.node? (name :: loc) with
  | none => simp [walkWithin, walk, hname, hn]
  | some node =>
    cases node with
    | link target =>
      have hitself : last = .itself := Decidable.byContradiction fun h => hlink h target hn
      simp [walkWithin, walk, hname, hn, hitself]
    | _ => simp [walkWithin, walk, hname, hn]

/-! ### What is found is there -/

/-- What a result of resolving says about the tree. -/
def Spot.IsIn (t : FileTree) : Spot → Prop
  | .occupied loc node => t.node? loc = some node
  | .vacant parent name =>
    isEntryName name = true ∧ t.node? parent = some .dir ∧ t.node? (name :: parent) = none

/-- A walk that succeeds behind links as it should ends at a node of the tree, or at a usable name
that is free. The directory that it has come to is always one of the tree. -/
theorem walk_isIn {t : FileTree} {last : LastLink}
    {jump : Location → List Step → Except IoError Spot} {start : Location} {steps : List Step}
    {spot : Spot} (hstart : t.node? start = some .dir)
    (hjump : ∀ loc steps spot, t.node? loc = some .dir → jump loc steps = .ok spot →
      Spot.IsIn t spot)
    (h : t.walk last jump start steps = .ok spot) : Spot.IsIn t spot := by
  -- The start of each step is a directory, which the next one needs.
  induction steps generalizing start with
  | nil =>
    simp only [walk, Except.ok.injEq] at h
    exact h ▸ hstart
  | cons step rest ih =>
    cases step with
    | here => exact ih hstart (by simpa [walk] using h)
    | up =>
      refine ih ?_ (by simpa [walk] using h)
      cases start with
      | nil => rfl
      | cons name parent => exact node?_parent_of_node? hstart
    | down name =>
      obtain ⟨usable, down⟩ := walk_down_eq_ok_iff.1 h
      cases down with
      | vacant free _ here => exact here ▸ ⟨usable, hstart, free⟩
      | dir isDir goesOn => exact ih isDir goesOn
      | file isFile _ here => exact here ▸ isFile
      | itself isLink _ here => exact here ▸ isLink
      | link _ _ _ follows =>
        -- The walk behind a link starts at the top or at the directory the link is in.
        refine hjump _ _ _ ?_ follows
        split
        · rfl
        · exact hstart

/-- A path that resolves leads to a node of the tree, or to a usable name that
is free in a directory of the tree. -/
theorem walkWithin_isIn {t : FileTree} {last : LastLink} {links : Nat} {start : Location}
    {steps : List Step} {spot : Spot} (hstart : t.node? start = some .dir)
    (h : t.walkWithin last links start steps = .ok spot) : Spot.IsIn t spot := by
  induction links generalizing start steps spot with
  | zero => exact walk_isIn hstart (by simp) h
  | succ links ih => exact walk_isIn hstart (fun _ _ _ hloc hjump => ih hloc hjump) h

end FileTree

end PartitionStore
