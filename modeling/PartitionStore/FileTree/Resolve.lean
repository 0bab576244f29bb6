import PartitionStore.FileTree.Trail

/-!
# `PartitionStore.FileTree.Resolve`: what is at a path

A path's steps are walked from the top of the tree. The text of the path is
looked at first: a text that can be no path leads nowhere.

* `resolveSteps_eq`: resolving is the walk of `FileTree.Walk`, whose laws
  therefore hold of it.
* `resolveSteps_isIn`: what resolving finds is in the tree.
-/

set_option autoImplicit false

namespace PartitionStore.FileTree

/-- Where the steps lead from the top of the tree. -/
def resolveSteps (t : FileTree) (last : LastLink) (steps : List Step) : Except IoError Spot :=
  Trail.walkWithin t last maxLinks [] steps

/-- Steps are resolved along a trail, which leads where a walk by locations leads. -/
theorem resolveSteps_eq (t : FileTree) (last : LastLink) (steps : List Step) :
    t.resolveSteps last steps = t.walkWithin last maxLinks [] steps :=
  have atTop : Trail.IsOf t [] := trivial
  Trail.walkWithin_eq atTop

/-- What resolving finds is in the tree. -/
theorem resolveSteps_isIn {t : FileTree} {last : LastLink} {steps : List Step} {spot : Spot}
    (h : t.resolveSteps last steps = .ok spot) : Spot.IsIn t spot :=
  walkWithin_isIn (node?_nil t) (t.resolveSteps_eq last steps ▸ h)

/-- Refuses the texts that are no path at all: those with U+0000, the empty
one, and those that are too long. -/
def checkText (p : Path) : Except IoError Unit :=
  if p.text.toList.contains (Char.ofNat 0) then .error .nulInPath
  else if p.text = "" then .error .notFound
  else if Path.maxBytes < p.text.utf8ByteSize then .error .nameTooLong
  else .ok ()

/-- Where `p` leads. A link at the end is followed too if `p` ends with a slash. -/
def resolve (t : FileTree) (last : LastLink) (p : Path) : Except IoError Spot := do
  checkText p
  t.resolveSteps last p.demandingSteps

/-- The entry that `p` names, with closing slashes ignored and a link at the end left alone. -/
def resolveEntry (t : FileTree) (p : Path) : Except IoError Spot := do
  checkText p
  t.resolveSteps .itself p.steps

/-! ### Questions about a path -/

/-- The node that `p` leads to, and its location. -/
def find (t : FileTree) (last : LastLink) (p : Path) : Except IoError (Location × Node) := do
  match ← t.resolve last p with
  | .occupied loc node => .ok (loc, node)
  | .vacant _ _ => .error .notFound

/-- Whether `p` leads to anything, links followed. -/
def «exists» (t : FileTree) (p : Path) : Bool := (t.find .followed p).isOk

/-- Whether `p` leads to a directory, links followed. -/
def isDir (t : FileTree) (p : Path) : Bool :=
  match t.find .followed p with
  | .ok (_, .dir) => true
  | _ => false

/-- The contents of the file at `p`. -/
def read (t : FileTree) (p : Path) : Except IoError Bytes := do
  match ← t.find .followed p with
  | (_, .file data) => .ok data
  | _ => .error .isADirectory

/-- The entries of the directory at `p`. -/
def list (t : FileTree) (p : Path) : Except IoError (List (String × Node)) := do
  match ← t.find .followed p with
  | (loc, .dir) => .ok (t.children loc)
  | _ => .error .notADirectory

/-- The file bytes at and below `p`, nothing if there is nothing at `p`. A link
has none, and a file whose path would be too long does not count. -/
def size (t : FileTree) (p : Path) : Nat :=
  match t.find .itself p with
  | .ok (loc, _) => t.totalSize p.room loc
  | .error _ => 0

end PartitionStore.FileTree
