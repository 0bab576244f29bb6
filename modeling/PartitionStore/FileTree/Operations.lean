import PartitionStore.FileTree.Resolve

/-!
# `PartitionStore.FileTree.Operations`: changing a tree by path

Single changes (`makeDir`, `write`, `unlink`, `rename`, `symlink`) either
fail and leave the tree alone or yield the changed tree. What is made of more
than one of them is a `Files` action: an action yields a tree whether it fails
or not, so what a failure leaves behind is part of its meaning.

`createDirAll` may stop after any of the directories that it makes.
`removeDirAll` takes everything below the directory away in one step, as in
this tree (see `FileTree.Basic`) nothing can keep an entry from being removed.
Then the directory itself goes, and there it may stop: with the directory
emptied and still in its place. `replaceUnder` is the one action whose parts
may be stopped from outside (`WriteFault`).
-/

set_option autoImplicit false

namespace PartitionStore

/-- An action on the file tree. The tree that it leaves is known also when it fails. -/
abbrev Files (α : Type) := EStateM IoError FileTree α

namespace FileTree

/-! ### Single changes -/

/-- Makes the directory that the steps name; the directories above must be there. -/
def makeDir (t : FileTree) (steps : List Step) : Except IoError FileTree := do
  match ← t.resolveSteps .itself steps with
  | .occupied _ _ => .error .alreadyExists
  | .vacant parent name => .ok (t.place parent name .dir)

/-- Writes a file, in the place of its old contents if it is there. Links are
followed, so that writing to a link writes to, or makes, the file that the
link leads to. -/
def write (t : FileTree) (p : Path) (data : Bytes) : Except IoError FileTree := do
  checkText p
  if p.endsWithSlash then
    let _ ← t.resolveSteps .followed p.enclosingSteps
    .error .isADirectory
  else
    match ← t.resolveSteps .written p.steps with
    | .occupied (name :: parent) (.file _) => .ok (t.place parent name (.file data))
    | .occupied _ _ => .error .isADirectory
    | .vacant parent name => .ok (t.place parent name (.file data))

/-- Removes a file or a link. -/
def unlink (t : FileTree) (p : Path) : Except IoError FileTree := do
  match ← t.find .itself p with
  | (_, .dir) => .error .isADirectory
  | (loc, _) => .ok (t.prune loc)

/-- Makes a symbolic link to `target`, which need not lead anywhere. -/
def symlink (t : FileTree) (p target : Path) : Except IoError FileTree := do
  checkText target
  match ← t.resolveEntry p with
  | .occupied _ _ => .error .alreadyExists
  | .vacant parent name =>
    if p.endsWithSlash then .error .notFound else .ok (t.place parent name (.link target))

/-- Gives the node at `source` the place `target`. A file or link replaces a
file or link there, a directory replaces an empty directory. Links at the end
of either path are taken for themselves. -/
def rename (t : FileTree) (source target : Path) : Except IoError FileTree := do
  let old ← t.resolveEntry source
  let new ← t.resolveEntry target
  if !source.endsInName || !target.endsInName then .error .busy
  else match old with
  | .vacant _ _ => .error .notFound
  | .occupied loc node =>
    if node ≠ .dir ∧ (source.endsWithSlash ∨ target.endsWithSlash) then .error .notADirectory
    else match new with
      | .vacant parent name =>
        if loc.isSuffixOf parent then .error .invalidArgument
        else .ok (t.move loc parent name)
      | .occupied there taken =>
        if there = loc then .ok t
        else match there, node, taken with
          | [], _, _ => .error .notEmpty
          | name :: parent, .dir, .dir =>
            if loc.isSuffixOf there then .error .invalidArgument
            else if (t.children there).isEmpty then .ok (t.move loc parent name)
            else .error .notEmpty
          | _, .dir, _ => .error .notADirectory
          | _, _, .dir => .error .isADirectory
          | name :: parent, _, _ => .ok (t.move loc parent name)

end FileTree

/-! ### Actions -/

/-- Where the writing of a file is stopped from outside. The tree knows of no full disk and no
failing device; a fault stands for what they do. -/
inductive WriteFault where
  /-- The scratch file cannot be made. -/
  | scratch (e : IoError)
  /-- The scratch file was made, and holds these bytes when writing it fails. -/
  | contents (written : Bytes) (e : IoError)
  /-- The scratch file is complete, and cannot be moved. -/
  | rename (e : IoError)
  deriving DecidableEq

namespace Files

/-- An answer about the tree, which stays as it is. -/
def ask {α : Type} (question : FileTree → Except IoError α) : Files α := fun t =>
  match question t with
  | .ok a => .ok a t
  | .error e => .error e t

/-- A change that leaves the tree as it is when it fails. -/
def change (step : FileTree → Except IoError FileTree) : Files Unit := fun t =>
  match step t with
  | .ok t' => .ok () t'
  | .error e => .error e t

/-- Makes a directory, and is content with one that is there. Where the
directories above are missing, `parents` runs first. -/
def ensureDir (steps : List Step) (parents : Files Unit) : Files Unit := fun t =>
  let settle (t : FileTree) (e : IoError) : EStateM.Result IoError FileTree Unit :=
    match t.resolveSteps .followed steps with
    | .ok (.occupied _ .dir) => .ok () t
    | _ => .error e t
  match t.makeDir steps with
  | .ok t' => .ok () t'
  | .error .notFound =>
    match parents t with
    | .error e t' => .error e t'
    | .ok () t' =>
      match t'.makeDir steps with
      | .ok t'' => .ok () t''
      | .error e => settle t' e
  | .error e => settle t e

/-- Makes a directory with the directories above it; the steps come innermost first. -/
def ensureDirs : List Step → Files Unit
  | [] => pure ()
  | step :: outer => ensureDir (step :: outer).reverse (ensureDirs outer)

/-- Makes the directory at `p` with the directories above it, as far as they are missing. -/
def createDirAll (p : Path) : Files Unit :=
  if p.text = "" then pure ()
  else do
    ask fun _ => FileTree.checkText p
    ensureDir p.steps (ensureDirs p.properSteps.reverse.tail)

/-- Makes the directories above `p`, as far as they are missing. -/
def createParents (p : Path) : Files Unit := createDirAll p.parent

/-- Removes the emptied directory at `loc` under the path `p`. The path is
walked again: where it led through what was below the directory it leads
nowhere now, and the directory stays. -/
def removeEmptied (p : Path) (loc : Location) : Files Unit := fun t =>
  match t.resolveEntry p with
  | .error .notFound => .ok () t
  | .error e => .error e t
  | .ok (.occupied _ (.link _)) => .error .notADirectory t
  | .ok _ =>
    match p.steps.getLast? with
    | some (.down _) => .ok () (t.prune loc)
    | some .here => .error .invalidArgument t
    | some .up => .error .notEmpty t
    | none => .error .busy t

/-- Removes a directory with everything below it, or a link; links below are
removed and not followed. -/
def removeDirAll (p : Path) : Files Unit := fun t =>
  match t.find .itself p with
  | .error e => .error e t
  | .ok (_, .file _) => .error .notADirectory t
  | .ok (loc, .link _) => .ok () (t.prune loc)
  | .ok (loc, .dir) => removeEmptied p loc (t.clear loc)

/-! ### Replacing a file -/

/-- Writes a scratch file, unless that is stopped. -/
def fillUnder (fault : Option WriteFault) (scratch : Path) (data : Bytes) : Files Unit :=
  match fault with
  | some (.scratch e) => throw e
  | some (.contents written e) => do
    change (·.write scratch written)
    throw e
  | _ => change (·.write scratch data)

/-- Moves the scratch file to its place, unless that is stopped. -/
def moveUnder (fault : Option WriteFault) (scratch p : Path) : Files Unit :=
  match fault with
  | some (.rename e) => throw e
  | _ => change (·.rename scratch p)

/-- Replaces the file at `p` by `data` in one step: the data go to `scratch`, which
then takes the place of `p`. Either may be stopped. -/
def replaceUnder (fault : Option WriteFault) (p scratch : Path) (data : Bytes) : Files Unit := do
  fillUnder fault scratch data
  moveUnder fault scratch p

/-- Replaces the file at `p` by `data` in one step, where nothing is stopped. -/
def replace (p scratch : Path) (data : Bytes) : Files Unit := replaceUnder none p scratch data

end Files

end PartitionStore
