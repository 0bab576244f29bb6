import PartitionStore.FileTree.Changes
import PartitionStore.Inspector.Run

/-!
# `PartitionStore.Main`: the inspector as a command

The command reads the store's directory from the disk, with what leads to it,
runs the inspector on what it read, and brings the disk to the tree that the
inspector left.
-/

set_option autoImplicit false

namespace PartitionStore.Command

/-- The path text of a location. -/
def textOf (loc : Location) : String := "/" ++ "/".intercalate loc.reverse

/-- The directory entry `name` of the directory at `parent`. -/
def entry (parent : Location) (name : String) : IO.FS.DirEntry := ⟨⟨textOf parent⟩, name⟩

/-- What the disk has at the entry `name` of the directory at `parent`. A link
that leads nowhere is taken for a link to itself. -/
def readNode (parent : Location) (name : String) : IO (Option Node) := do
  let path := (entry parent name).path
  let kind? ← try pure (some (← path.symlinkMetadata).type) catch _ => pure none
  match kind? with
  | some .dir => return some .dir
  | some .file => return some (.file (← IO.FS.readBinFile path).data.toList)
  | some .symlink =>
    let target ← try pure (← IO.FS.realPath path).toString catch _ => pure (textOf (name :: parent))
    return some (.link ⟨target⟩)
  | _ => return none

mutual

/-- Adds what the steps lead to from `loc`, with everything below it if it is a directory. -/
partial def loadPath (t : FileTree) (loc : Location) : List Step → IO FileTree
  | [] => loadBelow t loc
  | .here :: rest => loadPath t loc rest
  | .up :: rest => loadPath t loc.tail rest
  | .down name :: rest => do
    let known := t.node? (name :: loc)
    match ← known.elim (readNode loc name) (pure ∘ some) with
    | none => return t
    | some node =>
      let t := t.place loc name node
      match node with
      | .dir => loadPath t (name :: loc) rest
      | .file _ => return t
      | .link target =>
        if known.isSome && rest.isEmpty then return t else loadPath t [] (target.steps ++ rest)

/-- Adds everything below the directory at `loc`. -/
partial def loadBelow (t : FileTree) (loc : Location) : IO FileTree := do
  let entries ← (entry loc "").path.readDir
  entries.foldlM (fun t e => loadPath t loc [.down e.fileName]) t

end

/-- Carries a change out on the disk. -/
def apply : TreeChange → IO Unit
  | .remove [] _ => pure ()
  | .remove (name :: parent) true => IO.FS.removeDir (entry parent name).path
  | .remove (name :: parent) false => IO.FS.removeFile (entry parent name).path
  | .makeDir [] => pure ()
  | .makeDir (name :: parent) => IO.FS.createDir (entry parent name).path
  | .write [] _ => pure ()
  | .write (name :: parent) data =>
    IO.FS.writeBinFile (entry parent name).path ⟨data.toArray⟩

/-- Reads what the command line asks for, with what leads to it. -/
def load (workingDir : Path) (args : List String) : IO FileTree :=
  match Inspector.Invocation.read args with
  | .run a => loadPath FileTree.empty [] (Naming.storePath (workingDir.join a.root) a.store).steps
  | _ => pure FileTree.empty

end PartitionStore.Command

open PartitionStore in
/-- Runs the inspector on the disk. -/
def main (args : List String) : IO UInt32 := do
  let workingDir : Path := ⟨(← IO.currentDir).toString⟩
  let before ← Command.load workingDir args
  let (outcome, after) := Inspector.run workingDir args before
  (before.changesTo after).forM Command.apply
  IO.print outcome.output
  return outcome.code.toUInt32
