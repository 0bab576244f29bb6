import PartitionStore.FileTree.Basic

/-!
# `PartitionStore.FileTree.Changes`: from one tree to another

The changes that lead from one file tree to another, in an order in which
they can be carried out one by one: what goes is removed from the inside out,
then what comes is made from the outside in.
-/

set_option autoImplicit false

namespace PartitionStore

/-- One change of a file tree. -/
inductive TreeChange where
  /-- Remove the empty directory, file or link. -/
  | remove (loc : Location) (wasDir : Bool)
  /-- Make a directory. -/
  | makeDir (loc : Location)
  /-- Write a file. -/
  | write (loc : Location) (data : Bytes)
  deriving DecidableEq, Repr, Inhabited

namespace FileTree

/-- The nodes of `t` that `u` does not have, innermost first. -/
def lost (t u : FileTree) : List (Location × Node) :=
  (t.toList.filter fun (loc, node) => u.node? loc != some node).mergeSort
    fun a b => b.1.length ≤ a.1.length

/-- The changes that lead from `t` to `u`. A file whose contents change is
written over, and so are no links, which are only ever removed. -/
def changesTo (t u : FileTree) : List TreeChange :=
  let removals := (t.lost u).filterMap fun (loc, node) =>
    match node, u.node? loc with
    | .file _, some (.file _) => none
    | node, _ => some (TreeChange.remove loc (node == .dir))
  let additions := (u.lost t).reverse.filterMap fun (loc, node) =>
    match node with
    | .dir => some (TreeChange.makeDir loc)
    | .file data => some (TreeChange.write loc data)
    | .link _ => none
  removals ++ additions

end FileTree

end PartitionStore
