import PartitionStore.FileTree.Operations
import PartitionStore.StoreError

/-!
# `PartitionStore.StoreAction`: actions that fail with a store's errors

A `StoreAction` works on the file tree like a `Files` action but fails with
a `StoreError`. `ofFiles` turns the one into the other by saying what a
failure of the file system means at that point.
-/

set_option autoImplicit false

namespace PartitionStore

/-- An action of a store on the file tree. The tree that it leaves is known also when it fails. -/
abbrev StoreAction (α : Type) := EStateM StoreError FileTree α

namespace StoreAction

/-- A file action, with the error that its failure means. -/
def ofFiles {α : Type} (meaning : IoError → StoreError) (action : Files α) : StoreAction α :=
  fun t =>
    match action t with
    | .ok a t' => .ok a t'
    | .error e t' => .error (meaning e) t'

/-- A file action whose failure is reported as it is. -/
def io {α : Type} (action : Files α) : StoreAction α := ofFiles .io action

/-- An answer about the tree, which stays as it is. -/
def observe {α : Type} (question : FileTree → α) : StoreAction α := fun t => .ok (question t) t

/-- An action whose `io` failures mean a failed initialization step. -/
def during {α : Type} (step : InitializationStep) (action : StoreAction α) : StoreAction α :=
  fun t =>
    match action t with
    | .ok a t' => .ok a t'
    | .error (.io cause) t' => .error (.initializationFailure step cause) t'
    | .error e t' => .error e t'

end StoreAction

end PartitionStore
