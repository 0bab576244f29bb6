import PartitionStore.IoError
import PartitionStore.Path
import PartitionStore.Table.Image
import PartitionStore.Text.Decimal
import PartitionStore.Text.Quoted

/-!
# `PartitionStore.StoreError`: why an operation on a store failed

Errors are causes; `StoreError.message` alone holds their wording. A failure
of the file system while an engine comes up is an `initializationFailure`,
which says what was being done and keeps the cause beside the message
(`StoreError.source?`); any other failure of the file system is an `io`.
-/

set_option autoImplicit false

namespace PartitionStore

/-- What was being done to the store's folder when bringing an engine up failed. -/
inductive InitializationStep where
  | makeFolder (path : Path)
  | readRecord (path : Path)
  | removeFolder (path : Path)
  | remakeFolder (path : Path)
  | keepRecord
  deriving DecidableEq, Repr, Inhabited

/-- The text a step is reported with. -/
def InitializationStep.message : InitializationStep → String
  | makeFolder path => "failed to create store dir " ++ path.text
  | readRecord path => "failed to read engine config " ++ path.text
  | removeFolder path => "failed to remove store dir " ++ path.text
  | remakeFolder path => "failed to recreate store dir " ++ path.text
  | keepRecord => "unable to persist engine config"

/-- What is wrong with something that the caller asked for. -/
inductive RequestFault where
  /-- The store name is not the name of a single directory. -/
  | invalidStoreName (name : String)
  /-- A partition of the store `given` was asked for in the store `own`. -/
  | foreignStore (given own : String)
  /-- A key is too long for a table file. -/
  | oversizedKey (size : Nat)
  /-- A value is too long for a table file. -/
  | oversizedValue (size : Nat)
  deriving DecidableEq, Repr, Inhabited

/-- The text a fault is reported with. -/
def RequestFault.message : RequestFault → String
  | invalidStoreName name => "invalid store name " ++ Text.quote name
  | foreignStore given own =>
    "partition config for store " ++ Text.quote given ++ " used with store " ++ Text.quote own
  | oversizedKey size => "key too large: " ++ String.ofList (Nat.toDigits 10 size) ++ " bytes"
  | oversizedValue size => "value too large: " ++ String.ofList (Nat.toDigits 10 size) ++ " bytes"

/-- The causes for which an operation on a store fails. -/
inductive StoreError where
  /-- The file system failed. -/
  | io (cause : IoError)
  /-- The file system failed while an engine was coming up. -/
  | initializationFailure (step : InitializationStep) (cause : IoError)
  /-- There is something else in the place of the store's folder. -/
  | notADirectory (path : Path)
  /-- The engine has a partition of this id already. -/
  | duplicatePartition (id : Int32)
  /-- The engine has no partition of this id. -/
  | unknownPartition (id : Int32)
  /-- The engine was closed. -/
  | engineNotOpen
  /-- The engine's store was dropped. -/
  | engineDropped
  /-- The partition was created with another table format. -/
  | formatMismatch (id : Int32) (expected found : TableFormat)
  /-- The partition was closed or dropped. -/
  | partitionClosed (id : Int32)
  /-- The table file is damaged. -/
  | corruption (path : Path) (damage : Damage)
  /-- The request itself is at fault. -/
  | request (fault : RequestFault)
  deriving DecidableEq, Repr, Inhabited

namespace StoreError

/-- A partition id as it stands in messages. -/
def idText (id : Int32) : String := String.ofList (Text.ofInt id.toInt)

/-- The text an error is reported with. -/
def message : StoreError → String
  | io cause => "IO error: " ++ cause.message
  | initializationFailure step _ => "Storage initialization failed: " ++ step.message
  | notADirectory path => "Store path is not a directory: " ++ path.text
  | duplicatePartition id => "Partition " ++ idText id ++ " already exists"
  | unknownPartition id => "Partition " ++ idText id ++ " is not open in this engine"
  | engineNotOpen => "Engine is not open"
  | engineDropped => "Engine has been dropped"
  | formatMismatch id expected found =>
    "Partition " ++ idText id ++ " was created as " ++ found.name ++
      ", refusing to open it as " ++ expected.name
  | partitionClosed id => "Partition " ++ idText id ++ " is closed"
  | corruption path damage =>
    "Partition data corruption detected: " ++ path.text ++ ": " ++ damage.message
  | request fault => "Configuration error: " ++ fault.message

/-- The text of the cause that an initialization failure keeps beside its message. -/
def source? : StoreError → Option String
  | initializationFailure _ cause => some cause.message
  | _ => none

end StoreError

end PartitionStore
