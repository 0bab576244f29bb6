import PartitionStore.EngineRecord.File
import PartitionStore.Naming

/-!
# `PartitionStore.StoreFolder`: the folder of a store

A store's folder is known by its root and the store's name; that the name can
name a single directory is part of the type. The folder is made when missing,
guarded against being opened with another table format than it was made with,
given its engine record once, searched for partitions, measured and removed.

The guard is destructive: a store whose record tells another format than the
one asked for is emptied (`GuardVerdict.emptied`). A store without a readable
record cannot be compared and is left alone.
-/

set_option autoImplicit false

namespace PartitionStore

/-- The folder of one store. -/
structure StoreFolder where
  /-- The directory above, which holds the folders of all stores. -/
  root : Path
  /-- The store's name. -/
  store : String
  /-- The name can name a single directory. -/
  isStoreName : Naming.isStoreName store = true
  deriving DecidableEq

/-- What the format guard found, and did. -/
inductive GuardVerdict where
  /-- The store was made with the format asked for. -/
  | sameFormat
  /-- There is no readable record to compare with. -/
  | noRecord
  /-- The store was made with another format, which is given, and was emptied. -/
  | emptied (recorded : TableFormat)
  deriving DecidableEq, Repr, Inhabited

namespace StoreFolder

/-- The name of the file that holds the engine record, in the directory of the metadata
partition. -/
def recordFileName : String := "engineConfig"

/-- The folder of the store `store` under `root`. -/
def named (root : Path) (store : String) : Except StoreError StoreFolder :=
  if h : Naming.isStoreName store = true then .ok ⟨root, store, h⟩
  else .error (.request (.invalidStoreName store))

/-- The path of the folder. -/
def path (d : StoreFolder) : Path := Naming.storePath d.root d.store

/-- The path of a partition's directory. -/
def partitionPath (d : StoreFolder) (id : Int32) : Path :=
  Naming.partitionPath d.root d.store id

/-- The path of the engine record. -/
def recordPath (d : StoreFolder) : Path :=
  (d.partitionPath Naming.metadataId).join recordFileName

/-! ### Questions -/

/-- Whether there is anything at the folder's path. -/
def isThere (d : StoreFolder) (t : FileTree) : Bool := t.exists d.path

/-- The bytes of all files in the folder. -/
def size (d : StoreFolder) (t : FileTree) : Nat := t.size d.path

/-- The engine record, if there is a readable one. -/
def readRecord (d : StoreFolder) : StoreAction (Option EngineRecord) :=
  EngineRecord.read d.recordPath

/-- The ids, ascending, for which the entries contain a directory whose name reads like that of a
partition's. Files, links and other directories do not count. -/
def idsOf (store : String) (entries : List (String × Node)) : List Int32 :=
  let found := entries.filterMap fun (name, node) =>
    if node = .dir then Naming.idOfDirName? store (FileName.reading name) else none
  (SortedMap.ofList (found.map fun id => (id, ()))).keys

/-- The ids, ascending, for which the folder has a directory that reads like a partition's. A name
that is no text may read like one, and then the partition need not have a directory. -/
def idsOnDisk (d : StoreFolder) : StoreAction (List Int32) := do
  let t ← get
  if !d.isThere t then pure []
  else if !t.isDir d.path then throw (.notADirectory d.path)
  else
    let entries ← StoreAction.io <| Files.ask (·.list d.path)
    pure (idsOf d.store entries)

/-! ### Changes -/

/-- Makes the folder, with the directories above it, if it is missing; tells whether it was. -/
def ensure (d : StoreFolder) : StoreAction Bool := do
  let t ← get
  if d.isThere t then
    if t.isDir d.path then pure false else throw (.notADirectory d.path)
  else
    StoreAction.ofFiles (.initializationFailure (.makeFolder d.path))
      (Files.createDirAll d.path)
    pure true

/-- Removes the folder with everything in it and makes it again. -/
def empty (d : StoreFolder) : StoreAction Unit := do
  StoreAction.ofFiles (.initializationFailure (.removeFolder d.path))
    (Files.removeDirAll d.path)
  StoreAction.ofFiles (.initializationFailure (.remakeFolder d.path))
    (Files.createDirAll d.path)

/-- The format guard: compares the recorded format with the one asked for and
empties the store if they differ. -/
def guard (d : StoreFolder) (format : TableFormat) : StoreAction GuardVerdict := do
  match ← StoreAction.during (.readRecord d.recordPath) d.readRecord with
  | none => pure .noRecord
  | some record =>
    match record.format? with
    | none => pure .noRecord
    | some recorded =>
      if recorded = format then pure .sameFormat
      else do
        d.empty
        pure (.emptied recorded)

/-- Writes the engine record unless there is one, readable or not; tells whether it wrote. -/
def recordOnce (d : StoreFolder) (record : EngineRecord) : StoreAction Bool := do
  let t ← get
  if t.exists d.recordPath then pure false
  else
    StoreAction.io <| Files.createDirAll (d.partitionPath Naming.metadataId)
    record.write d.recordPath
    pure true

/-- Removes the folder with everything in it; tells whether there was anything. -/
def remove (d : StoreFolder) : StoreAction Bool := do
  let t ← get
  if d.isThere t then
    StoreAction.io <| Files.removeDirAll d.path
    pure true
  else pure false

end StoreFolder

end PartitionStore
