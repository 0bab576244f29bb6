import PartitionStore.Backend

/-!
# `PartitionStore.EngineSettings.Basic`: how an engine is to be run

The settings of an engine say where its store is, which backend and format
its partitions have, what the engine does when it comes up, and which further
properties its record gets. `EngineSettings.default` are the settings to start
from.

* `format?_record`: the record that an engine keeps tells the format it was
  set to, whatever the further properties are.
-/

set_option autoImplicit false

namespace PartitionStore

/-- The settings of one store's engine. -/
@[ext] structure EngineSettings where
  /-- The directory that holds the folders of all stores. -/
  root : Path
  store : String
  backend : BackendKind
  format : TableFormat
  /-- Whether the format guard runs when the store's folder is there already. -/
  guardOnReopen : Bool
  /-- Whether the metadata partition is opened, or made; the engine then answers for the store. -/
  withMetadata : Bool
  /-- Whether the other partitions found on disk are opened. -/
  withData : Bool
  /-- How many workers open those. -/
  workers : Nat
  /-- Further properties for the engine record. -/
  properties : SortedMap String String
  deriving DecidableEq

namespace EngineSettings

/-- The settings to start from. -/
def default : EngineSettings where
  root := ⟨"./partkv_data"⟩
  store := "default"
  backend := .table
  format := .blockBased
  guardOnReopen := true
  withMetadata := true
  withData := true
  workers := 4
  properties := SortedMap.empty

instance : Inhabited EngineSettings := ⟨default⟩

/-- The settings with another number of workers, one at least. -/
def withWorkers (c : EngineSettings) (count : Nat) : EngineSettings :=
  { c with workers := max count 1 }

/-- The settings with a further property for the engine record. -/
def withProperty (c : EngineSettings) (key value : String) : EngineSettings :=
  { c with properties := c.properties.insert key value }

/-- Sets properties of a record one after another, all but one with the format flag's name. -/
def addProperties (r : EngineRecord) (properties : List (String × String)) : EngineRecord :=
  properties.foldl
    (fun r (key, value) => if key = EngineRecord.flagKey then r else r.set key value) r

/-- The engine record of a store that is made with these settings: the format
flag, and the further properties except one with the flag's own name. -/
def record (c : EngineSettings) : EngineRecord :=
  addProperties (EngineRecord.ofFormat c.format) c.properties.toList

/-- What is needed to open a partition of this store. -/
def spec (c : EngineSettings) (id : Int32) : PartitionSpec := ⟨c.store, id, c.format⟩

/-- Properties that are added leave the format alone: that of the flag is not taken. -/
theorem format?_addProperties (r : EngineRecord) (properties : List (String × String)) :
    (addProperties r properties).format? = r.format? := by
  induction properties generalizing r with
  | nil => rfl
  | cons property rest ih =>
    show (addProperties (if property.1 = EngineRecord.flagKey then r
      else r.set property.1 property.2) rest).format? = r.format?
    rw [ih]
    split
    · rfl
    · rename_i hne
      exact EngineRecord.format?_set_of_ne r _ hne

/-- The record tells the format set, whatever the further properties are. -/
theorem format?_record (c : EngineSettings) : c.record.format? = some c.format := by
  rw [record, format?_addProperties, EngineRecord.format?_ofFormat]

end EngineSettings

end PartitionStore
