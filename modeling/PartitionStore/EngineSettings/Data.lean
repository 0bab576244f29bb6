import PartitionStore.EngineSettings.Basic

/-!
# `PartitionStore.EngineSettings.Data`: settings as structured data

Settings can be kept in a document of nested values. They are written as an
object with one field for each setting, and read from such an object or from
the list of the nine settings in order.

Reading is strict about each value and generous about the rest: a field of
another name does not count.
-/

set_option autoImplicit false

namespace PartitionStore

/-- A value of a document. -/
inductive DataValue where
  | null
  | bool (b : Bool)
  /-- A number written without fraction and exponent. -/
  | whole (n : Int)
  /-- Any other number. -/
  | fractional
  | text (s : String)
  | list (items : List DataValue)
  | object (fields : List (String × DataValue))
  deriving Inhabited

namespace DataValue

/-- The field of an object with a name. -/
def field? (fields : List (String × DataValue)) (name : String) : Option DataValue :=
  (fields.find? fun f => f.1 == name).map Prod.snd

/-- The text that a value is. -/
def text? : DataValue → Option String
  | text s => some s
  | _ => none

/-- The truth value that a value is. -/
def bool? : DataValue → Option Bool
  | bool b => some b
  | _ => none

/-- The number, of 64 bits without a sign, that a value is. -/
def word? : DataValue → Option Nat
  | whole (.ofNat n) => if n < UInt64.size then some n else none
  | _ => none

/-- The name that a value is; a name may also stand as the only field of an
object, over nothing. -/
def name? : DataValue → Option String
  | text s => some s
  | object [(s, null)] => some s
  | _ => none

/-- The map from texts to texts that a value is. -/
def texts? : DataValue → Option (SortedMap String String)
  | object fields =>
    fields.foldlM (fun m (key, value) => value.text?.map (m.insert key)) SortedMap.empty
  | _ => none

end DataValue

namespace EngineSettings

/-- The names of the settings, in order. -/
def fieldNames : List String :=
  ["root_dir", "store_name", "persistence_type", "table_format", "validate_config_on_reopen",
   "restore_metadata_partition", "restore_data_partitions", "restore_threads",
   "engine_properties"]

/-- The values of the settings, in order. -/
def fieldValues (c : EngineSettings) : List DataValue :=
  [.text c.root.text, .text c.store, .text c.backend.name, .text c.format.name,
   .bool c.guardOnReopen, .bool c.withMetadata, .bool c.withData, .whole c.workers,
   .object (c.properties.toList.map fun (key, value) => (key, .text value))]

/-- The settings as an object with one field for each of them. -/
def toData (c : EngineSettings) : DataValue := .object (fieldNames.zip c.fieldValues)

/-- The settings that values, in order, make up. -/
def ofFieldValues? : List DataValue → Option EngineSettings
  | [root, store, backend, format, guarded, metadata, data, workers, properties] => do
    some {
      root := ⟨← root.text?⟩
      store := ← store.text?
      backend := ← backend.name? >>= BackendKind.ofName?
      format := ← format.name? >>= TableFormat.ofName?
      guardOnReopen := ← guarded.bool?
      withMetadata := ← metadata.bool?
      withData := ← data.bool?
      workers := ← workers.word?
      properties := ← properties.texts? }
  | _ => none

/-- The settings that a value is: an object in which each setting has its
field, or the list of the settings in order. -/
def ofData? : DataValue → Option EngineSettings
  | .object fields => fieldNames.mapM (DataValue.field? fields) >>= ofFieldValues?
  | .list items => ofFieldValues? items
  | _ => none

end EngineSettings

end PartitionStore
