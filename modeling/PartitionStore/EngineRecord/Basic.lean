import PartitionStore.SortedMap
import PartitionStore.TableFormat
import PartitionStore.Text.Blank
import PartitionStore.Text.Pieces

/-!
# `PartitionStore.EngineRecord.Basic`: what a store remembers of its engine

An engine record maps property names to values. It is written once for a
store, and one property of it, the format flag, says which table format the
store was created with.

As a text a record has one line `key=value` for each property
(`properties`). Reading (`parse?`) is more generous than writing: blanks
around lines, keys and values do not count, blank lines and lines that start
with `#` are skipped, and the last line of a key stands. A text that
does not yield a record with a readable format flag yields no record at all,
so that a file cut short reads like a missing one.
-/

set_option autoImplicit false

namespace PartitionStore

/-- The properties that an engine recorded, by name. -/
@[ext] structure EngineRecord where
  /-- The values by property name. -/
  entries : SortedMap String String
  deriving DecidableEq

namespace EngineRecord

/-- The name of the property that records the table format. -/
def flagKey : String := "storage.plain.table.format.enabled"

/-- The text of a flag. -/
def flagText : Bool → String
  | true => "true"
  | false => "false"

/-- The flag with a text. -/
def flagOfText? : List Char → Option Bool
  | ['t', 'r', 'u', 'e'] => some true
  | ['f', 'a', 'l', 's', 'e'] => some false
  | _ => none

/-- The record that holds the format flag and nothing else. -/
def ofFormat (format : TableFormat) : EngineRecord :=
  ⟨SortedMap.empty.insert flagKey (flagText format.isPlain)⟩

/-- The record with a property set. -/
def set (r : EngineRecord) (key value : String) : EngineRecord := ⟨r.entries.insert key value⟩

/-- The value of a property. -/
def get? (r : EngineRecord) (key : String) : Option String := r.entries.get? key

/-- The table format that the record tells; `none` if the flag is missing or
neither `true` nor `false`. -/
def format? (r : EngineRecord) : Option TableFormat := do
  let text ← r.get? flagKey
  let flag ← flagOfText? (Text.trim text.toList)
  some (TableFormat.ofFlag flag)

/-! ### As text -/

/-- One line of a record's text, with its line end. -/
def line (key value : String) : List Char := key.toList ++ '=' :: value.toList ++ ['\n']

/-- The record as lines `key=value`, keys ascending. -/
def properties (r : EngineRecord) : String :=
  String.ofList (r.entries.toList.flatMap fun (key, value) => line key value)

/-- The record on one line, for messages. -/
def summary (r : EngineRecord) : String :=
  "\x7b" ++ ", ".intercalate (r.entries.toList.map fun (key, value) => key ++ "=" ++ value) ++
    "\x7d"

/-- What one line adds to the properties read so far; `none` if the line is malformed. -/
def addLine (entries : SortedMap String String) (line : List Char) :
    Option (SortedMap String String) :=
  let line := Text.trim line
  if line = [] ∨ line.head? = some '#' then some entries
  else do
    let (key, value) ← Text.splitFirst? '=' line
    let key := Text.trim key
    if key = [] then none
    else some (entries.insert (String.ofList key) (String.ofList (Text.trim value)))

/-- The properties that the lines of a text set. A line ends at a line feed; a
carriage return before it is a blank. -/
def parseEntries? (text : List Char) : Option (SortedMap String String) :=
  (Text.pieces '\n' text).foldlM addLine SortedMap.empty

/-- The record that a text holds, provided that it tells a table format. -/
def parse? (text : String) : Option EngineRecord := do
  let entries ← parseEntries? text.toList
  let record : EngineRecord := ⟨entries⟩
  if record.format?.isSome then some record else none

/-! ### Laws -/

/-- The text of a flag is read as that flag. -/
@[simp] theorem flagOfText?_flagText (flag : Bool) :
    flagOfText? (Text.trim (flagText flag).toList) = some flag := by
  cases flag <;> decide

/-- The record made for a format tells that format. -/
@[simp] theorem format?_ofFormat (format : TableFormat) :
    (ofFormat format).format? = some format := by
  simp [format?, get?, ofFormat]

/-- Setting another property does not change the format that a record tells. -/
theorem format?_set_of_ne (r : EngineRecord) {key : String} (value : String) (h : key ≠ flagKey) :
    (r.set key value).format? = r.format? := by
  simp only [format?, get?, set, SortedMap.get?_insert_of_ne _ _ (Ne.symm h)]

/-- Whatever is read as a record tells a format. -/
theorem isSome_format?_of_parse? {text : String} {r : EngineRecord} (h : parse? text = some r) :
    r.format?.isSome = true := by
  simp only [parse?, Option.bind_eq_bind, Option.bind_eq_some_iff] at h
  obtain ⟨entries, -, h⟩ := h
  split at h
  · rename_i hs
    exact Option.some.inj h ▸ hs
  · simp at h

end EngineRecord

end PartitionStore
