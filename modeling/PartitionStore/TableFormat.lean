/-!
# `PartitionStore.TableFormat`: the two table formats

A store is created with one of two table formats and keeps it. The format
is named in messages, kept as a flag in the engine record and as a code byte
in every table file.
-/

set_option autoImplicit false

namespace PartitionStore

/-- The physical layout that the tables of a store have. -/
inductive TableFormat where
  | plain
  | blockBased
  deriving DecidableEq, Repr, Inhabited

namespace TableFormat

/-- The name of a format in messages and configurations. -/
def name : TableFormat → String
  | plain => "PlainTable"
  | blockBased => "BlockBasedTable"

/-- The format with a name. -/
def ofName? : String → Option TableFormat
  | "PlainTable" => some plain
  | "BlockBasedTable" => some blockBased
  | _ => none

/-- The flag that the engine record keeps. -/
def isPlain : TableFormat → Bool
  | plain => true
  | blockBased => false

/-- The format that a flag stands for. -/
def ofFlag : Bool → TableFormat
  | true => plain
  | false => blockBased

/-- The code byte in a table file. -/
def code : TableFormat → UInt8
  | plain => 1
  | blockBased => 2

/-- The format with a code byte. -/
def ofCode? (byte : UInt8) : Option TableFormat :=
  if byte = 1 then some plain else if byte = 2 then some blockBased else none

/-- The flag of a format stands for that format. -/
@[simp] theorem ofFlag_isPlain (f : TableFormat) : ofFlag f.isPlain = f := by
  cases f <;> rfl

/-- The format of a flag has that flag. -/
@[simp] theorem isPlain_ofFlag (flag : Bool) : (ofFlag flag).isPlain = flag := by
  cases flag <;> rfl

/-- A format is known by its own name and by no other text. -/
theorem ofName?_eq_some_iff {text : String} {f : TableFormat} :
    ofName? text = some f ↔ text = f.name := by
  unfold ofName?
  split <;> cases f <;> simp_all [name]

/-- A code byte is read as a format exactly when it is the code of that format. -/
theorem ofCode?_eq_some_iff {byte : UInt8} {f : TableFormat} :
    ofCode? byte = some f ↔ byte = f.code := by
  unfold ofCode?
  cases f <;> by_cases h₁ : byte = 1 <;> by_cases h₂ : byte = 2 <;> simp_all [code]

end TableFormat

end PartitionStore
