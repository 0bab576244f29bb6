import PartitionStore.Path
import PartitionStore.Text.Decimal

/-!
# `PartitionStore.Naming`: what stores and partitions are called on disk

The folder of store `s` under the root is `{root}/s`, that of its partition
`i` is `{root}/s/s_i`. Partition ids are 32-bit numbers, `-1` being reserved
for the partition that holds what concerns the store as a whole.

* `idOfDirName?_eq_some_iff`: a directory name stands for an id exactly if it
  is the name made from that id, so no name is read in two ways.
* `isPlainName_of_isStoreName`: a store's folder is one step below its root.
-/

set_option autoImplicit false

namespace PartitionStore.Naming

/-- The id of the partition that holds what concerns the store as a whole. -/
def metadataId : Int32 := -1

/-- Whether a store can have this name: it has to be usable as the name of a
single directory, on systems too that separate names by backslashes. -/
def isStoreName (name : String) : Bool :=
  name != "" && name != "." && name != ".." &&
    !name.toList.any fun c => c == '/' || c == '\\' || c == Char.ofNat 0

/-- The folder of a store. -/
def storePath (root : Path) (store : String) : Path := root.join store

/-- The name of a partition's directory. -/
def dirName (store : String) (id : Int32) : String :=
  String.ofList (store.toList ++ '_' :: Text.ofInt id.toInt)

/-- The directory of a partition. -/
def partitionPath (root : Path) (store : String) (id : Int32) : Path :=
  (storePath root store).join (dirName store id)

/-- The partition id that a text stands for, unless names spell that id in another way. -/
def idOfDecimal? (digits : List Char) : Option Int32 := do
  let id ← Text.toInt32? digits
  if Text.ofInt id.toInt = digits then some id else none

/-- The id of the partition of `store` whose directory has this name. -/
def idOfDirName? (store name : String) : Option Int32 :=
  match store.toList.isPrefixOf? name.toList with
  | some ('_' :: digits) => idOfDecimal? digits
  | _ => none

/-- Digits are read as an id exactly if they are the digits of that id. -/
theorem idOfDecimal?_eq_some_iff {digits : List Char} {id : Int32} :
    idOfDecimal? digits = some id ↔ digits = Text.ofInt id.toInt := by
  simp only [idOfDecimal?, Option.bind_eq_bind, Option.bind_eq_some_iff]
  constructor
  · rintro ⟨read, -, h⟩
    split at h
    · rename_i hspelled
      rw [← Option.some.inj h, hspelled]
    · cases h
  · rintro rfl
    exact ⟨id, Text.toInt32?_ofInt id, if_pos rfl⟩

/-- What is left behind a front is what makes up the whole with it. -/
theorem isPrefixOf?_eq_some_iff {front whole rest : List Char} :
    front.isPrefixOf? whole = some rest ↔ whole = front ++ rest := by
  induction front generalizing whole with
  | nil =>
    show some whole = some rest ↔ _
    simp
  | cons c front ih =>
    cases whole with
    | nil =>
      show none = some rest ↔ _
      simp
    | cons d whole =>
      show (if c == d then front.isPrefixOf? whole else none) = some rest ↔ _
      by_cases h : c = d
      · simp [h, ih]
      · simp [h, Ne.symm h]

/-- A directory name stands for an id exactly if it is the name made from that id. -/
theorem idOfDirName?_eq_some_iff {store name : String} {id : Int32} :
    idOfDirName? store name = some id ↔ name = dirName store id := by
  have hname : name = dirName store id ↔
      name.toList = store.toList ++ '_' :: Text.ofInt id.toInt := by
    rw [dirName, ← String.toList_inj, String.toList_ofList]
  rw [hname]
  unfold idOfDirName?
  split
  · rename_i digits h
    rw [isPrefixOf?_eq_some_iff.1 h, idOfDecimal?_eq_some_iff]
    simp
  · rename_i h
    constructor
    · simp
    · intro e
      exact absurd (isPrefixOf?_eq_some_iff.2 e) (h _)

/-- A store name is a plain name, and so one step below its root. -/
theorem isPlainName_of_isStoreName {name : String} (h : isStoreName name = true) :
    Path.isPlainName name = true := by
  simp only [isStoreName, Bool.and_eq_true, Bool.not_eq_true', List.any_eq_false] at h
  simp only [Path.isPlainName, Bool.and_eq_true, Bool.not_eq_true', h.1, true_and]
  simp only [List.contains_eq_any_beq, List.any_eq_false]
  intro c hc
  have hslash : ¬c = '/' := by
    have := h.2 c hc
    simp_all
  simpa using fun e : '/' = c => hslash e.symm

end PartitionStore.Naming
