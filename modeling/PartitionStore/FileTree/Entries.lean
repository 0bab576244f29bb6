import PartitionStore.FileTree.FileName
import PartitionStore.Path

/-!
# `PartitionStore.FileTree.Entries`: what a directory holds

The entries of a directory are a list in the order of their names, and each
entry brings along what is below it. So the entries of the top directory are
a whole tree.

A location lists the names from an entry up to the top, innermost first: the
entry `name` of the directory at `loc` is at `name :: loc`, and the top is at
`[]`. `at?` looks a location up, and `changeAt` changes the entries of the
directory at one.

* `at?_append`: a look-up goes on from where another one ended.
* `at?_changeAt_self`, `at?_changeAt_below`, `node_changeAt_of_not_suffix`:
  a change at a location shows there, and below it, and nowhere else.
* `WellFormed.changeAt`: what keeps one directory in order keeps the tree in
  order.
* `eq_of_node_at?`: well-formed entries with the same look-ups are equal.
-/

set_option autoImplicit false

namespace PartitionStore

/-- A place in a file tree: the names from the entry up to the top. -/
abbrev Location := List String

/-- What a file holds. -/
abbrev Bytes := List UInt8

/-- A thing in a file tree. -/
inductive Node where
  /-- A regular file with its contents. -/
  | file (data : Bytes)
  /-- A directory; its entries are the nodes one step below it. -/
  | dir
  /-- A symbolic link; its target is looked up only when it is followed. -/
  | link (target : Path)
  deriving DecidableEq, Repr, Inhabited

/-- The bytes that a node holds by itself. -/
def Node.size : Node → Nat
  | file data => data.length
  | _ => 0

/-- The bytes that the name of a directory entry may take. -/
def maxNameBytes : Nat := 255

/-- Whether a directory entry can have this name. It may be one that is no text. -/
def isEntryName (name : String) : Bool :=
  Path.isPlainName name && FileName.isWritten name && FileName.byteLength name ≤ maxNameBytes

/-- A text with the mark is that of a name which is no text, and of nothing else. -/
theorem isEntryName_of_text {name : String} (h : FileName.mark ∉ name.toList) :
    isEntryName name = (Path.isPlainName name && name.utf8ByteSize ≤ maxNameBytes) := by
  rw [isEntryName, FileName.isWritten_of_text h, FileName.byteLength_of_text h, Bool.and_true]

/-- The entries of a directory. -/
inductive Entries where
  /-- No entries. -/
  | none
  /-- The entry `name`, what is below it, and the entries behind it. -/
  | entry (name : String) (node : Node) (inside rest : Entries)
  deriving DecidableEq, Repr, Inhabited

namespace Entries

/-! ### One directory -/

/-- The entry of a name, with what is below it. -/
def lookup (name : String) : Entries → Option (Node × Entries)
  | none => .none
  | entry n node inside rest => if n = name then some (node, inside) else rest.lookup name

/-- Puts an entry, with what is below it, in its place, or in the place of the entry of that
name. -/
def insert : Entries → String → Node → Entries → Entries
  | none, name, node, inside => entry name node inside none
  | entry n m i rest, name, node, inside =>
    match compare name n with
    | .lt => entry name node inside (entry n m i rest)
    | .eq => entry name node inside rest
    | .gt => entry n m i (rest.insert name node inside)

/-- Removes the entry of a name, with what is below it. -/
def erase (name : String) : Entries → Entries
  | none => none
  | entry n node inside rest =>
    if n = name then rest.erase name else entry n node inside (rest.erase name)

/-- Changes what is below the directory of a name. -/
def changeInside (name : String) (change : Entries → Entries) : Entries → Entries
  | none => none
  | entry n .dir inside rest =>
    entry n .dir (if n = name then change inside else inside) (rest.changeInside name change)
  | entry n node inside rest => entry n node inside (rest.changeInside name change)

/-- The names and nodes of the entries, in order. -/
def toList : Entries → List (String × Node)
  | none => []
  | entry name node _ rest => (name, node) :: rest.toList

/-- The nodes of the tree whose top directory is at `loc`, each with its location. -/
def nodesBelow (loc : Location) : Entries → List (Location × Node)
  | none => []
  | entry name node inside rest =>
    (name :: loc, node) :: (inside.nodesBelow (name :: loc) ++ rest.nodesBelow loc)

/-- The bytes of all files in the tree, as far as the names that lead to a file
take no more than `room` bytes, a slash before each name included. -/
def sizeWithin : Entries → Nat → Nat
  | none, _ => 0
  | entry name node inside rest, room =>
    (if FileName.byteLength name < room then
      node.size + inside.sizeWithin (room - (FileName.byteLength name + 1))
    else 0) + rest.sizeWithin room

/-- Where there are no entries none is found. -/
@[simp] theorem lookup_none (name : String) : lookup name none = .none := rfl

/-- The entry that was put in is found, with what is below it. -/
theorem lookup_insert_self (name : String) (node : Node) (inside es : Entries) :
    lookup name (es.insert name node inside) = some (node, inside) := by
  induction es with
  | none => simp [insert, lookup]
  | entry n m i rest _ ih =>
    simp only [insert]
    split
    · simp [lookup]
    · simp [lookup]
    · rename_i h
      have : n ≠ name := by
        rintro rfl
        simp [Std.ReflCmp.compare_self] at h
      simp [lookup, this, ih]

/-- Entries of other names are what they were. -/
theorem lookup_insert_of_ne {name other : String} (h : other ≠ name) (node : Node)
    (inside es : Entries) : lookup other (es.insert name node inside) = lookup other es := by
  induction es with
  | none => simp [insert, lookup, h.symm]
  | entry n m i rest _ ih =>
    simp only [insert]
    split
    · simp [lookup, h.symm]
    · rename_i heq
      have : name = n := Std.LawfulEqCmp.compare_eq_iff_eq.1 heq
      subst this
      simp [lookup, h.symm]
    · simp [lookup, ih]

/-- An entry that was removed is not found. -/
theorem lookup_erase_self (name : String) (es : Entries) : lookup name (es.erase name) = .none := by
  induction es with
  | none => rfl
  | entry n m i rest _ ih =>
    simp only [erase]
    split
    · exact ih
    · rename_i h
      simp [lookup, h, ih]

/-- Entries of other names are what they were. -/
theorem lookup_erase_of_ne {name other : String} (h : other ≠ name) (es : Entries) :
    lookup other (es.erase name) = lookup other es := by
  induction es with
  | none => rfl
  | entry n m i rest _ ih =>
    simp only [erase]
    split
    · rename_i hn
      subst hn
      simp [lookup, h.symm, ih]
    · simp [lookup, ih]

/-- What a change of what is below directories does to one entry. -/
def applyInside (change : Entries → Entries) : Node × Entries → Node × Entries
  | (.dir, inside) => (.dir, change inside)
  | (node, inside) => (node, inside)

/-- A change of what is below a node leaves the node as it is. -/
@[simp] theorem applyInside_fst (change : Entries → Entries) (here : Node × Entries) :
    (applyInside change here).1 = here.1 := by
  obtain ⟨node, inside⟩ := here
  cases node <;> rfl

/-- The change is seen below the directory of that name, and a file or link of that name has nothing
below it to change. -/
theorem lookup_changeInside_self (name : String) (change : Entries → Entries) (es : Entries) :
    lookup name (es.changeInside name change) = (lookup name es).map (applyInside change) := by
  induction es with
  | none => rfl
  | entry n m i rest _ ih =>
    by_cases h : n = name
    · cases m <;> simp [changeInside, lookup, h, applyInside]
    · cases m <;> simp [changeInside, lookup, h, ih]

/-- Entries of other names are what they were. -/
theorem lookup_changeInside_of_ne {name other : String} (h : other ≠ name)
    (change : Entries → Entries) (es : Entries) :
    lookup other (es.changeInside name change) = lookup other es := by
  induction es with
  | none => rfl
  | entry n m i rest _ ih =>
    by_cases hn : n = other
    · have : n ≠ name := hn ▸ h
      cases m <;> simp [changeInside, lookup, hn, h]
    · cases m <;> simp [changeInside, lookup, hn, ih]

/-- An entry that can be looked up is listed. -/
theorem mem_toList_of_lookup {name : String} {es : Entries} {there : Node × Entries}
    (h : es.lookup name = some there) : (name, there.1) ∈ es.toList := by
  induction es with
  | none => simp at h
  | entry n m i rest _ ih =>
    simp only [lookup] at h
    split at h
    · rename_i hn
      simp only [Option.some.injEq] at h
      simp [toList, ← h, hn]
    · exact List.mem_cons_of_mem _ (ih h)

/-! ### Locations -/

/-- What is at a location seen from `here`: the node, with what is below it. -/
def at? (here : Node × Entries) : Location → Option (Node × Entries)
  | [] => some here
  | name :: parent =>
    match at? here parent with
    | some (.dir, es) => es.lookup name
    | _ => .none

/-- Changes the entries of the directory at a location. Where there is no
directory, nothing changes. -/
def changeAt (change : Entries → Entries) : Location → Entries → Entries
  | [], es => change es
  | name :: parent, es => changeAt (changeInside name change) parent es

/-- At the top is what the look-up starts from. -/
@[simp] theorem at?_nil (here : Node × Entries) : at? here [] = some here := rfl

/-- One name further down, the entry of that name is looked up in the directory above. -/
theorem at?_cons (here : Node × Entries) (name : String) (parent : Location) :
    at? here (name :: parent) =
      match at? here parent with
      | some (.dir, es) => es.lookup name
      | _ => .none := rfl

/-- A look-up goes on from where another one ended. -/
theorem at?_append (here : Node × Entries) (inner outer : Location) :
    at? here (inner ++ outer) = (at? here outer).bind fun there => at? there inner := by
  induction inner with
  | nil => simp
  | cons name inner ih =>
    rw [List.cons_append, at?_cons, ih]
    cases at? here outer <;> simp [at?_cons]

/-- A look-up that ends below something goes through a directory. -/
theorem at?_parent {here : Node × Entries} {name : String} {parent : Location}
    {there : Node × Entries} (h : at? here (name :: parent) = some there) :
    ∃ es, at? here parent = some (.dir, es) ∧ es.lookup name = some there := by
  rw [at?_cons] at h
  split at h
  · exact ⟨_, by assumption, h⟩
  · simp at h

/-- A change at a location shows there. -/
theorem at?_changeAt_self (change : Entries → Entries) (loc : Location) (es : Entries) :
    at? (.dir, changeAt change loc es) loc = (at? (.dir, es) loc).map (applyInside change) := by
  induction loc generalizing change with
  | nil => rfl
  | cons name parent ih =>
    rw [changeAt, at?_cons, ih, at?_cons]
    cases at? (.dir, es) parent with
    | none => rfl
    | some there =>
      obtain ⟨node, inside⟩ := there
      cases node with
      | dir => simp [applyInside, lookup_changeInside_self]
      | file data => simp [applyInside]
      | link target => simp [applyInside]

/-- A change at a location shows below it. -/
theorem at?_changeAt_below (change : Entries → Entries) (inner loc : Location) (es : Entries) :
    at? (.dir, changeAt change loc es) (inner ++ loc) =
      ((at? (.dir, es) loc).map (applyInside change)).bind fun there => at? there inner := by
  rw [at?_append, at?_changeAt_self]

/-- A change at a location shows only there and below it. -/
theorem node_changeAt_of_not_suffix (change : Entries → Entries) {loc other : Location}
    (h : ¬loc <:+ other) (es : Entries) :
    (at? (.dir, changeAt change loc es) other).map Prod.fst =
      (at? (.dir, es) other).map Prod.fst := by
  induction loc generalizing change with
  | nil => exact absurd (List.nil_suffix ..) h
  | cons name parent ih =>
    rw [changeAt]
    by_cases hp : parent <:+ other
    · -- Inside `parent`, but under another name than the one whose inside changes.
      obtain ⟨inner, rfl⟩ := hp
      rcases List.eq_nil_or_concat inner with rfl | ⟨inner, x, rfl⟩
      · simp [at?_changeAt_self, Function.comp_def]
      · have hx : x ≠ name := by
          rintro rfl
          exact h ⟨inner, by simp⟩
        have split : inner ++ [x] ++ parent = inner ++ (x :: parent) := by simp
        rw [List.concat_eq_append, split, at?_append, at?_append (.dir, es)]
        have same : at? (.dir, changeAt (changeInside name change) parent es) (x :: parent) =
            at? (.dir, es) (x :: parent) := by
          rw [at?_cons, at?_changeAt_self, at?_cons]
          cases at? (.dir, es) parent with
          | none => rfl
          | some there =>
            obtain ⟨node, inside⟩ := there
            cases node <;> simp [applyInside, lookup_changeInside_of_ne hx]
        rw [same]
    · exact ih _ hp

/-! ### Good order -/

/-- All names of the entries come after `name`. -/
def ComeAfter (name : String) : Entries → Prop
  | none => True
  | entry n _ _ rest => compare name n = .lt ∧ rest.ComeAfter name

/-- Names are usable and ascend strictly, and only directories hold anything. -/
def WellFormed : Entries → Prop
  | none => True
  | entry name node inside rest =>
    isEntryName name = true ∧ rest.ComeAfter name ∧ (node ≠ .dir → inside = none) ∧
      inside.WellFormed ∧ rest.WellFormed

/-- What comes after a name comes after all names before it. -/
theorem ComeAfter.trans {a b : String} (h : compare a b = .lt) {es : Entries}
    (hb : es.ComeAfter b) : es.ComeAfter a := by
  induction es with
  | none => trivial
  | entry n _ _ rest _ ih => exact ⟨Std.TransCmp.lt_trans h hb.1, ih hb.2⟩

/-- A name that all entries come after is not among them. -/
theorem lookup_of_comeAfter {name : String} {es : Entries} (h : es.ComeAfter name) :
    es.lookup name = .none := by
  induction es with
  | none => rfl
  | entry n _ _ rest _ ih =>
    have : n ≠ name := by
      rintro rfl
      have := h.1
      simp [Std.ReflCmp.compare_self] at this
    simp [lookup, this, ih h.2]

/-- What is listed comes after the name that all entries come after. -/
theorem compare_of_mem_toList {name : String} {es : Entries} (h : es.ComeAfter name)
    {b : String × Node} (hb : b ∈ es.toList) : compare name b.1 = .lt := by
  induction es with
  | none => simp [toList] at hb
  | entry n m _ rest _ ih =>
    rcases List.mem_cons.1 hb with rfl | hb
    · exact h.1
    · exact ih h.2 hb

/-- An entry whose name comes after may be put in. -/
theorem ComeAfter.insert {a name : String} {node : Node} {inside es : Entries}
    (h : compare a name = .lt) (hes : es.ComeAfter a) :
    (es.insert name node inside).ComeAfter a := by
  induction es with
  | none => exact ⟨h, trivial⟩
  | entry n m i rest _ ih =>
    simp only [Entries.insert]
    split
    · exact ⟨h, hes⟩
    · exact ⟨h, hes.2⟩
    · exact ⟨hes.1, ih hes.2⟩

/-- What is left after a removal still comes after the name. -/
theorem ComeAfter.erase {a name : String} {es : Entries} (hes : es.ComeAfter a) :
    (es.erase name).ComeAfter a := by
  induction es with
  | none => trivial
  | entry n m i rest _ ih =>
    simp only [Entries.erase]
    split
    · exact ih hes.2
    · exact ⟨hes.1, ih hes.2⟩

/-- So do the entries whose insides change. -/
theorem ComeAfter.changeInside {a name : String} {change : Entries → Entries} {es : Entries}
    (hes : es.ComeAfter a) : (es.changeInside name change).ComeAfter a := by
  induction es with
  | none => trivial
  | entry n m i rest _ ih => cases m <;> exact ⟨hes.1, ih hes.2⟩

/-- A usable name, with nothing below it unless it is a directory, is put in its place in the order.
-/
theorem WellFormed.insert {name : String} {node : Node} {inside es : Entries}
    (hes : es.WellFormed) (hname : isEntryName name = true)
    (hnode : node ≠ .dir → inside = none) (hinside : inside.WellFormed) :
    (es.insert name node inside).WellFormed := by
  induction es with
  | none => exact ⟨hname, trivial, hnode, hinside, trivial⟩
  | entry n m i rest _ ih =>
    obtain ⟨h₁, h₂, h₃, h₄, h₅⟩ := hes
    simp only [Entries.insert]
    split
    · rename_i hlt
      exact ⟨hname, ⟨hlt, h₂.trans hlt⟩, hnode, hinside, h₁, h₂, h₃, h₄, h₅⟩
    · rename_i heq
      have : name = n := Std.LawfulEqCmp.compare_eq_iff_eq.1 heq
      subst this
      exact ⟨hname, h₂, hnode, hinside, h₅⟩
    · rename_i hgt
      exact ⟨h₁, h₂.insert (Std.OrientedCmp.gt_iff_lt.1 hgt), h₃, h₄, ih h₅⟩

/-- What is left after a removal is in order. -/
theorem WellFormed.erase {name : String} {es : Entries} (hes : es.WellFormed) :
    (es.erase name).WellFormed := by
  induction es with
  | none => trivial
  | entry n m i rest _ ih =>
    obtain ⟨h₁, h₂, h₃, h₄, h₅⟩ := hes
    simp only [Entries.erase]
    split
    · exact ih h₅
    · exact ⟨h₁, h₂.erase, h₃, h₄, ih h₅⟩

/-- Entries stay in order if what is below one of them does. -/
theorem WellFormed.changeInside {name : String} {change : Entries → Entries} {es : Entries}
    (hchange : ∀ inside : Entries, inside.WellFormed → (change inside).WellFormed)
    (hes : es.WellFormed) : (es.changeInside name change).WellFormed := by
  induction es with
  | none => trivial
  | entry n m i rest _ ih =>
    obtain ⟨h₁, h₂, h₃, h₄, h₅⟩ := hes
    cases m with
    | dir =>
      refine ⟨h₁, h₂.changeInside, fun h => absurd rfl h, ?_, ih h₅⟩
      split
      · exact hchange i h₄
      · exact h₄
    | file data => exact ⟨h₁, h₂.changeInside, h₃, h₄, ih h₅⟩
    | link target => exact ⟨h₁, h₂.changeInside, h₃, h₄, ih h₅⟩

/-- What keeps one directory in order keeps the tree in order. -/
theorem WellFormed.changeAt {change : Entries → Entries} {loc : Location} {es : Entries}
    (hchange : ∀ inside : Entries, inside.WellFormed → (change inside).WellFormed)
    (hes : es.WellFormed) : (es.changeAt change loc).WellFormed := by
  induction loc generalizing change with
  | nil => exact hchange es hes
  | cons name parent ih => exact ih fun _ h => h.changeInside hchange

/-- What is found has a usable name, is in order below, and has nothing below it unless it is a
directory. -/
theorem WellFormed.lookup {name : String} {es : Entries} {node : Node} {inside : Entries}
    (hes : es.WellFormed) (h : es.lookup name = some (node, inside)) :
    isEntryName name = true ∧ (node ≠ .dir → inside = none) ∧ inside.WellFormed := by
  induction es with
  | none => simp at h
  | entry n m i rest _ ih =>
    obtain ⟨h₁, h₂, h₃, h₄, h₅⟩ := hes
    simp only [Entries.lookup] at h
    split at h
    · rename_i hn
      simp only [Option.some.injEq, Prod.mk.injEq] at h
      obtain ⟨rfl, rfl⟩ := h
      exact ⟨hn ▸ h₁, h₃, h₄⟩
    · exact ih h₅ h

/-- The entries are listed in the order of their names. -/
theorem WellFormed.ascending {es : Entries} (hes : es.WellFormed) :
    es.toList.Pairwise fun a b => compare a.1 b.1 = .lt := by
  induction es with
  | none => exact List.Pairwise.nil
  | entry n m i rest _ ih =>
    exact List.pairwise_cons.2 ⟨fun b hb => compare_of_mem_toList hes.2.1 hb, ih hes.2.2.2.2⟩

/-- Exactly the entries that are listed can be looked up. -/
theorem WellFormed.mem_toList_iff {es : Entries} (hes : es.WellFormed) {name : String}
    {node : Node} : (name, node) ∈ es.toList ↔ (es.lookup name).map Prod.fst = some node := by
  constructor
  · intro h
    induction es with
    | none => simp [toList] at h
    | entry n m i rest _ ih =>
      rcases List.mem_cons.1 h with h | h
      · obtain ⟨rfl, rfl⟩ := Prod.mk.inj h
        simp [Entries.lookup]
      · have hne : n ≠ name := by
          rintro rfl
          have := compare_of_mem_toList hes.2.1 h
          simp [Std.ReflCmp.compare_self] at this
        simpa [Entries.lookup, hne] using ih hes.2.2.2.2 h
  · intro h
    obtain ⟨there, hthere, rfl⟩ := Option.map_eq_some_iff.1 h
    exact mem_toList_of_lookup hthere

/-- What is found deeper in the tree is in order too, by induction on the location. -/
theorem WellFormed.at? {loc : Location} {es : Entries} {there : Node × Entries}
    (hes : es.WellFormed) (h : Entries.at? (.dir, es) loc = some there) :
    (there.1 ≠ .dir → there.2 = none) ∧ there.2.WellFormed := by
  induction loc generalizing there with
  | nil =>
    simp only [at?_nil, Option.some.injEq] at h
    exact h ▸ ⟨fun h => absurd rfl h, hes⟩
  | cons name parent ih =>
    obtain ⟨inside, hparent, hname⟩ := at?_parent h
    exact ((ih hparent).2.lookup hname).2

/-! ### Look-ups tell everything -/

/-- Seen from what is below an entry, look-ups are those that go through the entry. -/
theorem at?_append_singleton (es : Entries) (name : String) (loc : Location) :
    at? (.dir, es) (loc ++ [name]) = (es.lookup name).bind fun there => at? there loc := by
  rw [at?_append]
  rfl

/-- Below what is no directory nothing is found. -/
theorem at?_of_ne_dir {node : Node} (h : node ≠ .dir) (es : Entries) {loc : Location}
    (hloc : loc ≠ []) : at? (node, es) loc = .none := by
  induction loc with
  | nil => exact absurd rfl hloc
  | cons name parent ih =>
    rw [at?_cons]
    cases parent with
    | nil => cases node <;> simp_all
    | cons name' parent' => simp [ih]

/-- Well-formed entries with the same look-ups are equal. -/
theorem eq_of_node_at? {a b : Entries} (ha : a.WellFormed) (hb : b.WellFormed)
    (h : ∀ loc, (at? (.dir, a) loc).map Prod.fst = (at? (.dir, b) loc).map Prod.fst) : a = b := by
  -- The names at the top alone, since they fix which entry comes first; the induction is on the
  -- entries of one of the two.
  have names : ∀ name, (a.lookup name).map Prod.fst = (b.lookup name).map Prod.fst :=
    fun name => h [name]
  induction a generalizing b with
  | none =>
    cases b with
    | none => rfl
    | entry n m i rest =>
      have := names n
      simp [lookup] at this
  | entry n m i rest ihInside ihRest =>
    cases b with
    | none =>
      have := names n
      simp [lookup] at this
    | entry n' m' i' rest' =>
      obtain ⟨-, after, hm, hi, hrest⟩ := ha
      obtain ⟨-, after', hm', hi', hrest'⟩ := hb
      -- The smaller of the two first names would be in one list and before all of the other.
      have hn : n = n' := by
        cases hc : compare n n' with
        | eq => exact Std.LawfulEqCmp.compare_eq_iff_eq.1 hc
        | lt =>
          have all : (entry n' m' i' rest').ComeAfter n := ⟨hc, after'.trans hc⟩
          have := names n
          rw [lookup_of_comeAfter all] at this
          simp [lookup] at this
        | gt =>
          have hc' : compare n' n = .lt := Std.OrientedCmp.gt_iff_lt.1 hc
          have all : (entry n m i rest).ComeAfter n' := ⟨hc', after.trans hc'⟩
          have := names n'
          rw [lookup_of_comeAfter all] at this
          simp [lookup] at this
      subst hn
      have hnode : m = m' := by
        have := names n
        simpa [lookup] using this
      subst hnode
      -- Only a directory has an inside, and in it the two agree by `h` below `n`.
      have hinside : i = i' := by
        by_cases hdir : m = .dir
        · subst hdir
          have inner : ∀ loc, (at? (.dir, i) loc).map Prod.fst =
              (at? (.dir, i') loc).map Prod.fst := fun loc => by
            have := h (loc ++ [n])
            simpa [at?_append_singleton, lookup] using this
          exact ihInside hi hi' inner fun name => inner [name]
        · rw [hm hdir, hm' hdir]
      subst hinside
      -- The rest: no entry of it is named `n`, since it comes after.
      have others : ∀ loc, (at? (.dir, rest) loc).map Prod.fst =
          (at? (.dir, rest') loc).map Prod.fst := fun loc => by
        rcases List.eq_nil_or_concat loc with rfl | ⟨loc, x, rfl⟩
        · rfl
        · rw [List.concat_eq_append, at?_append_singleton, at?_append_singleton]
          by_cases hx : n = x
          · subst hx
            rw [lookup_of_comeAfter after, lookup_of_comeAfter after']
          · have := h (loc ++ [x])
            simpa [at?_append_singleton, lookup, hx] using this
      rw [ihRest hrest hrest' others fun name => others [name]]

end Entries

end PartitionStore
