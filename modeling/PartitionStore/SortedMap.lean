/-!
# `PartitionStore.SortedMap`: finite maps kept in key order

A map is the list of its bindings in strictly ascending key order, and the
order is part of the type. Two maps with the same look-ups are therefore
equal (`SortedMap.ext_get?`), so a law about look-ups is a law about the
maps themselves, and whoever prints a map prints it in key order.

* `get?_insert`, `get?_erase`, `get?_filter`: what each operation does to
  look-ups.
* `mem_toList_iff`: a binding is listed exactly when the look-up finds it.
* `ext_get?`: look-ups determine the map.
-/

set_option autoImplicit false

namespace PartitionStore

/-- A finite map, held as its bindings in strictly ascending key order. -/
@[ext] structure SortedMap (κ α : Type) [Ord κ] where
  /-- The bindings, smallest key first. -/
  toList : List (κ × α)
  /-- Keys ascend strictly, so no key is bound twice. -/
  ascending : toList.Pairwise (fun a b => compare a.1 b.1 = .lt)

namespace SortedMap

variable {κ α : Type} [Ord κ]

/-! ### Operations on binding lists -/

/-- The value of the first binding of `k`. -/
def lookupIn (k : κ) : List (κ × α) → Option α
  | [] => none
  | (k', v) :: rest => if compare k k' = .eq then some v else lookupIn k rest

/-- Binds `k` at its place in an ascending list, replacing an older binding. -/
def insertIn (k : κ) (v : α) : List (κ × α) → List (κ × α)
  | [] => [(k, v)]
  | (k', v') :: rest =>
    match compare k k' with
    | .lt => (k, v) :: (k', v') :: rest
    | .eq => (k, v) :: rest
    | .gt => (k', v') :: insertIn k v rest

/-- What is there after an insertion is the new pair, or was there before. -/
theorem mem_of_mem_insertIn {k : κ} {v : α} {b : κ × α} {l : List (κ × α)}
    (h : b ∈ insertIn k v l) : b = (k, v) ∨ b ∈ l := by
  induction l with
  | nil => simpa [insertIn] using h
  | cons head rest ih =>
    obtain ⟨k', v'⟩ := head
    simp only [insertIn] at h
    split at h
    · simpa using h
    · rcases List.mem_cons.1 h with h | h
      · exact .inl h
      · exact .inr (List.mem_cons_of_mem _ h)
    · rcases List.mem_cons.1 h with h | h
      · exact .inr (h ▸ List.mem_cons_self ..)
      · exact (ih h).imp_right (List.mem_cons_of_mem _)

variable [Std.TransOrd κ] [Std.LawfulEqOrd κ]

/-- An insertion keeps the keys in order. -/
theorem ascending_insertIn (k : κ) (v : α) {l : List (κ × α)}
    (h : l.Pairwise (fun a b => compare a.1 b.1 = .lt)) :
    (insertIn k v l).Pairwise (fun a b => compare a.1 b.1 = .lt) := by
  induction l with
  | nil => simp [insertIn]
  | cons head rest ih =>
    obtain ⟨k', v'⟩ := head
    obtain ⟨above, tail⟩ := List.pairwise_cons.1 h
    simp only [insertIn]
    split
    · rename_i hlt
      refine List.pairwise_cons.2 ⟨fun b hb => ?_, h⟩
      rcases List.mem_cons.1 hb with rfl | hb
      · exact hlt
      · exact Std.TransCmp.lt_trans hlt (above b hb)
    · rename_i heq
      have : k = k' := Std.LawfulEqCmp.compare_eq_iff_eq.1 heq
      subst this
      exact List.pairwise_cons.2 ⟨above, tail⟩
    · rename_i hgt
      refine List.pairwise_cons.2 ⟨fun b hb => ?_, ih tail⟩
      rcases mem_of_mem_insertIn hb with rfl | hb
      · exact Std.OrientedCmp.gt_iff_lt.1 hgt
      · exact above b hb

/-! ### The map operations -/

/-- The map without bindings. -/
def empty : SortedMap κ α := ⟨[], List.Pairwise.nil⟩

instance : Inhabited (SortedMap κ α) := ⟨empty⟩

/-- The value bound to `k`. -/
def get? (m : SortedMap κ α) (k : κ) : Option α := lookupIn k m.toList

/-- Binds `k` to `v`, replacing an older binding. -/
def insert (m : SortedMap κ α) (k : κ) (v : α) : SortedMap κ α :=
  ⟨insertIn k v m.toList, ascending_insertIn k v m.ascending⟩

/-- The bindings that satisfy `keep`. -/
def filter (m : SortedMap κ α) (keep : κ → α → Bool) : SortedMap κ α :=
  ⟨m.toList.filter (fun b => keep b.1 b.2), m.ascending.filter _⟩

/-- The map without a binding of `k`. -/
def erase (m : SortedMap κ α) (k : κ) : SortedMap κ α :=
  m.filter fun k' _ => compare k k' != .eq

/-- Whether `k` is bound. -/
def contains (m : SortedMap κ α) (k : κ) : Bool := (m.get? k).isSome

/-- How many keys are bound. -/
def size (m : SortedMap κ α) : Nat := m.toList.length

/-- The bound keys, ascending. -/
def keys (m : SortedMap κ α) : List κ := m.toList.map Prod.fst

/-- Inserts bindings one after another; the last binding of a key stands. -/
def ofList (bindings : List (κ × α)) : SortedMap κ α :=
  bindings.foldl (fun m b => m.insert b.1 b.2) empty

instance [DecidableEq κ] [DecidableEq α] : DecidableEq (SortedMap κ α) := fun m n =>
  if h : m.toList = n.toList then isTrue (SortedMap.ext h)
  else isFalse fun e => h (congrArg toList e)

/-! ### Look-ups -/

omit [Std.TransOrd κ] [Std.LawfulEqOrd κ] in
/-- Nothing is found in the map without pairs. -/
@[simp] theorem get?_empty (k : κ) : (empty : SortedMap κ α).get? k = none := rfl

omit [Std.TransOrd κ] in
/-- What is found for a key is what the pairs say; as the keys ascend there is one pair for each at
most. -/
theorem lookupIn_eq_some_iff {k : κ} {v : α} {l : List (κ × α)}
    (h : l.Pairwise (fun a b => compare a.1 b.1 = .lt)) :
    lookupIn k l = some v ↔ (k, v) ∈ l := by
  induction l with
  | nil => simp [lookupIn]
  | cons head rest ih =>
    obtain ⟨k', v'⟩ := head
    obtain ⟨above, tail⟩ := List.pairwise_cons.1 h
    simp only [lookupIn, List.mem_cons, Prod.mk.injEq]
    split
    · rename_i heq
      have : k = k' := Std.LawfulEqCmp.compare_eq_iff_eq.1 heq
      subst this
      constructor
      · intro hv
        exact .inl ⟨rfl, (Option.some.inj hv).symm⟩
      · rintro (⟨-, rfl⟩ | hmem)
        · rfl
        · -- No second entry has the key of the first: it would come after itself.
          have := above _ hmem
          simp at this
    · rename_i hne
      rw [ih tail]
      constructor
      · exact .inr
      · rintro (⟨rfl, -⟩ | hmem)
        · simp at hne
        · exact hmem

omit [Std.TransOrd κ] in
/-- A binding is listed exactly when the look-up finds it. -/
theorem mem_toList_iff {m : SortedMap κ α} {k : κ} {v : α} :
    (k, v) ∈ m.toList ↔ m.get? k = some v :=
  (lookupIn_eq_some_iff m.ascending).symm

omit [Std.TransOrd κ] in
/-- A look-up after an insertion finds the new value for its key, and what was there for any other.
-/
theorem lookupIn_insertIn (k q : κ) (v : α) {l : List (κ × α)} :
    lookupIn q (insertIn k v l) = if compare q k = .eq then some v else lookupIn q l := by
  induction l with
  | nil => simp [insertIn, lookupIn]
  | cons head rest ih =>
    obtain ⟨k', v'⟩ := head
    simp only [insertIn]
    split
    · simp [lookupIn]
    · rename_i heq
      have : k = k' := Std.LawfulEqCmp.compare_eq_iff_eq.1 heq
      subst this
      by_cases hq : compare q k = .eq <;> simp [lookupIn, hq]
    · rename_i hgt
      simp only [lookupIn, ih]
      by_cases hq : compare q k' = .eq
      · have : q = k' := Std.LawfulEqCmp.compare_eq_iff_eq.1 hq
        subst this
        have : compare q k ≠ .eq := by
          intro he
          have : q = k := Std.LawfulEqCmp.compare_eq_iff_eq.1 he
          subst this
          simp at hgt
        simp [this]
      · simp [hq]

/-- After an insertion the key has the new value and every other key its old one. -/
theorem get?_insert (m : SortedMap κ α) (k q : κ) (v : α) :
    (m.insert k v).get? q = if compare q k = .eq then some v else m.get? q :=
  lookupIn_insertIn k q v

/-- The value that was inserted is found. -/
@[simp] theorem get?_insert_self (m : SortedMap κ α) (k : κ) (v : α) :
    (m.insert k v).get? k = some v := by
  simp [get?_insert]

/-- For other keys nothing has changed. -/
theorem get?_insert_of_ne (m : SortedMap κ α) {k q : κ} (v : α) (h : q ≠ k) :
    (m.insert k v).get? q = m.get? q := by
  rw [get?_insert, if_neg (fun e => h (Std.LawfulEqCmp.compare_eq_iff_eq.1 e))]

omit [Std.TransOrd κ] in
/-- A filter keeps a binding exactly when the test accepts it. -/
theorem get?_filter (m : SortedMap κ α) (keep : κ → α → Bool) (k : κ) :
    (m.filter keep).get? k = (m.get? k).filter (keep k) := by
  apply Option.ext
  intro v
  rw [← mem_toList_iff, Option.filter_eq_some_iff, ← mem_toList_iff]
  exact List.mem_filter

omit [Std.TransOrd κ] in
/-- After an erasure the key is unbound and every other key keeps its value. -/
theorem get?_erase (m : SortedMap κ α) (k q : κ) :
    (m.erase k).get? q = if compare k q = .eq then none else m.get? q := by
  rw [erase, get?_filter]
  by_cases h : compare k q = .eq
  · cases m.get? q <;> simp [h, Option.filter]
  · cases m.get? q <;> simp [h, Option.filter]

omit [Std.TransOrd κ] in
/-- A key that was removed is not found. -/
@[simp] theorem get?_erase_self (m : SortedMap κ α) (k : κ) : (m.erase k).get? k = none := by
  simp [get?_erase]

omit [Std.TransOrd κ] in
/-- For other keys nothing has changed. -/
theorem get?_erase_of_ne (m : SortedMap κ α) {k q : κ} (h : q ≠ k) :
    (m.erase k).get? q = m.get? q := by
  rw [get?_erase, if_neg (fun e => h (Std.LawfulEqCmp.compare_eq_iff_eq.1 e).symm)]

/-! ### Extensionality -/

/-- Lists with ascending keys and the same pairs are equal. -/
theorem eq_of_mem_iff {l l' : List (κ × α)}
    (h : l.Pairwise (fun a b => compare a.1 b.1 = .lt))
    (h' : l'.Pairwise (fun a b => compare a.1 b.1 = .lt))
    (same : ∀ b, b ∈ l ↔ b ∈ l') : l = l' := by
  induction l generalizing l' with
  | nil =>
    cases l' with
    | nil => rfl
    | cons b _ => exact absurd ((same b).2 (List.mem_cons_self ..)) (by simp)
  | cons a rest ih =>
    cases l' with
    | nil => exact absurd ((same a).1 (List.mem_cons_self ..)) (by simp)
    | cons b rest' =>
      obtain ⟨above, tail⟩ := List.pairwise_cons.1 h
      obtain ⟨above', tail'⟩ := List.pairwise_cons.1 h'
      -- Were the two first entries not the same, each would come before the other.
      have hab : a = b := by
        rcases List.mem_cons.1 ((same a).1 (List.mem_cons_self ..)) with e | ha
        · exact e
        · rcases List.mem_cons.1 ((same b).2 (List.mem_cons_self ..)) with e | hb
          · exact e.symm
          · have := Std.TransCmp.lt_trans (above b hb) (above' a ha)
            simp at this
      subst hab
      have irrefl : ∀ c : κ × α, compare c.1 c.1 ≠ .lt := by simp
      refine congrArg _ (ih tail tail' fun c => ⟨fun hc => ?_, fun hc => ?_⟩)
      · rcases List.mem_cons.1 ((same c).1 (List.mem_cons_of_mem _ hc)) with rfl | hc'
        · exact absurd (above _ hc) (irrefl _)
        · exact hc'
      · rcases List.mem_cons.1 ((same c).2 (List.mem_cons_of_mem _ hc)) with rfl | hc'
        · exact absurd (above' _ hc) (irrefl _)
        · exact hc'

/-- Look-ups determine the map. -/
theorem ext_get? {m n : SortedMap κ α} (h : ∀ k, m.get? k = n.get? k) : m = n := by
  refine SortedMap.ext (eq_of_mem_iff m.ascending n.ascending fun b => ?_)
  obtain ⟨k, v⟩ := b
  rw [mem_toList_iff, mem_toList_iff, h]

end SortedMap

end PartitionStore
