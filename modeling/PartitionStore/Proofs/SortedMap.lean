import PartitionStore.SortedMap

/-!
# `PartitionStore.Proofs.SortedMap`: maps and lists of bindings

* `get?_ofList`: inserting bindings one after another leaves each key with its
  last value.
* `lookup_reverse_toList`: the bindings of a map are in no danger of that, since
  each key is bound once.
* `lt_of_ascending`: byte strings as keys ascend in lexicographic order.
-/

set_option autoImplicit false

namespace PartitionStore.SortedMap

variable {κ α : Type} [Ord κ] [Std.TransOrd κ] [Std.LawfulEqOrd κ]

section Lookup

variable [BEq κ] [LawfulBEq κ]

/-- After several insertions a key has the value that was inserted last. -/
theorem get?_ofList (bindings : List (κ × α)) (key : κ) :
    (ofList bindings).get? key = bindings.reverse.lookup key := by
  -- The last insertion is the outermost one, so the induction is on the reversed list.
  suffices h : ∀ reversed : List (κ × α),
      (reversed.reverse.foldl (fun m b => m.insert b.1 b.2) empty).get? key =
        reversed.lookup key by
    simpa [ofList] using h bindings.reverse
  intro reversed
  induction reversed with
  | nil => rfl
  | cons binding rest ih =>
      obtain ⟨k, v⟩ := binding
      rw [List.reverse_cons, List.foldl_append, List.foldl_cons, List.foldl_nil, get?_insert, ih]
      by_cases hk : key = k
      · subst hk
        simp
      · have hne : compare key k ≠ .eq := fun e => hk (Std.LawfulEqCmp.compare_eq_iff_eq.1 e)
        have hb : (key == k) = false := by simpa using hk
        simp [List.lookup_cons, hne, hb]

omit [Ord κ] [Std.TransOrd κ] [Std.LawfulEqOrd κ] in
/-- Where no key is bound twice, what is looked up is what is there. -/
theorem lookup_eq_some_iff {bindings : List (κ × α)}
    (h : bindings.Pairwise fun a b => a.1 ≠ b.1) {key : κ} {value : α} :
    bindings.lookup key = some value ↔ (key, value) ∈ bindings := by
  induction bindings with
  | nil => simp
  | cons binding rest ih =>
      obtain ⟨k, v⟩ := binding
      obtain ⟨first, tail⟩ := List.pairwise_cons.1 h
      by_cases hk : key = k
      · subst hk
        have hrest : (key, value) ∉ rest := fun hmem => first _ hmem rfl
        simp [hrest, eq_comm]
      · have hb : (key == k) = false := by simpa using hk
        simp [List.lookup_cons, hb, ih tail, hk]

omit [Std.TransOrd κ] [BEq κ] [LawfulBEq κ] in
/-- No key is there twice. -/
theorem keys_ne (m : SortedMap κ α) : m.toList.Pairwise fun a b => a.1 ≠ b.1 := by
  refine m.ascending.imp ?_
  intro a b h e
  rw [e] at h
  simp at h

omit [Std.TransOrd κ] in
/-- In a map's own bindings the last value of a key is its only one. -/
theorem lookup_reverse_toList (m : SortedMap κ α) (key : κ) :
    m.toList.reverse.lookup key = m.get? key := by
  have h : m.toList.reverse.Pairwise fun a b => a.1 ≠ b.1 :=
    List.pairwise_reverse.2 (m.keys_ne.imp fun h e => h e.symm)
  apply Option.ext
  intro value
  rw [lookup_eq_some_iff h, List.mem_reverse, mem_toList_iff]

end Lookup

/-- A map is made again from its own bindings. -/
theorem ofList_toList (m : SortedMap κ α) : ofList m.toList = m := by
  classical
  exact ext_get? fun key => by rw [get?_ofList, lookup_reverse_toList]

/-! ### Keys that are not bound -/

omit [Std.TransOrd κ] in
/-- There is nothing to erase where the key is not bound. -/
theorem erase_of_get?_eq_none {m : SortedMap κ α} {key : κ} (h : m.get? key = none) :
    m.erase key = m := by
  refine SortedMap.ext (List.filter_eq_self.2 ?_)
  rintro ⟨k, value⟩ hmem
  refine bne_iff_ne.2 fun e => ?_
  obtain rfl := Std.LawfulEqCmp.compare_eq_iff_eq.1 e
  cases h.symm.trans (mem_toList_iff.1 hmem)

/-! ### How many keys are bound -/

omit [Std.TransOrd κ] [Std.LawfulEqOrd κ] in
/-- An insertion adds one pair at most. -/
theorem length_insertIn_le (key : κ) (value : α) (bindings : List (κ × α)) :
    (insertIn key value bindings).length ≤ bindings.length + 1 := by
  induction bindings with
  | nil => exact Nat.le_refl _
  | cons binding rest ih =>
      simp only [insertIn]
      split <;> simp only [List.length_cons] <;> omega

/-- As many keys are bound as there were insertions, or fewer. -/
theorem size_ofList_le (bindings : List (κ × α)) : (ofList bindings).size ≤ bindings.length := by
  suffices h : ∀ m : SortedMap κ α,
      (bindings.foldl (fun m b => m.insert b.1 b.2) m).size ≤ m.size + bindings.length by
    simpa [ofList, size, empty] using h empty
  induction bindings with
  | nil => exact fun m => Nat.le_refl _
  | cons binding rest ih =>
      intro m
      have hinsert : (m.insert binding.1 binding.2).size ≤ m.size + 1 :=
        length_insertIn_le binding.1 binding.2 m.toList
      have hrest := ih (m.insert binding.1 binding.2)
      rw [List.foldl_cons, List.length_cons]
      omega

/-! ### Sets of keys -/

omit [Std.TransOrd κ] [Std.LawfulEqOrd κ] in
/-- The keys come in ascending order. -/
theorem keys_ascending (m : SortedMap κ α) :
    m.keys.Pairwise fun a b => compare a b = .lt := by
  rw [keys, List.pairwise_map]
  exact m.ascending

omit [Std.TransOrd κ] in
/-- The keys are those for which there is a value. -/
theorem mem_keys_iff {m : SortedMap κ α} {key : κ} :
    key ∈ m.keys ↔ ∃ value, m.get? key = some value := by
  simp only [keys, List.mem_map, Prod.exists, exists_and_right, exists_eq_right, mem_toList_iff]

/-- The keys of a map that was made from a list of keys are those of the list. -/
theorem mem_keys_ofList_iff {keys : List κ} {key : κ} :
    key ∈ (ofList (keys.map fun k => (k, ()))).keys ↔ key ∈ keys := by
  classical
  have hlookup : ∀ reversed : List κ,
      (∃ value, (reversed.map fun k => (k, ())).lookup key = some value) ↔ key ∈ reversed := by
    intro reversed
    induction reversed with
    | nil => simp
    | cons k rest ih =>
        by_cases hk : key = k
        · simp [hk]
        · have hb : (key == k) = false := by simpa using hk
          simp [List.lookup_cons, hb, ih, hk]
  rw [mem_keys_iff, get?_ofList, ← List.map_reverse, hlookup, List.mem_reverse]

/-- Two ascending lists of the same keys are the same. -/
theorem keys_eq_of_mem_iff {keys keys' : List κ}
    (h : keys.Pairwise fun a b => compare a b = .lt)
    (h' : keys'.Pairwise fun a b => compare a b = .lt) (same : ∀ k, k ∈ keys ↔ k ∈ keys') :
    keys = keys' := by
  have hmap : keys.map (fun k => (k, ())) = keys'.map fun k => (k, ()) :=
    eq_of_mem_iff (List.pairwise_map.2 h) (List.pairwise_map.2 h') fun b => by simp [same]
  simpa [List.map_map, Function.comp_def] using congrArg (List.map Prod.fst) hmap

/-! ### Byte strings in order -/

/-- Bytes are compared one by one, a front before what it is the front of. -/
theorem compare_eq_lt_iff {a b : List UInt8} : compare a b = .lt ↔ a < b := by
  induction a generalizing b with
  | nil => cases b <;> simp
  | cons x a ih =>
      cases b with
      | nil => simp
      | cons y b =>
          rw [List.compare_cons_cons, Ordering.then_eq_lt, ih, List.cons_lt_cons_iff,
            (Std.LawfulEqCmp.compare_eq_iff_eq : compare x y = .eq ↔ x = y), Std.compare_eq_lt]

/-- Byte strings as keys ascend in lexicographic order. -/
theorem lt_of_ascending {α : Type} (m : SortedMap (List UInt8) α) :
    m.toList.Pairwise fun a b => a.1 < b.1 :=
  m.ascending.imp compare_eq_lt_iff.1

end PartitionStore.SortedMap
