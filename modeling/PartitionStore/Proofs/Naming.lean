import Mathlib.Data.Set.Subsingleton
import PartitionStore.Naming
import PartitionStore.Proofs.Path

/-!
# `PartitionStore.Proofs.Naming`: the names of partition directories

* `isPlainName_dirName`: a partition's directory is one step below its store's folder.
* `dirName_injective`: partitions of one store have directories of different names.
* `dirName_codec`: a name is read back as the id it was made from and in no other way, and is the
  name of one partition of one store only.
* `utf8ByteSize_dirName_le`: the names are not much longer than that of the store.
-/

set_option autoImplicit false

namespace PartitionStore.Naming

/-- A decimal form has digits and perhaps a minus sign. -/
theorem not_mem_ofInt {c : Char} (hdigit : c.isDigit = false) (hminus : c ≠ '-') (n : Int) :
    c ∉ Text.ofInt n := by
  have hdigits (m : Nat) : c ∉ Nat.toDigits 10 m := by
    intro h
    have := Nat.isDigit_of_mem_toDigits (by decide) (by decide) h
    simp [hdigit] at this
  cases n with
  | ofNat m => exact hdigits m
  | negSucc m => simpa [Text.ofInt, hminus] using hdigits (m + 1)

/-- The name of a partition's directory is that of the store, a low line, and the digits of the id.
-/
theorem toList_dirName (store : String) (id : Int32) :
    (dirName store id).toList = store.toList ++ '_' :: Text.ofInt id.toInt := by
  rw [dirName, String.toList_ofList]

/-- It is one step down if the store's name is. -/
theorem isPlainName_dirName {store : String} (h : isStoreName store = true) (id : Int32) :
    Path.isPlainName (dirName store id) = true := by
  have hslash : '/' ∉ (dirName store id).toList := by
    rw [toList_dirName, List.mem_append, List.mem_cons]
    rintro (hm | hm | hm)
    · exact Path.not_mem_of_isPlainName (isPlainName_of_isStoreName h) hm
    · exact absurd hm (by decide)
    · exact not_mem_ofInt (by decide) (by decide) _ hm
  have hunderscore : '_' ∈ (dirName store id).toList := by
    rw [toList_dirName]
    simp
  have hne : ∀ s : String, '_' ∉ s.toList → dirName store id ≠ s := by
    rintro s hs rfl
    exact hs hunderscore
  simp only [Path.isPlainName, Bool.and_eq_true, bne_iff_ne, Bool.not_eq_true']
  exact ⟨⟨⟨hne _ (by decide), hne _ (by decide)⟩, hne _ (by decide)⟩, by simpa using hslash⟩

/-- A store's name has no U+0000. -/
theorem not_mem_nul_of_isStoreName {store : String} (h : isStoreName store = true) :
    Char.ofNat 0 ∉ store.toList := by
  simp only [isStoreName, Bool.and_eq_true, Bool.not_eq_true', List.any_eq_false] at h
  intro hmem
  simpa using h.2 _ hmem

/-- No name of a partition's directory has U+0000 in it. -/
theorem not_mem_nul_dirName {store : String} (h : isStoreName store = true) (id : Int32) :
    Char.ofNat 0 ∉ (dirName store id).toList := by
  rw [toList_dirName, List.mem_append, List.mem_cons]
  rintro (hm | hm | hm)
  · exact not_mem_nul_of_isStoreName h hm
  · exact absurd hm (by decide)
  · exact not_mem_ofInt (by decide) (by decide) _ hm

/-- In one store, different ids have different directories. -/
theorem dirName_injective {store : String} {i j : Int32} (h : dirName store i = dirName store j) :
    i = j := by
  have hi : idOfDirName? store (dirName store i) = some i := idOfDirName?_eq_some_iff.2 rfl
  have hj : idOfDirName? store (dirName store i) = some j := idOfDirName?_eq_some_iff.2 h
  exact Option.some.inj (hi.symm.trans hj)

/-! ### The names of all stores -/

/-- A text falls apart at its last separator in one way only. -/
theorem eq_of_append_separator_eq {separator : Char} {left left' right right' : List Char}
    (hright : separator ∉ right) (hright' : separator ∉ right')
    (h : left ++ separator :: right = left' ++ separator :: right') :
    left = left' ∧ right = right' := by
  -- What one left side has more than the other ends in that separator, which is then in a right side.
  rcases List.append_eq_append_iff.1 h with ⟨more, hleft, hmore⟩ | ⟨more, hleft, hmore⟩
  · cases more with
    | nil => exact ⟨by simp [hleft], (List.cons.inj hmore).2⟩
    | cons c more => exact absurd ((List.cons.inj hmore).2 ▸ by simp) hright
  · cases more with
    | nil => exact ⟨by simp [hleft], (List.cons.inj hmore).2.symm⟩
    | cons c more => exact absurd ((List.cons.inj hmore).2 ▸ by simp) hright'

/-- Whatever underscores, digits and minus signs two stores have in their names. -/
theorem dirName_inj {store store' : String} {id id' : Int32} :
    dirName store id = dirName store' id' ↔ store = store' ∧ id = id' := by
  constructor
  · intro h
    have hlist := congrArg String.toList h
    rw [toList_dirName, toList_dirName] at hlist
    have hnone (i : Int32) : '_' ∉ Text.ofInt i.toInt := not_mem_ofInt (by decide) (by decide) _
    obtain ⟨hstore, hid⟩ := eq_of_append_separator_eq (hnone id) (hnone id') hlist
    exact ⟨String.toList_inj.1 hstore, Text.ofInt_toInt_injective hid⟩
  · rintro ⟨rfl, rfl⟩
    rfl

/-- A name is read back as the id that it was made from and in no other way, different partitions
have different names, and so a name is read as that of one partition of one store at most. -/
theorem dirName_codec :
    (∀ (store name : String) (id : Int32),
        idOfDirName? store name = some id ↔ name = dirName store id) ∧
      Function.Injective (fun partition : String × Int32 => dirName partition.1 partition.2) ∧
      ∀ name, {partition : String × Int32 |
        idOfDirName? partition.1 name = some partition.2}.Subsingleton := by
  refine ⟨fun _ _ _ => idOfDirName?_eq_some_iff, fun partition partition' h => ?_,
    fun name partition hread partition' hread' => ?_⟩
  · obtain ⟨hstore, hid⟩ := dirName_inj.1 h
    exact Prod.ext hstore hid
  · have hname : dirName partition.1 partition.2 = dirName partition'.1 partition'.2 :=
      (idOfDirName?_eq_some_iff.1 hread).symm.trans (idOfDirName?_eq_some_iff.1 hread')
    obtain ⟨hstore, hid⟩ := dirName_inj.1 hname
    exact Prod.ext hstore hid

/-- A store `s_-1` has a partition whose name begins like one of `s`, and `s` does not take it. -/
example : dirName "s_-1" 7 = "s_-1_7" ∧ idOfDirName? "s" "s_-1_7" = none ∧
    idOfDirName? "s_-1" "s_-1_7" = some 7 := by
  decide

/-- Numbers that are out of range or not spelled as names spell them are not ids. -/
example : idOfDirName? "s" "s_-2147483648" = some (-2147483648) ∧
    idOfDirName? "s" "s_-2147483649" = none ∧ idOfDirName? "s" "s_2147483648" = none ∧
    idOfDirName? "s" "s_+1" = none ∧ idOfDirName? "s" "s_-0" = none ∧
    idOfDirName? "s" "s_" = none := by
  decide

/-! ### Sizes -/

/-- A text of characters that take one byte each has as many bytes as characters. -/
theorem utf8ByteSize_ofList {l : List Char} (h : ∀ c ∈ l, c.utf8Size = 1) :
    (String.ofList l).utf8ByteSize = l.length := by
  induction l with
  | nil => rfl
  | cons c l ih =>
      rw [String.ofList_cons, String.utf8ByteSize_append, String.utf8ByteSize_singleton,
        h c (List.mem_cons_self ..), ih fun d hd => h d (List.mem_cons_of_mem _ hd),
        List.length_cons, Nat.add_comm]

/-- Digits and minus signs take one byte each. -/
theorem utf8Size_of_mem_ofInt {c : Char} {n : Int} (h : c ∈ Text.ofInt n) : c.utf8Size = 1 := by
  by_cases hdigit : c.isDigit = true
  · simp only [Char.isDigit, Bool.and_eq_true, decide_eq_true_eq] at hdigit
    exact Char.utf8Size_eq_one_iff.2 (Nat.le_trans hdigit.2 (by decide))
  · by_cases hminus : c = '-'
    · subst hminus
      rfl
    · exact absurd h (not_mem_ofInt (Bool.not_eq_true _ ▸ hdigit) hminus n)

/-- An id has ten digits at most. -/
theorem length_ofInt_le (id : Int32) : (Text.ofInt id.toInt).length ≤ 11 := by
  have hlower := Int32.le_toInt id
  have hupper := Int32.toInt_lt id
  have hten {n : Nat} (h : n < 10 ^ 10) : (Nat.toDigits 10 n).length ≤ 10 :=
    (Nat.length_toDigits_le_iff (by decide) (by decide)).2 h
  cases hid : id.toInt with
  | ofNat n =>
      rw [hid, Int.ofNat_eq_natCast] at hupper
      exact Nat.le_succ_of_le (hten (by omega))
  | negSucc n =>
      rw [hid] at hlower
      exact Nat.succ_le_succ (hten (by omega))

/-- An underscore and the id add twelve bytes at most to the name of the store. -/
theorem utf8ByteSize_dirName_le (store : String) (id : Int32) :
    (dirName store id).utf8ByteSize ≤ store.utf8ByteSize + 12 := by
  have hname : dirName store id = store ++ String.ofList ('_' :: Text.ofInt id.toInt) := by
    rw [dirName, String.ofList_append, String.ofList_toList]
  have hsize : (String.ofList ('_' :: Text.ofInt id.toInt)).utf8ByteSize =
      (Text.ofInt id.toInt).length + 1 := by
    refine utf8ByteSize_ofList fun c hc => ?_
    rcases List.mem_cons.1 hc with rfl | hc
    · rfl
    · exact utf8Size_of_mem_ofInt hc
  have := length_ofInt_le id
  rw [hname, String.utf8ByteSize_append, hsize]
  omega

end PartitionStore.Naming
