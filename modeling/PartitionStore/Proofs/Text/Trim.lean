import Mathlib.Data.List.DropRight
import PartitionStore.Text.Blank
import PartitionStore.Text.Pieces

/-!
# `PartitionStore.Proofs.Text.Trim`: trimming and cutting

Trimming a text and cutting it at a separator that is no blank can be done in
either order (`splitFirst?_trim`), as far as the outer ends of the two sides
are concerned. The inner ends are left to whoever trims the sides.
-/

set_option autoImplicit false

namespace PartitionStore.Text

/-- A character before a text stays, unless it is a blank and there is nothing behind it to keep it
from the end. -/
theorem trimEnd_cons (c : Char) (cs : List Char) :
    trimEnd (c :: cs) =
      if trimEnd cs = [] then (if isBlank c then [] else [c]) else c :: trimEnd cs := by
  have hnil : trimEnd cs = [] ↔ cs.reverse.dropWhile isBlank = [] := by simp [trimEnd]
  rw [trimEnd, List.reverse_cons, List.dropWhile_append]
  by_cases h : cs.reverse.dropWhile isBlank = []
  · rw [if_pos (hnil.2 h), h]
    cases hc : isBlank c <;> simp [hc]
  · rw [if_neg (mt hnil.1 h), trimEnd]
    simp [h]

/-- It does not matter at which end trimming begins. -/
theorem dropWhile_trimEnd (cs : List Char) :
    (trimEnd cs).dropWhile isBlank = trimEnd (cs.dropWhile isBlank) := by
  induction cs with
  | nil => rfl
  | cons c cs ih =>
      cases hc : isBlank c with
      | true =>
          rw [List.dropWhile_cons_of_pos hc, ← ih, trimEnd_cons]
          split
          · rename_i h
            simp [h]
          · rw [List.dropWhile_cons_of_pos hc]
      | false =>
          have hne : ¬isBlank c = true := by simp [hc]
          rw [List.dropWhile_cons_of_neg hne, trimEnd_cons]
          split
          · simp [hc]
          · rw [List.dropWhile_cons_of_neg hne]

/-- A text trimmed at its end is trimmed there. -/
theorem trimEnd_trimEnd (cs : List Char) : trimEnd (trimEnd cs) = trimEnd cs := by
  simp only [trimEnd, List.reverse_reverse]
  rw [List.dropWhile_idempotent]

/-- To trim the end first makes no difference. -/
theorem trim_trimEnd (cs : List Char) : trim (trimEnd cs) = trim cs := by
  rw [trim, dropWhile_trimEnd, trimEnd_trimEnd, trim]

/-- To trim the front first makes no difference. -/
theorem trim_dropWhile (cs : List Char) : trim (cs.dropWhile isBlank) = trim cs := by
  rw [trim, List.dropWhile_idempotent, trim]

/-- A trimmed text has nothing more to trim. -/
@[simp] theorem trim_trim (cs : List Char) : trim (trim cs) = trim cs := by
  rw [show trim (trim cs) = trim (trimEnd (cs.dropWhile isBlank)) from rfl, trim_trimEnd,
    trim_dropWhile]

/-- Trimming adds no character. -/
theorem mem_of_mem_trim {c : Char} {cs : List Char} (h : c ∈ trim cs) : c ∈ cs := by
  rw [trim, trimEnd, List.mem_reverse] at h
  have := (List.dropWhile_sublist isBlank).subset h
  exact (List.dropWhile_sublist isBlank).subset (List.mem_reverse.1 this)

/-- Around a character that is no blank, trimming touches the outer ends only. -/
theorem trim_append_cons {c : Char} (hc : isBlank c = false) (left right : List Char) :
    trim (left ++ c :: right) = left.dropWhile isBlank ++ c :: trimEnd right := by
  have hne : ¬isBlank c = true := by simp [hc]
  have hfront : (left ++ c :: right).dropWhile isBlank = left.dropWhile isBlank ++ c :: right := by
    rw [List.dropWhile_append]
    split
    · rename_i h
      rw [List.isEmpty_iff.1 h, List.dropWhile_cons_of_neg hne, List.nil_append]
    · rfl
  have hback : ∀ front : List Char,
      trimEnd (front ++ c :: right) = front ++ c :: trimEnd right := by
    -- Nothing in front of `c` can be trimmed from behind.
    intro front
    induction front with
    | nil =>
        rw [List.nil_append, trimEnd_cons, List.nil_append]
        split
        · rename_i h
          simp [h]
        · rfl
    | cons d front ih => rw [List.cons_append, trimEnd_cons, ih]; simp
  rw [trim, hfront, hback]

/-- Trimming and then cutting is cutting and then trimming the outer ends. -/
theorem splitFirst?_trim {separator : Char} (h : isBlank separator = false) (cs : List Char) :
    splitFirst? separator (trim cs) =
      (splitFirst? separator cs).map fun (left, right) =>
        (left.dropWhile isBlank, trimEnd right) := by
  cases hcut : splitFirst? separator cs with
  | none =>
      have hmem : separator ∉ trim cs := mt mem_of_mem_trim (splitFirst?_eq_none_iff.1 hcut)
      exact splitFirst?_eq_none_iff.2 hmem
  | some sides =>
      obtain ⟨left, right⟩ := sides
      obtain ⟨rfl, hleft⟩ := splitFirst?_eq_some_iff.1 hcut
      rw [trim_append_cons h]
      refine splitFirst?_eq_some_iff.2 ⟨rfl, ?_⟩
      intro hm
      exact hleft ((List.dropWhile_sublist isBlank).subset hm)

end PartitionStore.Text
