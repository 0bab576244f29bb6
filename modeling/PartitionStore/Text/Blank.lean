/-!
# `PartitionStore.Text.Blank`: white space and trimming

`isBlank` is the Unicode property White_Space. `trim` takes blanks off both
ends of a text; `trim_eq_self_iff` says which texts it leaves alone.
-/

set_option autoImplicit false

namespace PartitionStore.Text

/-- The first and last code point of each stretch of white space, ascending. -/
def blankRanges : List (Nat × Nat) :=
  [(0x9, 0xd), (0x20, 0x20), (0x85, 0x85), (0xa0, 0xa0), (0x1680, 0x1680), (0x2000, 0x200a),
   (0x2028, 0x2029), (0x202f, 0x202f), (0x205f, 0x205f), (0x3000, 0x3000)]

/-- Whether a character is white space. -/
def isBlank (c : Char) : Bool :=
  blankRanges.any fun (first, last) => first ≤ c.toNat && c.toNat ≤ last

/-- The text without the blanks at its end. -/
def trimEnd (cs : List Char) : List Char := (cs.reverse.dropWhile isBlank).reverse

/-- The text without the blanks at its two ends. -/
def trim (cs : List Char) : List Char := trimEnd (cs.dropWhile isBlank)

/-- Whether a text neither starts nor ends with a blank. -/
def isTrimmed (cs : List Char) : Bool :=
  !cs.head?.any isBlank && !cs.getLast?.any isBlank

/-- Nothing is dropped from the front exactly if the first item is not to be dropped. -/
theorem dropWhile_eq_self_iff {p : Char → Bool} {cs : List Char} :
    cs.dropWhile p = cs ↔ cs.head?.any p = false := by
  cases cs with
  | nil => simp
  | cons c rest =>
    by_cases hc : p c = true
    · simp only [List.dropWhile_cons_of_pos hc, List.head?_cons, Option.any_some, hc,
        Bool.true_eq_false, iff_false]
      intro e
      have := (List.dropWhile_sublist p (l := rest)).length_le
      rw [e, List.length_cons] at this
      omega
    · simp [List.dropWhile_cons_of_neg hc, hc]

/-- Trimming leaves exactly the texts alone that neither start nor end with a blank. -/
theorem trim_eq_self_iff {cs : List Char} : trim cs = cs ↔ isTrimmed cs = true := by
  simp only [isTrimmed, Bool.and_eq_true, Bool.not_eq_true']
  constructor
  · intro h
    have hlen : (cs.dropWhile isBlank).length = cs.length := by
      have h₁ := (List.dropWhile_sublist isBlank (l := cs)).length_le
      have h₂ := (List.dropWhile_sublist isBlank
        (l := (cs.dropWhile isBlank).reverse)).length_le
      have h₃ := congrArg List.length h
      simp only [trim, trimEnd, List.length_reverse] at h₂ h₃
      omega
    have hfront : cs.dropWhile isBlank = cs :=
      (List.dropWhile_sublist isBlank).eq_of_length hlen
    rw [trim, hfront, trimEnd] at h
    have hback : cs.reverse.dropWhile isBlank = cs.reverse := by
      rw [← List.reverse_inj, h, List.reverse_reverse]
    refine ⟨dropWhile_eq_self_iff.1 hfront, ?_⟩
    simpa using dropWhile_eq_self_iff.1 hback
  · rintro ⟨hfront, hback⟩
    have hback' : cs.reverse.dropWhile isBlank = cs.reverse :=
      dropWhile_eq_self_iff.2 (by simpa using hback)
    rw [trim, dropWhile_eq_self_iff.2 hfront, trimEnd, hback', List.reverse_reverse]

end PartitionStore.Text
