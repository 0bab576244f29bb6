/-!
# `PartitionStore.Text.Decimal`: whole numbers in decimal digits

`ofInt` writes a number in its one canonical form: no leading zero, no plus
sign, no minus before zero. `toInt32?` reads a 32-bit number digit by digit, and
is more generous: leading zeros and a sign of either kind are taken, and only
what leads out of the 32-bit numbers is refused.

* `toInt32?_ofInt`: a number is read back from its canonical form.
-/

set_option autoImplicit false

namespace PartitionStore.Text

/-- The canonical decimal form of a number. -/
def ofInt : Int → List Char
  | .ofNat n => Nat.toDigits 10 n
  | .negSucc n => '-' :: Nat.toDigits 10 (n + 1)

/-! ### Reading -/

/-- The number as a 32-bit one, if it is one. -/
def int32? (n : Int) : Option Int32 :=
  if -2147483648 ≤ n ∧ n < 2147483648 then some (Int32.ofInt n) else none

/-- Takes one more digit behind a number. With `below` the digits lead away from zero downwards. -/
def pushDigit? (below : Bool) (n : Int32) (c : Char) : Option Int32 := do
  if c.isDigit then
    let tens ← int32? (10 * n.toInt)
    let digit : Int := ↑(c.toNat - '0'.toNat)
    int32? (if below then tens.toInt - digit else tens.toInt + digit)
  else none

/-- The number that one digit or more stand for. -/
def readDigits? (below : Bool) : List Char → Option Int32
  | [] => none
  | digits => digits.foldlM (pushDigit? below) 0

/-- The 32-bit number that a text of digits, perhaps behind a sign, stands for. -/
def toInt32? : List Char → Option Int32
  | '-' :: digits => readDigits? true digits
  | '+' :: digits => readDigits? false digits
  | digits => readDigits? false digits

/-! ### Reading back what was written -/

/-- A number is taken for the 32-bit number of that value, and for no other. -/
theorem int32?_eq_some_iff {n : Int} {i : Int32} : int32? n = some i ↔ n = i.toInt := by
  unfold int32?
  constructor
  · intro h
    split at h
    · rename_i hn
      rw [← Option.some.inj h, Int32.toInt_ofInt_of_le (by omega) (by omega)]
    · cases h
  · rintro rfl
    rw [if_pos ⟨Int32.le_toInt i, Int32.toInt_lt i⟩, Int32.ofInt_toInt]

/-- The digits of a number begin with a digit. -/
theorem toDigits_ne_cons {c : Char} (hc : c.isDigit = false) (n : Nat) (rest : List Char) :
    Nat.toDigits 10 n ≠ c :: rest := by
  intro h
  have hdigit := Nat.isDigit_of_mem_toDigits (b := 10) (by decide) (by decide)
    (h ▸ List.mem_cons_self .. : c ∈ Nat.toDigits 10 n)
  rw [hc] at hdigit
  cases hdigit

/-- More digits make no smaller number. -/
theorem le_ofDigitChars (digits : List Char) (n : Nat) : n ≤ Nat.ofDigitChars 10 digits n := by
  induction digits generalizing n with
  | nil => exact Nat.le_refl n
  | cons c rest ih =>
      rw [Nat.ofDigitChars_cons]
      have := ih (10 * n + (c.toNat - '0'.toNat))
      omega

/-- A number on its side of zero. -/
def signed (below : Bool) (n : Nat) : Int := if below then -(n : Int) else n

/-- A digit is taken in if the number with it is in range, and what is read so far is the number
before it, below zero or not. -/
theorem pushDigit?_of_signed {below : Bool} {c : Char} {i j : Int32} {n : Nat}
    (hc : c.isDigit = true) (hi : i.toInt = signed below n)
    (hj : j.toInt = signed below (10 * n + (c.toNat - '0'.toNat))) :
    pushDigit? below i c = some j := by
  have hlower := Int32.le_toInt j
  have hupper := Int32.toInt_lt j
  -- Ten times the number is closer to zero than what the digit makes of it.
  obtain ⟨tens, htens⟩ : ∃ tens, int32? (10 * i.toInt) = some tens := by
    rw [int32?, if_pos]
    · exact ⟨_, rfl⟩
    · cases below <;> simp only [signed, Bool.false_eq_true, if_true, if_false] at hi hj <;> omega
  have hvalue := int32?_eq_some_iff.1 htens
  simp only [pushDigit?, hc, if_true, htens, Option.bind_eq_bind, Option.bind_some]
  refine int32?_eq_some_iff.2 ?_
  rw [hj, ← hvalue, hi]
  cases below <;> simp only [signed, Bool.false_eq_true, if_true, if_false] <;> omega

/-- Digits that stand for a 32-bit number lead through nothing but 32-bit numbers. -/
theorem foldlM_pushDigit? {below : Bool} {digits : List Char} {i last : Int32} {n : Nat}
    (hdigits : ∀ c ∈ digits, c.isDigit = true) (hi : i.toInt = signed below n)
    (hlast : last.toInt = signed below (Nat.ofDigitChars 10 digits n)) :
    digits.foldlM (pushDigit? below) i = some last := by
  induction digits generalizing i n with
  | nil =>
      have : i = last := Int32.toInt_inj.1 (hi.trans hlast.symm)
      rw [List.foldlM_nil, this]
      rfl
  | cons c rest ih =>
      rw [Nat.ofDigitChars_cons] at hlast
      -- The digits behind this one only lead further away from zero.
      have hle := le_ofDigitChars rest (10 * n + (c.toNat - '0'.toNat))
      have hlower := Int32.le_toInt last
      have hupper := Int32.toInt_lt last
      obtain ⟨next, hnext⟩ : ∃ next : Int32,
          next.toInt = signed below (10 * n + (c.toNat - '0'.toNat)) := by
        refine ⟨_, Int32.toInt_ofInt_of_le ?_ ?_⟩ <;>
          cases below <;> simp only [signed, Bool.false_eq_true, if_true, if_false] at hlast ⊢ <;>
          omega
      rw [List.foldlM_cons, pushDigit?_of_signed (hdigits c (List.mem_cons_self ..)) hi hnext]
      exact ih (fun d hd => hdigits d (List.mem_cons_of_mem _ hd)) hnext hlast

/-- The digits of a number in range are read as that number. The induction is on the digits from the
front, and each number on the way is in range because the last one is. -/
theorem readDigits?_toDigits {below : Bool} {i : Int32} {n : Nat} (h : i.toInt = signed below n) :
    readDigits? below (Nat.toDigits 10 n) = some i := by
  unfold readDigits?
  split
  · rename_i hnil
    exact absurd hnil Nat.toDigits_ne_nil
  · refine foldlM_pushDigit? (n := 0) (fun c hc => ?_) (by cases below <;> rfl) ?_
    · exact Nat.isDigit_of_mem_toDigits (by decide) (by decide) hc
    · rw [Nat.ofDigitChars_ten_toDigits, h]

/-- Every 32-bit number is read back from its canonical form. -/
@[simp] theorem toInt32?_ofInt (i : Int32) : toInt32? (ofInt i.toInt) = some i := by
  cases h : i.toInt with
  | ofNat n =>
      unfold toInt32? ofInt
      split
      · rename_i hdigits
        exact absurd hdigits (toDigits_ne_cons (by decide) n _)
      · rename_i hdigits
        exact absurd hdigits (toDigits_ne_cons (by decide) n _)
      · exact readDigits?_toDigits h
  | negSucc n => exact readDigits?_toDigits (h.trans (by simp [signed, Int.negSucc_eq]))

/-- Numbers with the same digits, and the same sign, are the same. -/
theorem ofInt_toInt_injective {i j : Int32} (h : ofInt i.toInt = ofInt j.toInt) : i = j := by
  have hi := toInt32?_ofInt i
  rw [h, toInt32?_ofInt] at hi
  exact (Option.some.inj hi).symm

end PartitionStore.Text
