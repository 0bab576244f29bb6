import Mathlib.Algebra.Group.Nat.Defs
import PartitionStore.Checksum
import PartitionStore.LittleEndian

/-!
# `PartitionStore.Proofs.Checksum`: bursts of errors

Shifting a bit out of the register is linear in exclusive or and loses nothing.
So registers that differ stay different whatever they are fed
(`feed_injective`), and feeding up to four bytes is adding the number that they
make up and shifting it out (`feed_eq_feed_zeros`).

* `eq_of_feed_burst`: messages that differ in up to four bytes in a row do not
  leave the same register.
* `feed_append_checksum`: a message with its checksum behind it leaves a register
  that does not depend on the message.
-/

set_option autoImplicit false

namespace PartitionStore.Checksum

open LittleEndian

/-! ### Shifting bits out -/

/-- The last bit is clear exactly in an even number. -/
theorem and_one_eq_zero_iff (x : UInt32) : x &&& 1 = 0 ↔ x.toNat % 2 = 0 := by
  rw [← UInt32.toNat_inj, UInt32.toNat_and]
  show x.toNat &&& 1 = 0 ↔ _
  rw [Nat.and_one_is_mod]

/-- To shift is linear: a difference is shifted as the two are. -/
theorem shiftBit_xor (a b : UInt32) : shiftBit (a ^^^ b) = shiftBit a ^^^ shiftBit b := by
  have hlow : (a ^^^ b) &&& 1 = 0 ↔ (a &&& 1 = 0 ↔ b &&& 1 = 0) := by
    have hxor : (a.toNat ^^^ b.toNat) % 2 = (a.toNat % 2) ^^^ (b.toNat % 2) :=
      @Nat.xor_mod_two_pow a.toNat b.toNat 1
    simp only [and_one_eq_zero_iff, UInt32.toNat_xor, hxor]
    rcases Nat.mod_two_eq_zero_or_one a.toNat with ha | ha <;>
      rcases Nat.mod_two_eq_zero_or_one b.toNat with hb | hb <;> simp [ha, hb]
  have hshift : (a ^^^ b) >>> 1 = a >>> 1 ^^^ b >>> 1 := UInt32.shiftRight_xor
  simp only [shiftBit, hlow, hshift]
  by_cases ha : a &&& 1 = 0 <;> by_cases hb : b &&& 1 = 0 <;> simp [ha, hb]
  · ac_rfl
  · ac_rfl
  · -- Both had the bit set, and the generator cancels out.
    rw [UInt32.xor_assoc, UInt32.xor_comm generator, UInt32.xor_assoc, UInt32.xor_self]
    simp

/-- The generator sets the highest bit, so no bit that is shifted out is forgotten. -/
theorem eq_zero_of_shiftBit {x : UInt32} (h : shiftBit x = 0) : x = 0 := by
  have hshift : (x >>> 1).toNat = x.toNat / 2 := by
    rw [UInt32.toNat_shiftRight]
    exact Nat.shiftRight_eq_div_pow x.toNat 1
  rw [shiftBit] at h
  split at h
  · rename_i heven
    rw [and_one_eq_zero_iff] at heven
    rw [h] at hshift
    have hzero : 0 = x.toNat / 2 := hshift
    refine UInt32.toNat_inj.1 ?_
    show x.toNat = 0
    omega
  · exfalso
    rw [UInt32.xor_eq_zero_iff.1 h] at hshift
    have hhigh : 0xEDB88320 = x.toNat / 2 := hshift
    have := x.toNat_lt
    omega

/-- An even number is halved. -/
theorem shiftBit_double {n : Nat} (h : n < 2 ^ 31) :
    shiftBit (UInt32.ofNat (2 * n)) = UInt32.ofNat n := by
  have hn : (UInt32.ofNat n).toNat = n := UInt32.toNat_ofNat_of_lt' (by show n < 2 ^ 32; omega)
  have hdouble : (UInt32.ofNat (2 * n)).toNat = 2 * n :=
    UInt32.toNat_ofNat_of_lt' (by show 2 * n < 2 ^ 32; omega)
  have heven : UInt32.ofNat (2 * n) &&& 1 = 0 := by
    rw [and_one_eq_zero_iff, hdouble]
    omega
  rw [shiftBit, if_pos heven]
  refine UInt32.toNat_inj.1 ?_
  rw [UInt32.toNat_shiftRight, hdouble, hn]
  show (2 * n) >>> 1 = n
  rw [Nat.shiftRight_eq_div_pow]
  omega

/-- So it is with eight bits. -/
theorem shiftByte_xor (a b : UInt32) : shiftByte (a ^^^ b) = shiftByte a ^^^ shiftByte b := by
  simp only [shiftByte, shiftBit_xor]

/-- Only nothing is shifted to nothing, since the polynomial has its highest bit. -/
theorem eq_zero_of_shiftByte {x : UInt32} (h : shiftByte x = 0) : x = 0 :=
  -- Eight bits, one after another.
  eq_zero_of_shiftBit <| eq_zero_of_shiftBit <| eq_zero_of_shiftBit <| eq_zero_of_shiftBit <|
    eq_zero_of_shiftBit <| eq_zero_of_shiftBit <| eq_zero_of_shiftBit <| eq_zero_of_shiftBit h

/-- A number whose low byte is zero loses that byte. -/
theorem shiftByte_ofNat {n : Nat} (h : n < 2 ^ 24) :
    shiftByte (UInt32.ofNat (256 * n)) = UInt32.ofNat n := by
  have hshift (k : Nat) (hk : k ≤ 7) :
      shiftBit (UInt32.ofNat (2 ^ (k + 1) * n)) = UInt32.ofNat (2 ^ k * n) := by
    have hbound : 2 ^ k * n < 2 ^ 31 :=
      calc 2 ^ k * n ≤ 2 ^ 7 * n := Nat.mul_le_mul_right n (Nat.pow_le_pow_right (by decide) hk)
        _ < 2 ^ 31 := by omega
    rw [Nat.pow_succ', Nat.mul_assoc]
    exact shiftBit_double hbound
  have hstart : 256 * n = 2 ^ (7 + 1) * n := rfl
  rw [shiftByte, hstart, hshift 7 (by decide), hshift 6 (by decide), hshift 5 (by decide),
    hshift 4 (by decide), hshift 3 (by decide), hshift 2 (by decide), hshift 1 (by decide),
    hshift 0 (by decide), Nat.pow_zero, Nat.one_mul]

/-! ### Feeding bytes -/

/-- The same byte leads from different registers to different ones. -/
theorem feedByte_injective {r s : UInt32} {b : UInt8} (h : feedByte r b = feedByte s b) :
    r = s := by
  have hzero : shiftByte ((r ^^^ b.toUInt32) ^^^ (s ^^^ b.toUInt32)) = 0 := by
    rw [shiftByte_xor]
    exact UInt32.xor_eq_zero_iff.2 h
  exact (UInt32.xor_left_inj _).1 (UInt32.xor_eq_zero_iff.1 (eq_zero_of_shiftByte hzero))

/-- Registers that differ stay different. -/
theorem feed_injective {r s : UInt32} {bytes : List UInt8} (h : feed r bytes = feed s bytes) :
    r = s := by
  induction bytes generalizing r s with
  | nil => exact h
  | cons b rest ih => exact feedByte_injective (ih h)

/-- The lowest byte of a number and the rest of it have no bit in common. -/
theorem ofNat_ofBytes_cons (b : UInt8) (rest : List UInt8) :
    UInt32.ofNat (ofBytes (b :: rest)) =
      b.toUInt32 ^^^ UInt32.ofNat (256 * ofBytes rest) := by
  have hsum : b.toNat + 256 * ofBytes rest = b.toNat ^^^ (256 * ofBytes rest) := by
    refine Nat.eq_of_testBit_eq fun i => ?_
    have hwhole := Nat.testBit_two_pow_mul_add (ofBytes rest) b.toNat_lt i
    have hhigh := @Nat.testBit_two_pow_mul_add (ofBytes rest) 0 8 (by decide) i
    rw [Nat.add_zero] at hhigh
    rw [Nat.add_comm, Nat.testBit_xor]
    refine hwhole.trans ?_
    rw [show (256 * ofBytes rest).testBit i = _ from hhigh]
    split
    · simp
    · rename_i hi
      rw [Nat.testBit_lt_two_pow (Nat.lt_of_lt_of_le b.toNat_lt
        (Nat.pow_le_pow_right (by decide) (Nat.le_of_not_lt hi)))]
      simp
  have hlow : UInt32.ofNat b.toNat = b.toUInt32 := by
    rw [← UInt8.toNat_toUInt32, UInt32.ofNat_toNat]
  rw [ofBytes, hsum, UInt32.ofNat_xor, hlow]

/-- Up to four bytes are fed by adding the number that they make up, and shifting it out. -/
theorem feed_eq_feed_zeros {r : UInt32} {bytes : List UInt8} (h : bytes.length ≤ 4) :
    feed r bytes =
      feed (r ^^^ UInt32.ofNat (ofBytes bytes)) (List.replicate bytes.length 0) := by
  induction bytes generalizing r with
  | nil => simp [ofBytes, feed]
  | cons b rest ih =>
      have hlength : rest.length ≤ 3 := Nat.le_of_succ_le_succ h
      have hrest : ofBytes rest < 2 ^ 24 :=
        calc ofBytes rest < 256 ^ rest.length := ofBytes_lt rest
          _ ≤ 256 ^ 3 := Nat.pow_le_pow_right (by decide) hlength
      -- What the bytes behind the first one add is shifted down with it.
      have hfirst : feedByte r b ^^^ UInt32.ofNat (ofBytes rest) =
          feedByte (r ^^^ UInt32.ofNat (ofBytes (b :: rest))) 0 := by
        have hzero : (0 : UInt8).toUInt32 = 0 := rfl
        rw [feedByte, feedByte, ofNat_ofBytes_cons, hzero, UInt32.xor_zero, ← UInt32.xor_assoc,
          shiftByte_xor _ (UInt32.ofNat _), shiftByte_ofNat hrest]
      show feed (feedByte r b) rest = feed (feedByte _ 0) (List.replicate rest.length 0)
      rw [ih (by omega), hfirst]

/-- Messages that differ in up to four bytes in a row do not leave the same register. -/
theorem eq_of_feed_burst {r : UInt32} {front burst burst' back : List UInt8}
    (hlength : burst.length = burst'.length) (hshort : burst.length ≤ 4)
    (h : feed r (front ++ burst ++ back) = feed r (front ++ burst' ++ back)) :
    burst = burst' := by
  simp only [feed_append] at h
  have hburst := feed_injective h
  have hshort' : burst'.length ≤ 4 := hlength ▸ hshort
  rw [@feed_eq_feed_zeros _ burst hshort, @feed_eq_feed_zeros _ burst' hshort', ← hlength]
    at hburst
  -- The same zeros are fed, so it is the numbers that are the same.
  have hnumber := (UInt32.xor_right_inj _).1 (feed_injective hburst)
  have hbound {bytes : List UInt8} (hbytes : bytes.length ≤ 4) : ofBytes bytes < 2 ^ 32 :=
    calc ofBytes bytes < 256 ^ bytes.length := ofBytes_lt bytes
      _ ≤ 256 ^ 4 := Nat.pow_le_pow_right (by decide) hbytes
  have hofBytes : ofBytes burst = ofBytes burst' := by
    have := congrArg UInt32.toNat hnumber
    rwa [UInt32.toNat_ofNat_of_lt' (hbound hshort),
      UInt32.toNat_ofNat_of_lt' (hbound hshort')] at this
  rw [← toBytes_ofBytes burst, hofBytes, hlength, toBytes_ofBytes]

/-- A message with its checksum behind it leaves a register that does not depend on it. -/
theorem feed_append_checksum (bytes : List UInt8) :
    feed start (bytes ++ toBytes 4 (crc32 bytes).toNat) =
      feed 0xFFFFFFFF (List.replicate 4 0) := by
  have hread : ofBytes (toBytes 4 (crc32 bytes).toNat) = (crc32 bytes).toNat :=
    ofBytes_toBytes (crc32 bytes).toNat_lt
  -- The register meets its own inverse, which leaves all bits set.
  rw [feed_append, feed_eq_feed_zeros (by simp), hread, UInt32.ofNat_toNat, length_toBytes, crc32,
    finish, UInt32.xor_not, UInt32.xor_self]
  rfl

end PartitionStore.Checksum
