/-!
# `PartitionStore.LittleEndian`: numbers as bytes, lowest byte first

`toBytes width n` writes the low `width` bytes of `n` and `ofBytes` reads any
number of bytes back. On numbers below `256 ^ width` the two are inverse to
each other (`ofBytes_toBytes`, `toBytes_ofBytes`).
-/

set_option autoImplicit false

namespace PartitionStore.LittleEndian

/-- The low `width` bytes of a number, lowest first. -/
def toBytes : (width : Nat) → Nat → List UInt8
  | 0, _ => []
  | width + 1, n => UInt8.ofNat n :: toBytes width (n / 256)

/-- The number whose bytes, lowest first, are given. -/
def ofBytes : List UInt8 → Nat
  | [] => 0
  | b :: rest => b.toNat + 256 * ofBytes rest

/-- A number is written in as many bytes as asked for. -/
@[simp] theorem length_toBytes (width n : Nat) : (toBytes width n).length = width := by
  induction width generalizing n with
  | zero => rfl
  | succ width ih => simp [toBytes, ih]

/-- So many bytes stand for no larger number than fits in them. -/
theorem ofBytes_lt (bytes : List UInt8) : ofBytes bytes < Nat.pow 256 bytes.length := by
  induction bytes with
  | nil => exact Nat.one_pos
  | cons b rest ih =>
    have := b.toNat_lt
    show b.toNat + 256 * ofBytes rest < Nat.pow 256 rest.length * 256
    omega

/-- What is written in enough bytes is read back. -/
theorem ofBytes_toBytes {width n : Nat} (h : n < Nat.pow 256 width) :
    ofBytes (toBytes width n) = n := by
  induction width generalizing n with
  | zero =>
    have hzero : n = 0 := Nat.lt_one_iff.1 h
    simp [toBytes, ofBytes, hzero]
  | succ width ih =>
    have hdiv : n / 256 < Nat.pow 256 width := by
      have hwhole : n < Nat.pow 256 width * 256 := h
      omega
    simp only [toBytes, ofBytes, ih hdiv, UInt8.toNat_ofNat']
    omega

/-- What is read is written back. -/
theorem toBytes_ofBytes (bytes : List UInt8) : toBytes bytes.length (ofBytes bytes) = bytes := by
  induction bytes with
  | nil => rfl
  | cons b rest ih =>
    have := b.toNat_lt
    have hlow : UInt8.ofNat (b.toNat + 256 * ofBytes rest) = b := by
      apply UInt8.toNat_inj.1
      simp only [UInt8.toNat_ofNat']
      omega
    have hhigh : (b.toNat + 256 * ofBytes rest) / 256 = ofBytes rest := by omega
    simp only [List.length_cons, toBytes, ofBytes, hlow, hhigh, ih]

end PartitionStore.LittleEndian
