import Mathlib.Algebra.Group.Int.Defs
import Mathlib.Algebra.Group.Nat.Defs
import QueryLink.Bytes

/-!
# The bytes of a number

A number in a given count of bytes, least or most significant byte first: what reading the bytes
back gives, and what one more byte in front adds.

## Key results

- `toNat_littleEndian`, `toNat_bigEndian`: reading back gives the number modulo `256 ^ width`
- `littleEndian_ofLittleEndian`: the bytes of the number that bytes stand for are those bytes
- `bigEndian_succ`, `ofBigEndian_cons`: the most significant byte comes first
-/

namespace QueryLink

namespace Bytes

/-- The bytes of a number, least significant first, stand for as much of it as fits. -/
theorem toNat_littleEndian (width n : Nat) :
    ofLittleEndian (littleEndian width n) = n % 256 ^ width := by
  induction width generalizing n with
  | zero => simp [littleEndian, ofLittleEndian, Nat.mod_one]
  | succ width ih =>
    have hbyte : (UInt8.ofNat n).toNat = n % 256 := UInt8.toNat_ofNat'
    rw [littleEndian, ofLittleEndian, ih, hbyte, Nat.pow_succ, Nat.mul_comm (256 ^ width) 256,
      Nat.mod_mul]

/-- Bytes are what the number they stand for is laid out as. -/
theorem littleEndian_ofLittleEndian (bs : Bytes) :
    littleEndian bs.length (ofLittleEndian bs) = bs := by
  induction bs with
  | nil => rfl
  | cons b bs ih =>
    have hbyte : UInt8.ofNat (b.toNat + 256 * ofLittleEndian bs) = b := by
      apply UInt8.toNat_inj.1
      have hlt := b.toNat_lt
      rw [UInt8.toNat_ofNat']
      omega
    have hrest : (b.toNat + 256 * ofLittleEndian bs) / 256 = ofLittleEndian bs := by
      have hlt := b.toNat_lt
      omega
    rw [List.length_cons, ofLittleEndian, littleEndian, hbyte, hrest, ih]

/-- The other order makes no difference. -/
theorem toNat_bigEndian (width n : Nat) : ofBigEndian (bigEndian width n) = n % 256 ^ width := by
  simp [ofBigEndian, bigEndian, toNat_littleEndian]

/-- One more byte of width is the most significant one, at the end. -/
theorem littleEndian_succ_eq_append (width n : Nat) :
    littleEndian (width + 1) n = littleEndian width n ++ [UInt8.ofNat (n / 256 ^ width)] := by
  induction width generalizing n with
  | zero => simp [littleEndian]
  | succ width ih =>
    rw [littleEndian, ih, littleEndian, List.cons_append, Nat.div_div_eq_div_mul, Nat.pow_succ,
      Nat.mul_comm]

/-- The most significant byte comes first. -/
theorem bigEndian_succ (width n : Nat) :
    bigEndian (width + 1) n = UInt8.ofNat (n / 256 ^ width) :: bigEndian width n := by
  rw [bigEndian, littleEndian_succ_eq_append, List.reverse_append]
  rfl

/-- Bytes further on count for more. -/
theorem ofLittleEndian_append (low high : Bytes) :
    ofLittleEndian (low ++ high) = ofLittleEndian low + 256 ^ low.length * ofLittleEndian high := by
  induction low with
  | nil => simp [ofLittleEndian]
  | cons b low ih =>
    rw [List.cons_append, ofLittleEndian, ofLittleEndian, ih, List.length_cons, Nat.pow_succ,
      Nat.mul_add, Nat.mul_comm _ 256, Nat.mul_assoc, Nat.add_assoc]

/-- A byte in front counts for more than all the others. -/
theorem ofBigEndian_cons (b : UInt8) (bs : Bytes) :
    ofBigEndian (b :: bs) = b.toNat * 256 ^ bs.length + ofBigEndian bs := by
  rw [ofBigEndian, List.reverse_cons, ofLittleEndian_append, List.length_reverse, ofBigEndian]
  simp only [ofLittleEndian, Nat.mul_zero, Nat.add_zero]
  rw [Nat.mul_comm, Nat.add_comm]

end Bytes

end QueryLink
