import Mathlib.Tactic.Ring
import QueryLink.Proofs.ByteOrder
import QueryLink.Proofs.DecimalReduce
import QueryLink.Proofs.ReaderLaws

/-!
# Decimals are read back reduced

A decimal that is no integer travels as an exponent and a coefficient. A wide coefficient is
written without the leading bytes that only repeat its sign; each of them can go without changing
the number that the bytes stand for.

## Key results

- `signedOfBytes_drop_redundantSigns`: redundant sign bytes do not count
- `signedOfBytes_shortestSigned`: the shortest bytes of a coefficient stand for it
- `reads_decimal`: a decimal that is no integer is read back in reduced form
-/

namespace QueryLink

namespace Reader

/-- The first byte of a two's complement number decides on its sign. -/
theorem signedOfBytes_cons (b : UInt8) (bs : Bytes) :
    signedOfBytes (b :: bs) =
      (if 0x80 ≤ b then (b.toNat : Int) - 256 else b.toNat) * 256 ^ bs.length
        + Bytes.ofBigEndian bs := by
  simp only [signedOfBytes, Bytes.ofBigEndian_cons, List.length_cons, Nat.pow_eq]
  push_cast
  split <;> ring

/-- A leading byte that only repeats the sign of the byte after it does not count. -/
theorem signedOfBytes_redundant {head next : UInt8} {rest : Bytes}
    (h : (head = 0x00 ∧ next < 0x80) ∨ (head = 0xff ∧ 0x80 ≤ next)) :
    signedOfBytes (head :: next :: rest) = signedOfBytes (next :: rest) := by
  rw [signedOfBytes_cons, signedOfBytes_cons, Bytes.ofBigEndian_cons, List.length_cons]
  push_cast
  rcases h with ⟨rfl, hnext⟩ | ⟨rfl, hnext⟩
  · -- zeros in front of a positive number
    have hsmall : ¬(0x80 : UInt8) ≤ next := UInt8.not_le.2 hnext
    simp only [hsmall, if_false, show ¬(0x80 : UInt8) ≤ 0 by decide, UInt8.toNat_zero]
    ring
  · -- ones in front of a negative number
    simp only [hnext, if_true, show (0x80 : UInt8) ≤ 0xff by decide,
      show (0xff : UInt8).toNat = 255 from rfl]
    push_cast
    ring

/-- All leading bytes that only repeat the sign can go. -/
theorem signedOfBytes_drop_redundantSigns (bs : Bytes) :
    signedOfBytes (bs.drop (Encode.redundantSigns bs)) = signedOfBytes bs := by
  fun_induction Encode.redundantSigns bs with
  | case1 head next rest h ih => rw [List.drop_succ_cons, ih, signedOfBytes_redundant h]
  | case2 => rfl
  | case3 => rfl

/-- Sixteen bytes hold a 128-bit number and its sign. -/
theorem signedOfBytes_bigEndian (c : BitVec 128) :
    signedOfBytes (Bytes.bigEndian 16 c.toNat) = c.toInt := by
  have hlt := c.isLt
  have hbyte : (UInt8.ofNat (c.toNat / 256 ^ 15)).toNat = c.toNat / 256 ^ 15 := by
    rw [UInt8.toNat_ofNat']
    omega
  -- the highest of the sixteen bytes holds the sign bit
  have hsign : (0x80 : UInt8) ≤ UInt8.ofNat (c.toNat / 256 ^ 15) ↔ 2 ^ 127 ≤ c.toNat := by
    rw [UInt8.le_iff_toNat_le, hbyte]
    show 128 ≤ _ ↔ _
    omega
  rw [Bytes.bigEndian_succ, signedOfBytes_cons, Bytes.toNat_bigEndian, Bytes.length_bigEndian,
    hbyte, BitVec.toInt_eq_toNat_cond]
  simp only [hsign]
  split <;> split <;> omega

/-- The shortest bytes of a coefficient stand for it, and there are no more than sixteen. -/
theorem signedOfBytes_shortestSigned (c : BitVec 128) :
    signedOfBytes (Encode.shortestSigned c) = c.toInt ∧ (Encode.shortestSigned c).length ≤ 16 := by
  refine ⟨?_, ?_⟩
  · rw [Encode.shortestSigned, signedOfBytes_drop_redundantSigns, signedOfBytes_bigEndian]
  · rw [Encode.shortestSigned, List.length_drop, Bytes.length_bigEndian]
    exact Nat.sub_le 16 _

/-! ## The two forms -/

/-- The compact form holds an exponent and a coefficient of 64 bits. -/
theorem reads_compactDecimal {r : Decimal} (h : Decimal.fits64 r.coefficient.toInt) :
    (decimalBody Tag.compactDecimal).Reads
      (Encode.short r.exponent ++ Varint.encodeSigned (Int64.ofInt r.coefficient.toInt)) r := by
  simp only [Decimal.fits64, Bool.and_eq_true, decide_eq_true_eq] at h
  have hword : (Int64.ofInt r.coefficient.toInt).toInt = r.coefficient.toInt :=
    Int64.toInt_ofInt_of_le h.1 h.2
  refine (reads_short _ r.exponent).bind ?_
  rw [if_pos rfl]
  have hread := (reads_signed (Int64.ofInt r.coefficient.toInt)).map
    fun n => (⟨BitVec.ofInt 128 n.toInt, r.exponent⟩ : Decimal)
  rwa [hword, BitVec.ofInt_toInt] at hread

/-- The wide form holds an exponent and the shortest bytes of the coefficient. -/
theorem reads_wideDecimal (r : Decimal) :
    (decimalBody Tag.wideDecimal).Reads
      (Encode.short r.exponent ++
        Varint.encode (UInt64.ofNat (Encode.shortestSigned r.coefficient).length) ++
        Encode.shortestSigned r.coefficient) r := by
  obtain ⟨hvalue, hlength⟩ := signedOfBytes_shortestSigned r.coefficient
  -- sixteen fits the word that holds the count
  have hword : (UInt64.ofNat (Encode.shortestSigned r.coefficient).length).toNat =
      (Encode.shortestSigned r.coefficient).length := by
    rw [UInt64.toNat_ofNat']
    omega
  rw [List.append_assoc]
  refine (reads_short _ r.exponent).bind ?_
  rw [if_neg (by decide)]
  refine (reads_unsigned _).bind ?_
  simp only [hword, if_neg (Nat.not_lt.2 hlength)]
  have hread := (reads_take (Eq.refl (Encode.shortestSigned r.coefficient).length)).map
    fun bs => (⟨BitVec.ofInt 128 (signedOfBytes bs), r.exponent⟩ : Decimal)
  rwa [hvalue, BitVec.ofInt_toInt] at hread

/-- Both forms of a decimal start with a tag of decimals. -/
theorem leads_decimal {d : Decimal} (h : d.toInt64? = none) :
    Leads (Encode.decimal d) .decimal := by
  simp only [Encode.decimal, h]
  split
  · exact leads_cons (by decide) _
  · exact leads_cons (by decide) _

/-- A decimal that is no integer is read back in reduced form. -/
theorem reads_decimal {d : Decimal} (h : d.toInt64? = none) :
    decimal.Reads (Encode.decimal d) d.reduce := by
  refine (leads_decimal h).reads ?_
  simp only [Encode.decimal, h]
  split
  · rename_i hfits
    exact (reads_header (by decide)).cons (reads_compactDecimal hfits).attempt
  · exact (reads_header (by decide)).cons (reads_wideDecimal d.reduce).attempt

end Reader

end QueryLink
