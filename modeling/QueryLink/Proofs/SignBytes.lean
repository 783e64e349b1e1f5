import Mathlib.Algebra.Order.Ring.Int
import QueryLink.Proofs.DecimalCodec

/-!
# Shortest two's complement bytes

Two's complement bytes, most significant first, are widened by copies of their sign. The bytes that
`Encode.redundantSigns` counts are such copies, and all of them: what is left after they were
dropped widens to the same bytes, and nothing shorter does.

## Key results

- `signExtend_drop_redundantSigns`: what is left widens to all of the bytes
- `length_le_redundantSigns`: nothing shorter does
- `shortest_shortestSigned`: so the bytes of a coefficient are the shortest ones
- `signedOfBytes_signExtend`: widening changes no number
- `two_mul_signedOfBytes`: the range of the numbers that a given count of bytes stands for
-/

namespace QueryLink

namespace Bytes

/-! ## Sign extension -/

/-- The byte that two's complement bytes are widened by. -/
def signByte : Bytes → UInt8
  | b :: _ => if 0x80 ≤ b then 0xff else 0x00
  | [] => 0x00

/-- Two's complement bytes, most significant first, widened in front by copies of their sign. -/
def signExtend (width : Nat) (bs : Bytes) : Bytes :=
  List.replicate (width - bs.length) bs.signByte ++ bs

/-- The bytes widen to those of a given width, and fewer bytes do not. -/
structure IsShortest (bs wide : Bytes) : Prop where
  widens : signExtend wide.length bs = wide
  least : ∀ other : Bytes, other.length ≤ wide.length → signExtend wide.length other = wide →
    bs.length ≤ other.length

theorem signExtend_length (bs : Bytes) : signExtend bs.length bs = bs := by
  rw [signExtend, Nat.sub_self, List.replicate_zero, List.nil_append]

/-- One more byte of width is one more copy of the sign. -/
theorem signExtend_succ {bs : Bytes} {width : Nat} (h : bs.length ≤ width) :
    signExtend (width + 1) bs = bs.signByte :: signExtend width bs := by
  have hmore : width + 1 - bs.length = width - bs.length + 1 := by omega
  rw [signExtend, hmore, List.replicate_succ, List.cons_append, signExtend]

/-- A copy of the sign has that sign. -/
theorem signByte_cons_signByte (bs more : Bytes) :
    signByte (bs.signByte :: more) = bs.signByte := by
  have hcopy : bs.signByte = 0xff ∨ bs.signByte = 0x00 := by
    cases bs with
    | nil => exact .inr rfl
    | cons b bs =>
      rw [signByte]
      split
      · exact .inl rfl
      · exact .inr rfl
  obtain hcopy | hcopy := hcopy <;> rw [hcopy] <;> rfl

/-- Widening keeps the sign. -/
theorem signByte_signExtend (width : Nat) (bs : Bytes) :
    (signExtend width bs).signByte = bs.signByte := by
  unfold signExtend
  cases width - bs.length with
  | zero => rfl
  | succ copies => exact signByte_cons_signByte bs _

/-! ## Redundant bytes -/

/-- A byte is redundant when it is a copy of the sign behind it. -/
theorem redundant_iff (head next : UInt8) (rest : Bytes) :
    (head = 0x00 ∧ next < 0x80) ∨ (head = 0xff ∧ 0x80 ≤ next) ↔ head = signByte (next :: rest) := by
  rw [signByte]
  split
  · rename_i hneg
    have hpos : ¬next < 0x80 := UInt8.not_lt.2 hneg
    simp only [hpos, and_false, false_or, hneg, and_true]
  · rename_i hpos
    have hsmall : next < 0x80 := UInt8.not_le.1 hpos
    simp only [hsmall, and_true, hpos, and_false, or_false]

/-- A copy of the sign in front is one more redundant byte. -/
theorem redundantSigns_signByte_cons {bs : Bytes} (h : bs ≠ []) :
    Encode.redundantSigns (bs.signByte :: bs) = Encode.redundantSigns bs + 1 := by
  cases bs with
  | nil => exact absurd rfl h
  | cons next rest => rw [Encode.redundantSigns, if_pos ((redundant_iff _ next rest).2 rfl)]

/-- What is left without the redundant bytes widens to all of them. -/
theorem signExtend_drop_redundantSigns (bs : Bytes) :
    signExtend bs.length (bs.drop (Encode.redundantSigns bs)) = bs := by
  fun_induction Encode.redundantSigns bs with
  | case1 head next rest h ih =>
    have hleft : ((next :: rest).drop (Encode.redundantSigns (next :: rest))).length ≤
        (next :: rest).length := by
      rw [List.length_drop]
      exact Nat.sub_le ..
    -- what is left has the sign of the bytes behind the first one, and so has the first one
    have hsign := signByte_signExtend (next :: rest).length
      ((next :: rest).drop (Encode.redundantSigns (next :: rest)))
    rw [ih, ← (redundant_iff head next rest).1 h] at hsign
    rw [List.drop_succ_cons, List.length_cons, signExtend_succ hleft, ih, ← hsign]
  | case2 bs => exact signExtend_length _
  | case3 bs => exact signExtend_length _

/-- Bytes that widen by some copies of the sign have made these redundant. -/
theorem le_redundantSigns_signExtend {bs : Bytes} (h : bs ≠ []) (copies : Nat) :
    copies ≤ Encode.redundantSigns (signExtend (bs.length + copies) bs) := by
  induction copies with
  | zero => exact Nat.zero_le _
  | succ copies ih =>
    have hsome : signExtend (bs.length + copies) bs ≠ [] := List.append_ne_nil_of_right_ne_nil _ h
    rw [← Nat.add_assoc, signExtend_succ (Nat.le_add_right ..),
      ← signByte_signExtend (bs.length + copies) bs, redundantSigns_signByte_cons hsome]
    exact Nat.succ_le_succ ih

/-- Nothing shorter than what is left widens to all of the bytes. -/
theorem length_le_redundantSigns {bs other : Bytes} (hother : other ≠ [])
    (hle : other.length ≤ bs.length) (h : signExtend bs.length other = bs) :
    (bs.drop (Encode.redundantSigns bs)).length ≤ other.length := by
  have hcopies := le_redundantSigns_signExtend hother (bs.length - other.length)
  rw [Nat.add_sub_cancel' hle, h] at hcopies
  rw [List.length_drop]
  omega

/-- No bytes widen to zeros. -/
theorem signExtend_nil (width : Nat) : signExtend width [] = List.replicate width 0x00 :=
  List.append_nil _

/-- Bytes that are not all zero keep their shortest form. -/
theorem shortest_drop_redundantSigns {bs : Bytes} (h : bs ≠ List.replicate bs.length 0x00) :
    IsShortest (bs.drop (Encode.redundantSigns bs)) bs where
  widens := signExtend_drop_redundantSigns bs
  least other hle hwidens := by
    refine length_le_redundantSigns ?_ hle hwidens
    rintro rfl
    rw [signExtend_nil] at hwidens
    exact h hwidens.symm

end Bytes

namespace Reader

/-! ## The numbers that bytes stand for -/

theorem ofBigEndian_replicate_zero (width : Nat) :
    Bytes.ofBigEndian (List.replicate width 0x00) = 0 := by
  induction width with
  | zero => rfl
  | succ width ih => simp only [List.replicate_succ, Bytes.ofBigEndian_cons, ih,
      UInt8.toNat_ofNat, Nat.zero_mod, Nat.zero_mul, Nat.add_zero]

/-- Widening changes no number. -/
theorem signedOfBytes_signExtend (width : Nat) (bs : Bytes) :
    signedOfBytes (Bytes.signExtend width bs) = signedOfBytes bs := by
  unfold Bytes.signExtend
  induction width - bs.length with
  | zero => rfl
  | succ copies ih =>
    rw [List.replicate_succ, List.cons_append, ← ih]
    rcases hwide : List.replicate copies bs.signByte ++ bs with _ | ⟨next, rest⟩
    · -- no bytes at all are widened by zeros
      obtain rfl := (List.append_eq_nil_iff.1 hwide).2
      rfl
    · refine signedOfBytes_redundant ((Bytes.redundant_iff _ next rest).2 ?_)
      rw [← hwide]
      cases copies with
      | zero => rfl
      | succ copies => exact (Bytes.signByte_cons_signByte bs _).symm

/-- The shortest bytes of a coefficient other than zero are the shortest ones indeed. -/
theorem shortest_shortestSigned {c : BitVec 128} (h : c ≠ 0) :
    Bytes.IsShortest (Encode.shortestSigned c) (Bytes.bigEndian 16 c.toNat) := by
  refine Bytes.shortest_drop_redundantSigns fun hzero => h ?_
  rw [Bytes.length_bigEndian] at hzero
  have hfits : c.toNat < 256 ^ 16 := c.isLt
  have hvalue := congrArg Bytes.ofBigEndian hzero
  rw [ofBigEndian_replicate_zero, Bytes.toNat_bigEndian, Nat.mod_eq_of_lt hfits] at hvalue
  exact BitVec.eq_of_toNat_eq hvalue

/-- Bytes stand for numbers below the one with a byte more. -/
theorem ofBigEndian_lt (bs : Bytes) : Bytes.ofBigEndian bs < 256 ^ bs.length := by
  induction bs with
  | nil => exact Nat.one_pos
  | cons b bs ih =>
    have hb := b.toNat_lt
    have hstep : (b.toNat + 1) * 256 ^ bs.length ≤ 256 * 256 ^ bs.length :=
      Nat.mul_le_mul_right _ hb
    rw [Nat.add_mul, Nat.one_mul] at hstep
    rw [Bytes.ofBigEndian_cons, List.length_cons, Nat.pow_succ']
    omega

/-- Two's complement bytes stand for numbers from minus a half up to a half of the next power. -/
theorem two_mul_signedOfBytes (bs : Bytes) :
    -(256 ^ bs.length : Int) ≤ 2 * signedOfBytes bs ∧ 2 * signedOfBytes bs < 256 ^ bs.length := by
  cases bs with
  | nil => exact ⟨by decide, by decide⟩
  | cons b bs =>
    have hrest : (Bytes.ofBigEndian bs : Int) < 256 ^ bs.length := by
      exact_mod_cast ofBigEndian_lt bs
    have hb := b.toNat_lt
    have hpower : (0 : Int) ≤ 256 ^ bs.length := Int.pow_nonneg (by decide)
    rw [signedOfBytes_cons, List.length_cons, Int.pow_succ]
    -- the first byte counts from -128 to 127
    obtain ⟨first, hfirst, hlow, hhigh⟩ : ∃ first : Int,
        (if 0x80 ≤ b then (b.toNat : Int) - 256 else b.toNat) = first ∧
          -128 ≤ first ∧ first ≤ 127 := by
      refine ⟨_, rfl, ?_⟩
      split
      · rename_i hneg
        have hge : 128 ≤ b.toNat := UInt8.le_iff_toNat_le.1 hneg
        omega
      · rename_i hpos
        have hlt : b.toNat < 128 := UInt8.lt_iff_toNat_lt.1 (UInt8.not_le.1 hpos)
        omega
    have hleast : -128 * 256 ^ bs.length ≤ first * 256 ^ bs.length :=
      Int.mul_le_mul_of_nonneg_right hlow hpower
    have hmost : first * 256 ^ bs.length ≤ 127 * 256 ^ bs.length :=
      Int.mul_le_mul_of_nonneg_right hhigh hpower
    rw [hfirst]
    omega

/-- A number that 64 bits do not hold takes nine bytes or more. -/
theorem nine_le_of_not_fits64 {bs : Bytes} (h : Decimal.fits64 (signedOfBytes bs) = false) :
    9 ≤ bs.length := by
  by_contra hfew
  obtain ⟨hlow, hhigh⟩ := two_mul_signedOfBytes bs
  have hpower : (256 ^ bs.length : Int) ≤ 256 ^ 8 :=
    pow_le_pow_right₀ (by decide) (by omega)
  simp only [Decimal.fits64, Bool.and_eq_false_iff, decide_eq_false_iff_not] at h
  omega

end Reader

end QueryLink
