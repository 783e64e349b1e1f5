import Mathlib.Algebra.Field.Rat
import Mathlib.Tactic.FieldSimp
import QueryLink.Proofs.ValueRoundTrip

/-!
# Decimals that are integers

A decimal denotes a rational number, and `Decimal.toInt64?` decides which of these numbers are
integers of 64 bits. Reducing keeps the number and leaves either no places or a coefficient that
ten does not divide, so what is left to decide is the sign of the exponent and the size of a
product. Scales above `10 ^ 38` do not fit the words that the product is computed in. They are
refused before the coefficient is looked at, and the only number that loses by it is zero.

## Key results

- `value_reduce`: reducing keeps the number
- `reduce_exponent`: a reduced decimal has no places or a coefficient that ten does not divide
- `value_eq_int64_iff`: the integer form is taken by the numbers that are integers of 64 bits,
  zeros beyond the highest scale excepted
- `value_eq_int64_overscaled`: such a zero
-/

namespace QueryLink.Decimal

/-- The rational number that a decimal denotes. -/
def value (d : Decimal) : ℚ :=
  d.coefficient.toInt * (10 : ℚ) ^ d.exponent.toInt

/-- A zero with a scale that 128 bits do not hold. -/
def Overscaled (d : Decimal) : Prop :=
  d.coefficient.toInt = 0 ∧ (highestScale : Int) < d.exponent.toInt

/-! ## Stripping keeps the number -/

/-- What stripping takes off the coefficient it takes off the places. -/
theorem strip_scale (s : Nat) (c : Int) :
    (strip s c).1 * 10 ^ s = c * 10 ^ (strip s c).2 := by
  fun_induction strip s c with
  | case1 c => rfl
  | case2 s c h ih =>
    have hdiv : c.tdiv 10 * 10 = c := Int.tdiv_mul_cancel (Int.dvd_of_tmod_eq_zero h.2)
    calc (strip s (c.tdiv 10)).1 * 10 ^ (s + 1)
        = (strip s (c.tdiv 10)).1 * 10 ^ s * 10 := by ring
      _ = c.tdiv 10 * 10 ^ (strip s (c.tdiv 10)).2 * 10 := by rw [ih]
      _ = c.tdiv 10 * 10 * 10 ^ (strip s (c.tdiv 10)).2 := by ring
      _ = c * 10 ^ (strip s (c.tdiv 10)).2 := by rw [hdiv]
  | case3 s c h => rfl

/-- Stripping ends without places, at zero, or at a number that ten does not divide. -/
theorem strip_stops (s : Nat) (c : Int) :
    (strip s c).2 = 0 ∨ (strip s c).1 = 0 ∨ ¬10 ∣ (strip s c).1 := by
  fun_induction strip s c with
  | case1 c => exact Or.inl rfl
  | case2 s c h ih => exact ih
  | case3 s c h =>
    rcases Decidable.em (c = 0) with hzero | hzero
    · exact Or.inr (Or.inl hzero)
    · exact Or.inr (Or.inr fun hdvd => h ⟨hzero, Int.tmod_eq_zero_of_dvd hdvd⟩)

theorem scale_ne_zero (s : Nat) : (10 : ℚ) ^ s ≠ 0 :=
  pow_ne_zero s (by norm_num)

/-- A decimal without places denotes an integer. -/
theorem value_of_nonneg {d : Decimal} (h : 0 ≤ d.exponent.toInt) :
    d.value = (d.coefficient.toInt * 10 ^ d.exponent.toInt.toNat : Int) := by
  obtain ⟨k, hk⟩ := Int.eq_ofNat_of_zero_le h
  rw [value, hk, zpow_natCast, Int.toNat_natCast]
  push_cast
  rfl

/-- A decimal with places denotes a fraction. -/
theorem value_of_neg {d : Decimal} {s : Nat} (h : d.exponent.toInt = -(s : Int)) :
    d.value = d.coefficient.toInt / 10 ^ s := by
  rw [value, h, zpow_neg, zpow_natCast, div_eq_mul_inv]

/-- Reducing keeps the number. -/
theorem value_reduce (d : Decimal) : d.reduce.value = d.value := by
  rcases Int.lt_or_le d.exponent.toInt 0 with hneg | hnonneg
  · obtain ⟨s, hs⟩ : ∃ s : Nat, d.exponent.toInt = -(s : Int) :=
      ⟨(-d.exponent.toInt).toNat, by omega⟩
    have hplaces : (-d.exponent.toInt).toNat = s := by omega
    obtain ⟨hc, he⟩ := reduce_of_neg hneg
    rw [hplaces] at hc he
    have hscale := strip_scale s d.coefficient.toInt
    rw [← hc] at hscale
    rw [value_of_neg hs]
    split at he
    · -- a zero has lost its places, and it was one before
      rename_i hzero
      rw [← hc] at hzero
      rw [hzero, Int.zero_mul, eq_comm, Int.mul_eq_zero] at hscale
      have hwas : d.coefficient.toInt = 0 :=
        hscale.resolve_right (pow_ne_zero _ (by decide : (10 : Int) ≠ 0))
      rw [value, hzero, hwas, Int.cast_zero, zero_mul, zero_div]
    · rw [value_of_neg he, div_eq_div_iff (scale_ne_zero _) (scale_ne_zero _)]
      exact_mod_cast hscale
  · rw [reduce_of_nonneg hnonneg]

/-- A reduced decimal has no places, or ten does not divide its coefficient. -/
theorem reduce_exponent (d : Decimal) :
    0 ≤ d.reduce.exponent.toInt ∨ ¬10 ∣ d.reduce.coefficient.toInt := by
  rcases Int.lt_or_le d.exponent.toInt 0 with hneg | hnonneg
  · obtain ⟨hc, he⟩ := reduce_of_neg hneg
    rw [hc, he]
    split
    · exact Or.inl (Int.le_refl 0)
    · rename_i hzero
      rcases strip_stops (-d.exponent.toInt).toNat d.coefficient.toInt with h | h | h
      · left
        omega
      · exact absurd h hzero
      · exact Or.inr h
  · rw [reduce_of_nonneg hnonneg]
    exact Or.inl hnonneg

/-- Reducing changes no zero with a scale too high. -/
theorem overscaled_reduce (d : Decimal) : d.reduce.Overscaled ↔ d.Overscaled := by
  rcases Int.lt_or_le d.exponent.toInt 0 with hneg | hnonneg
  · obtain ⟨hc, he⟩ := reduce_of_neg hneg
    have hfew : d.reduce.exponent.toInt ≤ 0 := by
      rw [he]
      split <;> omega
    simp only [Overscaled, highestScale]
    omega
  · rw [reduce_of_nonneg hnonneg]

/-! ## Whole numbers -/

/-- Where places are left in front of a number that ten does not divide, the number is not
whole. -/
theorem value_ne_intCast {d : Decimal} (hneg : d.exponent.toInt < 0)
    (hdvd : ¬10 ∣ d.coefficient.toInt) (n : Int) : d.value ≠ n := by
  intro h
  obtain ⟨s, hs⟩ : ∃ s : Nat, d.exponent.toInt = -((s + 1 : Nat) : Int) :=
    ⟨(-d.exponent.toInt).toNat - 1, by omega⟩
  rw [value_of_neg hs, div_eq_iff (scale_ne_zero _)] at h
  have hcoefficient : d.coefficient.toInt = n * 10 ^ (s + 1) := by exact_mod_cast h
  exact hdvd ⟨n * 10 ^ s, by rw [hcoefficient]; ring⟩

/-- Thirty-nine zeros behind anything but zero are more than 64 bits hold. -/
theorem scaled_ne_int64 {c : Int} (hc : c ≠ 0) {e : Nat} (he : highestScale < e) (n : Int64) :
    c * 10 ^ e ≠ n.toInt := by
  intro h
  have hlow := n.le_toInt
  have hhigh := n.toInt_lt
  -- the size of the product is at least that of the scale alone
  have hsize : (n.toInt).natAbs = c.natAbs * 10 ^ e := by
    rw [← h, Int.natAbs_mul, Int.natAbs_pow]
    rfl
  have hone : 1 * 10 ^ e ≤ c.natAbs * 10 ^ e := Nat.mul_le_mul_right _ (by omega)
  have hscale : 10 ^ (highestScale + 1) ≤ 10 ^ e := Nat.pow_le_pow_right (by omega) he
  simp only [highestScale] at hscale
  omega

/-- An integer in the range of 64 bits is the one that its word stands for. -/
theorem fits64_and_ofInt_eq_iff (i : Int) (n : Int64) :
    (fits64 i = true ∧ Int64.ofInt i = n) ↔ i = n.toInt := by
  simp only [fits64, Bool.and_eq_true, decide_eq_true_eq]
  constructor
  · rintro ⟨⟨hlow, hhigh⟩, rfl⟩
    rw [Int64.toInt_ofInt_of_le hlow hhigh]
  · rintro rfl
    exact ⟨⟨n.le_toInt, n.toInt_lt⟩, Int64.ofInt_toInt n⟩

/-- When a reduced decimal is taken for an integer of 64 bits. -/
private theorem toInt64?_eq_some_iff (d : Decimal) (n : Int64) :
    d.toInt64? = some n ↔
      0 ≤ d.reduce.exponent.toInt ∧ d.reduce.exponent.toInt ≤ highestScale ∧
      d.reduce.coefficient.toInt * 10 ^ d.reduce.exponent.toInt.toNat = n.toInt := by
  rw [← fits64_and_ofInt_eq_iff]
  simp only [toInt64?, Nat.pow_eq, Nat.cast_pow, Nat.cast_ofNat]
  split
  · rename_i hrefused
    constructor
    · intro h
      cases h
    · rintro ⟨hlow, hhigh, -⟩
      omega
  · rename_i haccepted
    split
    · rename_i hfits
      rw [Option.some_inj]
      exact ⟨fun h => ⟨by omega, by omega, hfits, h⟩, fun h => h.2.2.2⟩
    · rename_i hfits
      constructor
      · intro h
        cases h
      · rintro ⟨-, -, h, -⟩
        exact absurd h hfits

/-- The decimals taken for an integer of 64 bits are those that denote it, zeros with a scale too
high excepted. -/
theorem toInt64?_eq_some (d : Decimal) (n : Int64) :
    d.toInt64? = some n ↔ d.value = n.toInt ∧ ¬d.Overscaled := by
  rw [toInt64?_eq_some_iff, ← value_reduce, ← overscaled_reduce]
  rcases Int.lt_or_le d.reduce.exponent.toInt 0 with hneg | hnonneg
  · -- places are left, so the number is not whole
    have hdvd := d.reduce_exponent.resolve_left (by omega)
    have hne := value_ne_intCast hneg hdvd n.toInt
    constructor
    · rintro ⟨hlow, -⟩
      omega
    · rintro ⟨hvalue, -⟩
      exact absurd hvalue hne
  · rw [value_of_nonneg hnonneg, Int.cast_inj]
    constructor
    · rintro ⟨-, hhigh, hproduct⟩
      refine ⟨hproduct, fun hover => ?_⟩
      have hmore := hover.2
      omega
    · rintro ⟨hproduct, hover⟩
      refine ⟨hnonneg, ?_, hproduct⟩
      by_contra hmore
      -- a scale too high leaves zero only, which is excepted
      have hzero : d.reduce.coefficient.toInt ≠ 0 := fun hzero => hover ⟨hzero, by omega⟩
      exact scaled_ne_int64 hzero (by omega) n hproduct

/-- The bytes of a decimal lead to an integer when it is taken for one, and they are the bytes of
that integer then. -/
private theorem encode_decimal_forms (d : Decimal) (n : Int64) :
    (Encode.decimal d = Encode.int n ↔ d.toInt64? = some n) ∧
    (Reader.Leads (Encode.decimal d) .int ↔ ∃ m, d.toInt64? = some m) := by
  cases h : d.toInt64? with
  | some m =>
    have hbytes : Encode.decimal d = Encode.int m := by simp only [Encode.decimal, h]
    rw [hbytes]
    refine ⟨⟨fun heq => ?_, ?_⟩, fun _ => ⟨m, rfl⟩, fun _ => Reader.leads_int m⟩
    · -- the reader gets one integer from the bytes
      have hm := Reader.reads_int m []
      have hn := Reader.reads_int n []
      rw [heq, hn] at hm
      cases hm
      rfl
    · rintro ⟨⟩
      rfl
  | none =>
    have hdecimal := Reader.leads_decimal h
    have hnot : ¬Reader.Leads (Encode.decimal d) .int := by
      intro hint
      have hone := hdecimal.peekKind []
      rw [hint.peekKind []] at hone
      cases hone
    refine ⟨⟨fun heq => ?_, ?_⟩, fun hint => absurd hint hnot, ?_⟩
    · exact absurd (heq ▸ Reader.leads_int n) hnot
    · rintro ⟨⟩
    · rintro ⟨m, ⟨⟩⟩

/-- A decimal is taken for an integer of 64 bits, and written like it, when it denotes that
integer; a zero with a scale above `10 ^ 38` is the one exception. So the integer form is taken by
the decimals whose number is an integer of 64 bits, and, that zero apart, by all of them. -/
theorem value_eq_int64_iff (d : Decimal) :
    (∀ n, d.toInt64? = some n ↔ d.value = n.toInt ∧ ¬d.Overscaled) ∧
    (∀ n, Encode.decimal d = Encode.int n ↔ d.value = n.toInt ∧ ¬d.Overscaled) ∧
    (Reader.Leads (Encode.decimal d) .int ↔ (∃ n : Int64, d.value = n.toInt) ∧ ¬d.Overscaled) := by
  have hinteger := toInt64?_eq_some d
  refine ⟨hinteger, fun n => (encode_decimal_forms d n).1.trans (hinteger n), ?_⟩
  rw [(encode_decimal_forms d 0).2]
  constructor
  · rintro ⟨n, hn⟩
    obtain ⟨hvalue, hscale⟩ := (hinteger n).1 hn
    exact ⟨⟨n, hvalue⟩, hscale⟩
  · rintro ⟨⟨n, hvalue⟩, hscale⟩
    exact ⟨n, (hinteger n).2 ⟨hvalue, hscale⟩⟩

/-- Zero with thirty-nine zeros behind it is zero, but it is not taken for it and not written
like it. -/
theorem value_eq_int64_overscaled :
    value ⟨0, 39⟩ = (0 : Int64).toInt ∧ toInt64? ⟨0, 39⟩ = none ∧
    Encode.decimal ⟨0, 39⟩ = [0xec, 0x4e, 0x00] ∧
    ¬Reader.Leads (Encode.decimal ⟨0, 39⟩) .int := by
  have hnone : toInt64? ⟨0, 39⟩ = none := by decide
  refine ⟨by simp [value], hnone, by decide, ?_⟩
  intro hint
  have hone := (Reader.leads_decimal hnone).peekKind []
  rw [hint.peekKind []] at hone
  cases hone

end QueryLink.Decimal
