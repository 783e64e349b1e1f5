import QueryLink.Decimal

/-!
# Reducing decimals

`Decimal.strip` divides by ten until the places are used up or the division would not be even.
Where it stops it would stop again, so reducing twice is reducing once.

## Key results

- `strip_strip`: stripping again strips nothing
- `reduce_of_nonneg`, `reduce_of_neg`: coefficient and exponent of a reduced decimal as numbers
- `reduce_reduce`, `toInt64?_reduce`: a reduced decimal is its own reduced form
-/

namespace QueryLink.Decimal

/-- Stripping uses up no more places than there are. -/
theorem strip_le (s : Nat) (c : Int) : (strip s c).2 ≤ s := by
  induction s generalizing c with
  | zero => exact Nat.le_refl 0
  | succ s ih =>
    rw [strip]
    split
    · exact Nat.le_succ_of_le (ih _)
    · exact Nat.le_refl _

/-- Stripping moves the coefficient towards zero. -/
theorem strip_between (s : Nat) (c : Int) :
    min 0 c ≤ (strip s c).1 ∧ (strip s c).1 ≤ max 0 c := by
  induction s generalizing c with
  | zero => simp only [strip]; omega
  | succ s ih =>
    rw [strip]
    split
    · -- a division by ten moves towards zero, and the rest of the stripping further
      have hdiv : min 0 c ≤ c.tdiv 10 ∧ c.tdiv 10 ≤ max 0 c := by
        rcases Int.le_total 0 c with hc | hc
        · rw [Int.tdiv_eq_ediv_of_nonneg hc]
          omega
        · have hneg : c.tdiv 10 = -(-c / 10) := by
            rw [← Int.tdiv_eq_ediv_of_nonneg (by omega : 0 ≤ -c), Int.neg_tdiv, Int.neg_neg]
          omega
      have hrest := ih (c.tdiv 10)
      omega
    · show min 0 c ≤ c ∧ c ≤ max 0 c
      omega

/-- Where stripping stopped it stops at once. -/
theorem strip_strip (s : Nat) (c : Int) : strip (strip s c).2 (strip s c).1 = strip s c := by
  induction s generalizing c with
  | zero => rfl
  | succ s ih =>
    by_cases h : c ≠ 0 ∧ c.tmod 10 = 0
    · have hstep : strip (s + 1) c = strip s (c.tdiv 10) := by rw [strip, if_pos h]
      rw [hstep]
      exact ih _
    · have hstop : strip (s + 1) c = (c, s + 1) := by rw [strip, if_neg h]
      rw [hstop, hstop]

/-! ## The reduced decimal -/

/-- A stripped coefficient still fits its word. -/
private theorem toInt_ofInt_strip (s : Nat) (c : BitVec 128) :
    (BitVec.ofInt 128 (strip s c.toInt).1).toInt = (strip s c.toInt).1 := by
  have hbetween := strip_between s c.toInt
  have hlow := c.le_toInt
  have hhigh := c.toInt_lt
  rw [BitVec.toInt_ofInt, Int.bmod_eq_of_le] <;> omega

/-- A decimal without places is reduced. -/
theorem reduce_of_nonneg {d : Decimal} (h : 0 ≤ d.exponent.toInt) : d.reduce = d := by
  have hplaces : (-d.exponent.toInt).toNat = 0 := by omega
  simp only [reduce, hplaces, strip, BitVec.ofInt_toInt, if_neg (Int.not_lt.2 h), Int.max_eq_left h,
    ite_self, Int32.ofInt_toInt]

/-- The coefficient and the exponent of a reduced decimal that had places. -/
theorem reduce_of_neg {d : Decimal} (h : d.exponent.toInt < 0) :
    d.reduce.coefficient.toInt = (strip (-d.exponent.toInt).toNat d.coefficient.toInt).1 ∧
    d.reduce.exponent.toInt =
      if (strip (-d.exponent.toInt).toNat d.coefficient.toInt).1 = 0 then 0
      else -((strip (-d.exponent.toInt).toNat d.coefficient.toInt).2 : Int) := by
  have hplaces := strip_le (-d.exponent.toInt).toNat d.coefficient.toInt
  have hlow := d.exponent.le_toInt
  refine ⟨toInt_ofInt_strip _ _, ?_⟩
  simp only [reduce, if_pos h]
  -- the places left are no more than there were, so their number fits 32 bits
  rw [Int32.toInt_ofInt_of_le]
  · split <;> omega
  · split <;> omega
  · split <;> omega

/-- Two decimals are equal when their coefficients and exponents are equal as numbers. -/
theorem eq_of_toInt_eq {d e : Decimal} (hc : d.coefficient.toInt = e.coefficient.toInt)
    (he : d.exponent.toInt = e.exponent.toInt) : d = e := by
  cases d
  cases e
  simp only [mk.injEq]
  exact ⟨BitVec.eq_of_toInt_eq hc, Int32.toInt.inj he⟩

/-- Reducing twice is reducing once. -/
theorem reduce_reduce (d : Decimal) : d.reduce.reduce = d.reduce := by
  rcases Int.lt_or_le d.exponent.toInt 0 with hneg | hnonneg
  · obtain ⟨hc, he⟩ := reduce_of_neg hneg
    split at he
    · exact reduce_of_nonneg (Int.le_of_eq he.symm)
    · rename_i hzero
      rcases Nat.eq_zero_or_pos (strip (-d.exponent.toInt).toNat d.coefficient.toInt).2 with hp | hp
      · -- no places are left
        exact reduce_of_nonneg (by omega)
      · -- the places left are the ones stripping stopped at
        obtain ⟨hc', he'⟩ := reduce_of_neg (d := d.reduce) (by omega)
        have hplaces : (-d.reduce.exponent.toInt).toNat =
            (strip (-d.exponent.toInt).toNat d.coefficient.toInt).2 := by omega
        rw [hplaces, hc, strip_strip] at hc' he'
        rw [if_neg hzero] at he'
        exact eq_of_toInt_eq (hc'.trans hc.symm) (he'.trans he.symm)
  · rw [reduce_of_nonneg hnonneg, reduce_of_nonneg hnonneg]

/-- Reducing does not change which integer a decimal is. -/
theorem toInt64?_reduce (d : Decimal) : d.reduce.toInt64? = d.toInt64? := by
  rw [toInt64?, toInt64?, reduce_reduce]

end QueryLink.Decimal
