import QueryLink.Proofs.DecimalInteger

/-!
# Reduced decimals are canonical

Several decimals denote one number. Those of them that are left with places when they are reduced
are reduced to one and the same decimal, since ten does not divide the coefficient then and only one
scale leaves such a coefficient.

`Decimal.strip` works on integers. The loop on the words of a decimal does the same: it comes to an
end, and on the way neither the quotient nor the exponent leaves its word.

## Key results

- `exists_stripSteps`: no round of the loop leaves a word
- `loop_strip`: the loop on words is `strip`
- `loop_reduce`: so reducing in words is reducing
- `places_le`, `eq_of_value_eq`: a number has one scale at which ten does not divide the coefficient
- `reduce_canonical`: what reducing keeps, where it ends, and when it ends at the same decimal
-/

namespace QueryLink.Decimal

/-! ## Reducing in words -/

/-- The loop goes on while there are places and a zero to strip. -/
def Strippable (d : Decimal) : Prop :=
  d.exponent < 0 ∧ d.coefficient ≠ 0 ∧ d.coefficient.srem 10 = 0

/-- One round of the loop; `none` when the quotient or the exponent leaves its word. -/
def stripSteps (d : Decimal) : Option Decimal :=
  if d.coefficient.sdivOverflow 10 || d.exponent.toBitVec.saddOverflow 1 then none
  else some ⟨d.coefficient.sdiv 10, d.exponent + 1⟩

/-- The loop that starts with one decimal ends with the other, and no step of it overflows. -/
inductive Loop : Decimal → Decimal → Prop where
  | stop {d : Decimal} (h : ¬d.Strippable) : Loop d d
  | round {d next last : Decimal} (h : d.Strippable) (hnext : d.stripSteps = some next)
      (hloop : Loop next last) : Loop d last

/-- What comes after the loop: zero has no places. -/
def settle (d : Decimal) : Decimal :=
  if d.coefficient = 0 then { d with exponent := max d.exponent 0 } else d

theorem eq_zero_iff (c : BitVec 128) : c = 0 ↔ c.toInt = 0 := by
  rw [← BitVec.toInt_inj]
  rfl

theorem strippable_iff (d : Decimal) :
    d.Strippable ↔
      d.exponent.toInt < 0 ∧ d.coefficient.toInt ≠ 0 ∧ d.coefficient.toInt.tmod 10 = 0 := by
  have hten : (10 : BitVec 128).toInt = 10 := by decide
  rw [Strippable, Int32.lt_iff_toInt_lt, ne_eq, eq_zero_iff, eq_zero_iff, BitVec.toInt_srem, hten]
  rfl

/-- A round does not overflow, and takes one zero and one place. -/
theorem exists_stripSteps {d : Decimal} (h : d.exponent.toInt < 0) :
    ∃ next, d.stripSteps = some next ∧
      next.coefficient.toInt = d.coefficient.toInt.tdiv 10 ∧
      next.exponent.toInt = d.exponent.toInt + 1 := by
  have hlow := d.exponent.le_toInt
  -- only a division by minus one can overflow
  have hquotient : d.coefficient.sdivOverflow 10 = false := by
    have hten : (10 : BitVec 128) ≠ BitVec.allOnes 128 := by decide
    rw [BitVec.sdivOverflow_eq, decide_eq_false hten, Bool.and_false]
  -- an exponent below zero has one after it
  have hexponent : d.exponent.toBitVec.saddOverflow 1 = false := by
    have hone : (1 : BitVec 32).toInt = 1 := by decide
    rw [BitVec.saddOverflow, hone, Bool.or_eq_false_iff, decide_eq_false_iff_not,
      decide_eq_false_iff_not, Int32.toInt_toBitVec]
    omega
  refine ⟨⟨d.coefficient.sdiv 10, d.exponent + 1⟩, ?_, ?_, ?_⟩
  · rw [stripSteps, hquotient, hexponent]
    rfl
  · exact BitVec.toInt_sdiv_of_ne_or_ne _ _ (Or.inr (by decide))
  · rw [Int32.toInt_add, Int32.toInt_one, Int.bmod_eq_of_le] <;> omega

/-- The loop is the stripping of `s` places. -/
theorem loop_strip {s : Nat} {d : Decimal} (h : d.exponent.toInt = -(s : Int)) :
    ∃ last, Loop d last ∧ last.coefficient.toInt = (strip s d.coefficient.toInt).1 ∧
      last.exponent.toInt = -((strip s d.coefficient.toInt).2 : Int) := by
  induction s generalizing d with
  | zero =>
    have hstop : ¬d.Strippable := by
      rw [strippable_iff]
      omega
    exact ⟨d, .stop hstop, rfl, h⟩
  | succ s ih =>
    have hneg : d.exponent.toInt < 0 := by omega
    have hgoes := strippable_iff d
    rw [strip]
    split
    · rename_i hzero
      obtain ⟨next, hnext, hcoefficient, hexponent⟩ := exists_stripSteps hneg
      obtain ⟨last, hloop, hlast⟩ := ih (d := next) (by omega)
      -- the round took the zero that `strip` takes first
      rw [hcoefficient] at hlast
      exact ⟨last, .round (hgoes.2 ⟨hneg, hzero⟩) hnext hloop, hlast⟩
    · rename_i hzero
      exact ⟨d, .stop fun hstrip => hzero (hgoes.1 hstrip).2, rfl, h⟩

/-- The loop ends at one decimal only. -/
theorem Loop.unique {d last other : Decimal} (h : Loop d last) (hother : Loop d other) :
    last = other := by
  induction h with
  | stop hstop =>
    cases hother with
    | stop => rfl
    | round hgoes => exact absurd hgoes hstop
  | round hgoes hnext _ ih =>
    cases hother with
    | stop hstop => exact absurd hgoes hstop
    | round _ hnext' hloop =>
      rw [hnext, Option.some_inj] at hnext'
      exact ih (hnext' ▸ hloop)

theorem coefficient_settle (d : Decimal) : d.settle.coefficient = d.coefficient := by
  unfold settle
  split <;> rfl

theorem exponent_settle (d : Decimal) :
    d.settle.exponent.toInt =
      if d.coefficient.toInt = 0 then max d.exponent.toInt 0 else d.exponent.toInt := by
  have hmax : (max d.exponent 0).toInt = max d.exponent.toInt 0 := by
    show (if d.exponent ≤ 0 then 0 else d.exponent).toInt = _
    simp only [Int32.le_iff_toInt_le, Int32.toInt_zero]
    split
    · rw [Int32.toInt_zero]
      omega
    · omega
  simp only [settle, eq_zero_iff]
  split
  · exact hmax
  · rfl

/-- The loop comes to an end without overflow, and what is settled then is the reduced decimal. -/
theorem loop_reduce (d : Decimal) : ∃ last, Loop d last ∧ last.settle = d.reduce := by
  rcases Int.lt_or_le d.exponent.toInt 0 with hneg | hnonneg
  · obtain ⟨last, hloop, hc, he⟩ := loop_strip (s := (-d.exponent.toInt).toNat) (d := d) (by omega)
    obtain ⟨hc', he'⟩ := reduce_of_neg hneg
    refine ⟨last, hloop, eq_of_toInt_eq ?_ ?_⟩
    · rw [coefficient_settle, hc, hc']
    · rw [exponent_settle, hc, he, he']
      split <;> omega
  · have hstop : ¬d.Strippable := by
      rw [strippable_iff]
      omega
    refine ⟨d, .stop hstop, ?_⟩
    rw [reduce_of_nonneg hnonneg]
    refine eq_of_toInt_eq (congrArg _ d.coefficient_settle) ?_
    rw [exponent_settle]
    split <;> omega

/-! ## One number, one reduced decimal -/

/-- Where ten does not divide the coefficient, no fewer places would do. -/
theorem places_le {a b : Int} {s t : Nat} (h : a * 10 ^ t = b * 10 ^ s) (ha : ¬10 ∣ a) :
    s ≤ t := by
  by_contra hlt
  -- the places that `b` has more would be zeros of `a`
  obtain ⟨k, rfl⟩ := Nat.exists_eq_add_of_lt (Nat.not_le.1 hlt)
  have hscale : (10 : Int) ^ t ≠ 0 := pow_ne_zero t (by decide)
  have hcancel : a * 10 ^ t = b * 10 ^ k * 10 * 10 ^ t := by
    rw [h]
    ring
  exact ha ⟨b * 10 ^ k, by rw [mul_right_cancel₀ hscale hcancel, Int.mul_comm]⟩

/-- Decimals of one number that have places and no zeros to strip are equal. -/
theorem eq_of_value_eq {d e : Decimal} (h : d.value = e.value) (hd : d.exponent.toInt < 0)
    (he : e.exponent.toInt < 0) (hdzero : ¬10 ∣ d.coefficient.toInt)
    (hezero : ¬10 ∣ e.coefficient.toInt) : d = e := by
  obtain ⟨s, hs⟩ := Int.exists_eq_neg_ofNat (Int.le_of_lt hd)
  obtain ⟨t, ht⟩ := Int.exists_eq_neg_ofNat (Int.le_of_lt he)
  rw [value_of_neg hs, value_of_neg ht, div_eq_div_iff (scale_ne_zero s) (scale_ne_zero t)] at h
  have hcross : d.coefficient.toInt * 10 ^ t = e.coefficient.toInt * 10 ^ s := by exact_mod_cast h
  -- neither has more places than the other
  obtain rfl : s = t := Nat.le_antisymm (places_le hcross hdzero) (places_le hcross.symm hezero)
  have hsame : d.coefficient.toInt = e.coefficient.toInt :=
    mul_right_cancel₀ (pow_ne_zero s (by decide)) hcross
  exact eq_of_toInt_eq hsame (hs.trans ht.symm)

/-- What reducing makes of a decimal. -/
structure Canonical (d : Decimal) : Prop where
  /-- The loop ends, with what is settled to the reduced decimal, and nothing overflows. -/
  ends : ∃ last, Loop d last ∧ last.settle = d.reduce
  /-- It cannot end otherwise. -/
  ends_only : ∀ last, Loop d last → last.settle = d.reduce
  /-- The number is kept. -/
  value : d.reduce.value = d.value
  /-- No places are left, or a coefficient without zeros to strip. -/
  stripped : 0 ≤ d.reduce.exponent.toInt ∨
    d.reduce.coefficient.toInt ≠ 0 ∧ ¬10 ∣ d.reduce.coefficient.toInt
  /-- Reducing once is enough. -/
  again : d.reduce.reduce = d.reduce
  /-- All decimals of the number that are left with places are reduced to the same decimal. -/
  unique : ∀ e : Decimal, e.value = d.value → d.reduce.exponent.toInt < 0 →
    e.reduce.exponent.toInt < 0 → e.reduce = d.reduce

/-- Reducing picks one decimal of each number that is no integer. -/
theorem reduce_canonical (d : Decimal) : d.Canonical where
  ends := loop_reduce d
  ends_only last hloop := by
    obtain ⟨last', hloop', hsettle⟩ := loop_reduce d
    rw [hloop.unique hloop', hsettle]
  value := value_reduce d
  stripped := by
    refine (reduce_exponent d).imp_right fun hdvd => ⟨fun hzero => hdvd ?_, hdvd⟩
    rw [hzero]
    exact Int.dvd_zero 10
  again := reduce_reduce d
  unique e hvalue hd he := by
    have hsame : e.reduce.value = d.reduce.value := by rw [value_reduce, value_reduce, hvalue]
    exact eq_of_value_eq hsame he hd (e.reduce_exponent.resolve_left (Int.not_le.2 he))
      (d.reduce_exponent.resolve_left (Int.not_le.2 hd))

end QueryLink.Decimal
