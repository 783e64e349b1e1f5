import QueryLink.Proofs.DecimalInteger

/-!
# The text of a decimal

A text in decimal notation has a sign, digits, and perhaps a point with more digits behind it.
`Figures` are these parts. They can be told from the text alone, so a text denotes one number,
whoever wrote it.

The text of a decimal denotes the number that the decimal does. The digits of the coefficient are
cut where the places start, and zeros are put in front of them, or behind them, where there are too
few.

## Key results

- `Figures.ofChars_chars`: the parts are read off the text
- `size_cut`: digits may be cut anywhere to make a fraction
- `text_tells`: sign, point and places of the text of a decimal, and the number it denotes
-/

namespace QueryLink

/-- The parts of a text in decimal notation. -/
structure Figures where
  negative : Bool
  /-- The digits in front of the point. -/
  whole : List Char
  /-- The digits behind the point, if there is one. -/
  places : Option (List Char)
  deriving Repr, DecidableEq

namespace Figures

/-- The point and what is behind it. -/
def tail (f : Figures) : List Char :=
  f.places.elim [] ('.' :: ·)

/-- The text made of the parts. -/
def chars (f : Figures) : List Char :=
  (if f.negative then ['-'] else []) ++ (f.whole ++ f.tail)

/-- The parts of a text. -/
def ofChars (text : List Char) : Figures :=
  let negative := text.head? = some '-'
  let body := if negative then text.tail else text
  ⟨negative, body.takeWhile Char.isDigit, (body.dropWhile Char.isDigit).tail?⟩

/-- Whether the digits are digits, at least one of them in front of the point. -/
structure WellFormed (f : Figures) : Prop where
  whole_ne_nil : f.whole ≠ []
  whole : ∀ c ∈ f.whole, c.isDigit = true
  places : ∀ ds, f.places = some ds → ∀ c ∈ ds, c.isDigit = true

/-- The number that is denoted, without its sign. -/
def size (f : Figures) : ℚ :=
  Nat.ofDigitChars 10 f.whole 0 +
    Nat.ofDigitChars 10 (f.places.getD []) 0 / 10 ^ (f.places.getD []).length

/-- The number that is denoted, in base ten. -/
def value (f : Figures) : ℚ :=
  if f.negative then -f.size else f.size

/-- The parts are read off the text that is made of them. -/
theorem ofChars_chars {f : Figures} (h : f.WellFormed) : ofChars f.chars = f := by
  obtain ⟨negative, whole, places⟩ := f
  -- the digits in front end where the point stands, or with the text
  have htake : (whole ++ tail ⟨negative, whole, places⟩).takeWhile Char.isDigit = whole := by
    rw [List.takeWhile_append_of_pos h.whole]
    cases places <;> simp [tail]
  have hdrop : ((whole ++ tail ⟨negative, whole, places⟩).dropWhile Char.isDigit).tail? =
      places := by
    rw [List.dropWhile_append_of_pos h.whole]
    cases places <;> simp [tail]
  cases negative with
  | true => simp [chars, ofChars, htake, hdrop]
  | false =>
    -- a digit is no sign
    have hsign : (whole ++ tail ⟨false, whole, places⟩).head? ≠ some '-' := by
      obtain ⟨c, ds, rfl⟩ := List.exists_cons_of_ne_nil h.whole_ne_nil
      simp only [List.cons_append, List.head?_cons, ne_eq, Option.some_inj]
      rintro rfl
      exact absurd (h.whole _ List.mem_cons_self) (by decide)
    simp only [chars, ofChars, Bool.false_eq_true, if_false, List.nil_append, hsign, htake, hdrop,
      decide_false]

end Figures

namespace Decimal

/-! ## Digits -/

theorem isDigit_of_mem_zeros {k : Nat} {c : Char} (h : c ∈ List.replicate k '0') :
    c.isDigit = true := by
  rw [List.eq_of_mem_replicate h]
  rfl

theorem ofDigitChars_digits (n : Nat) : Nat.ofDigitChars 10 (Nat.toDigits 10 n) 0 = n :=
  Nat.ofDigitChars_toDigits (by decide) (by decide)

theorem isDigit_of_mem_digits {n : Nat} {c : Char} (h : c ∈ Nat.toDigits 10 n) :
    c.isDigit = true :=
  Nat.isDigit_of_mem_toDigits (by decide) (by decide) h

/-- The digits of `n` with as many zeros in front as it takes to have more than `places`. -/
def padded (places n : Nat) : List Char :=
  List.replicate (places + 1 - (Nat.toDigits 10 n).length) '0' ++ Nat.toDigits 10 n

theorem places_lt_length_padded (places n : Nat) : places < (padded places n).length := by
  rw [padded, List.length_append, List.length_replicate]
  omega

theorem ofDigitChars_padded (places n : Nat) :
    Nat.ofDigitChars 10 (padded places n) 0 = n := by
  rw [padded, Nat.ofDigitChars_append, Nat.ofDigitChars_replicate_zero, Nat.mul_zero,
    ofDigitChars_digits]

theorem isDigit_of_mem_padded {places n : Nat} {c : Char} (h : c ∈ padded places n) :
    c.isDigit = true := by
  obtain hzero | hdigit := List.mem_append.1 h
  · exact isDigit_of_mem_zeros hzero
  · exact isDigit_of_mem_digits hdigit

/-! ## The parts of the text -/

/-- The parts of the text of a decimal. -/
def figures (d : Decimal) : Figures :=
  let negative := d.coefficient.toInt < 0
  let n := d.coefficient.toInt.natAbs
  let places := d.exponent.toInt.natAbs
  if 0 ≤ d.exponent.toInt then
    ⟨negative, Nat.toDigits 10 n ++ List.replicate places '0', none⟩
  else
    let digits := padded places n
    ⟨negative, digits.take (digits.length - places), some (digits.drop (digits.length - places))⟩

theorem figures_of_nonneg {d : Decimal} (h : 0 ≤ d.exponent.toInt) :
    d.figures = ⟨d.coefficient.toInt < 0, Nat.toDigits 10 d.coefficient.toInt.natAbs ++
      List.replicate d.exponent.toInt.natAbs '0', none⟩ :=
  if_pos h

theorem figures_of_neg {d : Decimal} (h : d.exponent.toInt < 0) :
    d.figures =
      let places := d.exponent.toInt.natAbs
      let digits := padded places d.coefficient.toInt.natAbs
      ⟨d.coefficient.toInt < 0, digits.take (digits.length - places),
        some (digits.drop (digits.length - places))⟩ :=
  if_neg (Int.not_le.2 h)

theorem negative_figures (d : Decimal) :
    d.figures.negative = true ↔ d.coefficient.toInt < 0 := by
  unfold figures
  dsimp only
  split <;> exact decide_eq_true_iff

/-- The text is made of them. -/
theorem chars_figures (d : Decimal) : d.figures.chars = d.text.toList := by
  unfold figures text padded Figures.chars Figures.tail
  dsimp only
  split
  · rename_i hnonneg
    have hplaces : d.exponent.toInt.toNat = d.exponent.toInt.natAbs := by omega
    by_cases hsign : d.coefficient.toInt < 0 <;> simp [hsign, hplaces]
  · by_cases hsign : d.coefficient.toInt < 0 <;> simp [hsign]

theorem wellFormed_figures (d : Decimal) : d.figures.WellFormed := by
  rcases Int.lt_or_le d.exponent.toInt 0 with hneg | hnonneg
  · rw [figures_of_neg hneg]
    have hlength := places_lt_length_padded d.exponent.toInt.natAbs d.coefficient.toInt.natAbs
    refine ⟨fun hnil => ?_, fun c hc => ?_, fun ds hds c hc => ?_⟩
    · -- one digit more than there are places is in front
      have hcount := congrArg List.length hnil
      simp only [List.length_take, List.length_nil] at hcount
      omega
    · exact isDigit_of_mem_padded (List.mem_of_mem_take hc)
    · cases hds
      exact isDigit_of_mem_padded (List.mem_of_mem_drop hc)
  · rw [figures_of_nonneg hnonneg]
    refine ⟨fun hnil => ?_, fun c hc => ?_, fun ds hds => ?_⟩
    · have hpos := @Nat.length_toDigits_pos 10 d.coefficient.toInt.natAbs
      rw [(List.append_eq_nil_iff.1 hnil).1] at hpos
      exact absurd hpos (by decide)
    · obtain hdigit | hzero := List.mem_append.1 hc
      · exact isDigit_of_mem_digits hdigit
      · exact isDigit_of_mem_zeros hzero
    · cases hds

/-- Digits with places cut off behind denote a fraction. -/
theorem size_cut {digits : List Char} {places : Nat} (h : places ≤ digits.length)
    (negative : Bool) :
    Figures.size ⟨negative, digits.take (digits.length - places),
      some (digits.drop (digits.length - places))⟩ =
        Nat.ofDigitChars 10 digits 0 / 10 ^ places := by
  have hlength : (digits.drop (digits.length - places)).length = places := by
    rw [List.length_drop]
    omega
  -- the number of all digits, from those of the two parts
  have hall : Nat.ofDigitChars 10 digits 0 =
      10 ^ places * Nat.ofDigitChars 10 (digits.take (digits.length - places)) 0 +
        Nat.ofDigitChars 10 (digits.drop (digits.length - places)) 0 := by
    conv_lhs => rw [← List.take_append_drop (digits.length - places) digits]
    rw [Nat.ofDigitChars_append, Nat.ofDigitChars_eq_ofDigitChars_zero, hlength]
  have hscale : (10 : ℚ) ^ places ≠ 0 := pow_ne_zero places (by norm_num)
  rw [Figures.size, Option.getD_some, hlength, hall]
  push_cast
  field_simp

theorem size_figures (d : Decimal) :
    d.figures.size = d.coefficient.toInt.natAbs * (10 : ℚ) ^ d.exponent.toInt := by
  rcases Int.lt_or_le d.exponent.toInt 0 with hneg | hnonneg
  · have hlength := places_lt_length_padded d.exponent.toInt.natAbs d.coefficient.toInt.natAbs
    have hplaces : d.exponent.toInt = -(d.exponent.toInt.natAbs : Int) := by omega
    rw [figures_of_neg hneg, size_cut (Nat.le_of_lt hlength), ofDigitChars_padded, div_eq_mul_inv]
    conv_rhs => rw [hplaces, zpow_neg, zpow_natCast]
  · have hplaces : d.exponent.toInt = (d.exponent.toInt.natAbs : Int) := by omega
    rw [figures_of_nonneg hnonneg]
    conv_rhs => rw [hplaces, zpow_natCast]
    rw [Figures.size, Nat.ofDigitChars_append, Nat.ofDigitChars_replicate_zero,
      ofDigitChars_digits]
    simp [mul_comm]

/-- They denote the number of the decimal. -/
theorem value_figures (d : Decimal) : d.figures.value = d.value := by
  have hsign := d.negative_figures
  rw [Figures.value, size_figures, value]
  split
  · rename_i hnegative
    have habs : (d.coefficient.toInt.natAbs : Int) = -d.coefficient.toInt :=
      Int.ofNat_natAbs_of_nonpos (Int.le_of_lt (hsign.1 hnegative))
    rw [← Int.cast_natCast (R := ℚ), habs]
    push_cast
    ring
  · rename_i hnegative
    have habs : (d.coefficient.toInt.natAbs : Int) = d.coefficient.toInt :=
      Int.natAbs_of_nonneg (Int.not_lt.1 (mt hsign.2 hnegative))
    rw [← Int.cast_natCast (R := ℚ), habs]

/-- What the parts of a text say about a decimal. -/
structure Tells (d : Decimal) (text : List Char) (f : Figures) : Prop where
  /-- There is nothing in the text but a sign, digits, and a point with digits behind it. -/
  chars : f.chars = text
  wellFormed : f.WellFormed
  /-- There is a sign when the coefficient is negative, and only then. -/
  sign : f.negative = true ↔ d.coefficient.toInt < 0
  /-- There is a point when the exponent is negative, and only then, -/
  point : f.places.isSome = true ↔ d.exponent.toInt < 0
  /-- and as many digits behind it as the exponent asks for. -/
  places : ∀ ds, f.places = some ds → (ds.length : Int) = -d.exponent.toInt
  /-- What is denoted in base ten is the number of the decimal. -/
  value : f.value = d.value

/-- The text of a decimal denotes its number, with as many places as the exponent asks for. -/
theorem text_tells (d : Decimal) : d.Tells d.text.toList (.ofChars d.text.toList) := by
  rw [← chars_figures, Figures.ofChars_chars d.wellFormed_figures]
  refine ⟨rfl, d.wellFormed_figures, d.negative_figures, ?_, ?_, d.value_figures⟩
  · rcases Int.lt_or_le d.exponent.toInt 0 with hneg | hnonneg
    · rw [figures_of_neg hneg]
      exact iff_of_true rfl hneg
    · rw [figures_of_nonneg hnonneg]
      exact iff_of_false (by simp) (Int.not_lt.2 hnonneg)
  · intro ds hds
    rcases Int.lt_or_le d.exponent.toInt 0 with hneg | hnonneg
    · have hlength := places_lt_length_padded d.exponent.toInt.natAbs d.coefficient.toInt.natAbs
      rw [figures_of_neg hneg] at hds
      cases hds
      rw [List.length_drop]
      omega
    · rw [figures_of_nonneg hnonneg] at hds
      cases hds

end Decimal

end QueryLink
