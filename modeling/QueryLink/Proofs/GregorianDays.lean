import QueryLink.Calendar.Gregorian
import Mathlib.Tactic.IntervalCases

/-! # The days of the proleptic Gregorian calendar

The rules of the calendar say which years are leap years, how long the months are, and which date
comes next. The computation of dates from days and back is shown to follow them: day zero is
1970-01-01, the day after a day has the next date, and the two directions are inverse to each other
on all days and all dates there are.

* `Civil.ofEpochDay_epochDay`      a date comes back from its day
* `Civil.epochDay_ofEpochDay`      a day comes back from its date
* `Civil.ofEpochDay_succ`          the dates follow one another in the order of the days
* `Civil.inRange_iff`              the days whose years have four digits at most -/

namespace QueryLink.Civil

/-! ## Months counted from March -/

/-- How many months after March a month comes. -/
def sinceMarch (month : Nat) : Int := if 2 < month then (month : Int) - 3 else month + 9

theorem sinceMarch_nonneg {month : Nat} (h : 1 ≤ month) : 0 ≤ sinceMarch month := by
  unfold sinceMarch; split <;> omega

/-- January and February come last. -/
theorem sinceMarch_le_nine_iff {month : Nat} (h : 1 ≤ month) (h' : month ≤ 12) :
    sinceMarch month ≤ 9 ↔ 2 < month := by
  unfold sinceMarch; split <;> omega

/-- The month that comes that long after March. -/
theorem month_of_sinceMarch {month : Nat} (h : 1 ≤ month) (h' : month ≤ 12) :
    (if sinceMarch month < 10 then sinceMarch month + 3 else sinceMarch month - 9) = month := by
  unfold sinceMarch
  split <;> split <;> omega

theorem daysIn_pos (year : Int) (month : Nat) : 1 ≤ daysIn year month := by
  unfold daysIn
  split
  · split <;> omega
  all_goals omega

theorem daysIn_february (year : Int) : daysIn year 2 = if IsLeap year then 29 else 28 := rfl

theorem daysBefore_february : daysBefore (sinceMarch 2) = 337 := rfl

/-- February, the last month of such a year, is the only one that ends short of the next. -/
theorem daysBefore_add_daysIn (year : Int) {month : Nat} (h : 1 ≤ month) (h' : month ≤ 12)
    (hfeb : month ≠ 2) :
    daysBefore (sinceMarch month) + daysIn year month = daysBefore (sinceMarch month + 1) := by
  interval_cases month
  · rfl
  · exact absurd rfl hfeb
  all_goals rfl

theorem daysIn_le (year : Int) {month : Nat} (h : 1 ≤ month) (h' : month ≤ 12) :
    daysBefore (sinceMarch month) + daysIn year month ≤ daysBefore (sinceMarch month + 1) := by
  by_cases hfeb : month = 2
  · subst hfeb
    rw [daysIn_february]
    split <;> decide
  · exact le_of_eq (daysBefore_add_daysIn year h h' hfeb)

/-! ## Years that begin in March -/

/-- The year of a date when years begin in March. -/
def marchYear (d : Civil) : Int := if d.month ≤ 2 then d.year - 1 else d.year

/-- How many days of its year, when years begin in March, come before a date. -/
def dayOfYear (d : Civil) : Int := daysBefore (sinceMarch d.month) + d.day - 1

/-- How many days the years from year zero up to a year have, when years begin in March: the
leap day is in the year before. -/
def beforeYear (y : Int) : Int := 365 * y + y / 4 - y / 100 + y / 400

theorem beforeYear_succ (y : Int) : beforeYear y = beforeYear (y - 1) + 337 + daysIn y 2 := by
  rw [daysIn_february]
  by_cases h : IsLeap y
  · simp only [h, if_pos, beforeYear]
    unfold IsLeap at h
    omega
  · simp only [h, if_neg, beforeYear, not_false_eq_true]
    unfold IsLeap at h
    omega

theorem beforeYear_mono {y z : Int} (h : y ≤ z) : beforeYear y ≤ beforeYear z := by
  obtain rfl | h := Int.le_iff_eq_or_lt.mp h
  · exact Int.le_refl _
  · simp only [beforeYear]
    omega

/-- The computation by eras counts the years of all of them. -/
theorem epochDay_eq (d : Civil) :
    d.epochDay = beforeYear d.marchYear + d.dayOfYear - eraShift := by
  simp only [epochDay, marchYear, sinceMarch, dayOfYear, beforeYear, daysPerEra]
  generalize (if d.month ≤ 2 then d.year - 1 else d.year) = y
  generalize daysBefore _ = m
  -- The leap years of an era are those counted so far less those of the eras before.
  have hfour : y % 400 / 4 = y / 4 - 100 * (y / 400) := by omega
  have hcent : y % 400 / 100 = y / 100 - 4 * (y / 400) := by omega
  omega

namespace Valid

variable {d : Civil}

theorem dayOfYear_nonneg (h : d.Valid) : 0 ≤ d.dayOfYear := by
  have hm := sinceMarch_nonneg h.month_pos
  have hd := h.day_pos
  simp only [dayOfYear, daysBefore]
  omega

/-- A leap day is the only day of a year that has 365 days before it. -/
theorem dayOfYear_le (h : d.Valid) :
    d.dayOfYear ≤ 364 ∨ (d.dayOfYear = 365 ∧ IsLeap (d.marchYear + 1)) := by
  have hend := daysIn_le d.year h.month_pos h.month_le
  have hd := h.day_le
  simp only [dayOfYear]
  by_cases hfeb : d.month = 2
  · have hyear : d.marchYear + 1 = d.year := by simp [marchYear, hfeb]
    rw [hfeb, daysIn_february] at hd
    rw [hfeb, hyear, daysBefore_february]
    by_cases hleap : IsLeap d.year
    · simp only [hleap, if_pos] at hd
      simp only [hleap, and_true]
      omega
    · simp only [hleap, if_neg, not_false_eq_true] at hd
      omega
  · have hm : sinceMarch d.month ≤ 10 := by
      have hm := h.month_le
      unfold sinceMarch
      split <;> omega
    simp only [daysBefore] at hend ⊢
    omega

/-- The month of a date can be told from how many days come before. -/
theorem sinceMarch_eq (h : d.Valid) : (5 * d.dayOfYear + 2) / 153 = sinceMarch d.month := by
  have hend := daysIn_le d.year h.month_pos h.month_le
  have hd := h.day_pos
  have hd' := h.day_le
  simp only [dayOfYear]
  simp only [daysBefore] at hend ⊢
  omega

end Valid

/-! ## The date after a date -/

theorem Valid.next {d : Civil} (h : d.Valid) : d.next.Valid := by
  unfold Civil.next
  split
  · exact ⟨h.month_pos, h.month_le, Nat.le_add_left .., by assumption⟩
  · split
    · exact ⟨Nat.le_add_left .., by assumption, Nat.le_refl _, daysIn_pos ..⟩
    · exact ⟨Nat.le_refl _, by simp, Nat.le_refl _, daysIn_pos ..⟩

/-- The month after a month comes next in the year, unless that ends with February. -/
theorem sinceMarch_next {month : Nat} (h : 1 ≤ month) (hfeb : month ≠ 2) :
    sinceMarch (month + 1) = sinceMarch month + 1 := by
  unfold sinceMarch
  split <;> split <;> omega

/-- The date after a date is that of the next day, within a month, at its end, at the end of
February and at the end of the year. -/
theorem epochDay_next {d : Civil} (h : d.Valid) : d.next.epochDay = d.epochDay + 1 := by
  rw [epochDay_eq, epochDay_eq]
  unfold Civil.next
  split
  · simp only [marchYear, dayOfYear]
    omega
  · have hday : d.day = daysIn d.year d.month := by have := h.day_le; omega
    split
    · by_cases hfeb : d.month = 2
      · -- The year that began in March is over.
        have hyear := beforeYear_succ d.year
        simp only [marchYear, dayOfYear, hday, hfeb, daysBefore_february,
          show daysBefore (sinceMarch (2 + 1)) = 0 from rfl]
        simp only [Nat.reduceAdd, Nat.reduceLeDiff, if_false, if_true]
        omega
      · have hend := daysBefore_add_daysIn d.year h.month_pos h.month_le hfeb
        have hyear : d.month + 1 ≤ 2 ↔ d.month ≤ 2 := by have := h.month_pos; omega
        simp only [marchYear, dayOfYear, hday, sinceMarch_next h.month_pos hfeb, ← hend, hyear]
        omega
    · have hdec : d.month = 12 := by have := h.month_le; omega
      simp only [marchYear, dayOfYear, hday, hdec, show daysIn d.year 12 = 31 from rfl,
        show daysBefore (sinceMarch 12) = 275 from rfl,
        show daysBefore (sinceMarch 1) = 306 from rfl]
      simp
      omega

/-! ## Dates of days -/

/-- The year of an era by the days before it in the era. The days that the quotients take away are
the leap days: one every 1460 days, but for three of the centuries. -/
theorem yearOfEra_eq {y doy : Int} (hy : 0 ≤ y) (hy' : y < 400) (hd : 0 ≤ doy)
    (hd' : doy ≤ 364 ∨ (doy = 365 ∧ IsLeap (y + 1))) {doe : Int}
    (hdoe : doe = 365 * y + y / 4 - y / 100 + doy) :
    (doe - doe / 1460 + doe / 36524 - doe / 146096) / 365 = y := by
  obtain ⟨q, f, g, hq, hf, hg, rfl⟩ : ∃ q f g : Int,
      (0 ≤ q ∧ q ≤ 3) ∧ (0 ≤ f ∧ f ≤ 24) ∧ (0 ≤ g ∧ g ≤ 3) ∧ y = 100 * q + 4 * f + g :=
    ⟨y / 100, y % 100 / 4, y % 4, by omega, by omega, by omega, by omega⟩
  have hleap : doy ≤ 364 ∨ (doy = 365 ∧ g = 3 ∧ (f = 24 → q = 3)) := by
    unfold IsLeap at hd'
    omega
  have hdays : doe = 36524 * q + 1461 * f + 365 * g + doy := by omega
  clear hdoe hd'
  -- Only the last day of the era is past its four times 36524 days.
  have hcent : doe / 36524 - doe / 146096 = q := by
    have hlast : doe ≤ 36524 * q + 36523 ∨ (q = 3 ∧ doe = 146096) := by omega
    obtain hlast | ⟨rfl, rfl⟩ := hlast
    · have hq : doe / 36524 = q := by omega
      omega
    · rfl
  by_cases hlate : 1460 ≤ 24 * q + f + 365 * g + doy
  · have hg : g = 3 := by omega
    have hfour : doe / 1460 = 25 * q + f + 1 := by omega
    omega
  · have hfour : doe / 1460 = 25 * q + f := by omega
    omega

/-- How many days of its era come before a date. -/
def dayOfEra (d : Civil) : Int :=
  365 * (d.marchYear % 400) + d.marchYear % 400 / 4 - d.marchYear % 400 / 100 + d.dayOfYear

/-- The last year of an era ends with a leap day, and the era ends with it. -/
theorem Valid.dayOfEra_bounds {d : Civil} (h : d.Valid) :
    0 ≤ d.dayOfEra ∧ d.dayOfEra < daysPerEra := by
  have hd := h.dayOfYear_nonneg
  have hd' := h.dayOfYear_le
  simp only [dayOfEra, daysPerEra]
  omega

theorem Valid.era_eq {d : Civil} (h : d.Valid) :
    (d.epochDay + eraShift) / daysPerEra = d.marchYear / 400 ∧
      (d.epochDay + eraShift) % daysPerEra = d.dayOfEra := by
  have hbounds := h.dayOfEra_bounds
  have hsum : d.epochDay + eraShift = daysPerEra * (d.marchYear / 400) + d.dayOfEra := by
    rw [epochDay_eq]
    simp only [beforeYear, dayOfEra, daysPerEra]
    omega
  rw [hsum]
  simp only [daysPerEra] at *
  omega

theorem Valid.marchYearOfEra_eq {d : Civil} (h : d.Valid) :
    (d.dayOfEra - d.dayOfEra / 1460 + d.dayOfEra / 36524 - d.dayOfEra / 146096) / 365 =
      d.marchYear % 400 := by
  have hd := h.dayOfYear_le
  apply yearOfEra_eq (by omega) (by omega) h.dayOfYear_nonneg _ rfl
  unfold IsLeap at *
  omega

/-- A date comes back from its day: the era, the year in it and the month are found in turn. -/
theorem ofEpochDay_epochDay {d : Civil} (h : d.Valid) : ofEpochDay d.epochDay = d := by
  obtain ⟨hera, hrest⟩ := h.era_eq
  have hdays : d.dayOfEra - (365 * (d.marchYear % 400) + d.marchYear % 400 / 4 -
      d.marchYear % 400 / 100) = d.dayOfYear := by
    simp only [dayOfEra]
    omega
  have hyear : d.marchYear % 400 + d.marchYear / 400 * 400 + (if d.month ≤ 2 then 1 else 0) =
      d.year := by
    simp only [marchYear]
    split <;> omega
  have hday : (d.dayOfYear - daysBefore (sinceMarch d.month) + 1).toNat = d.day := by
    simp only [dayOfYear]
    omega
  simp only [ofEpochDay, hera, hrest, h.marchYearOfEra_eq, hdays, h.sinceMarch_eq,
    month_of_sinceMarch h.month_pos h.month_le, Int.toNat_natCast, Nat.cast_le_ofNat, hyear, hday]

/-- From the first of March that an era starts with dates go on, day by day. -/
theorem exists_valid_from (era : Int) (k : Nat) :
    ∃ d : Civil, d.Valid ∧ d.epochDay = daysPerEra * era - eraShift + k := by
  induction k with
  | zero =>
    refine ⟨⟨400 * era, 3, 1⟩, ⟨by simp, by simp, by simp, daysIn_pos ..⟩, ?_⟩
    rw [epochDay_eq]
    simp only [marchYear, dayOfYear, beforeYear, daysPerEra,
      show daysBefore (sinceMarch 3) = 0 from rfl]
    simp
    omega
  | succ k ih =>
    obtain ⟨d, hd, hk⟩ := ih
    exact ⟨d.next, hd.next, by rw [epochDay_next hd, hk]; omega⟩

theorem exists_valid (n : Int) : ∃ d : Civil, d.Valid ∧ d.epochDay = n := by
  obtain ⟨d, hd, hn⟩ :=
    exists_valid_from ((n + eraShift) / daysPerEra) ((n + eraShift) % daysPerEra).toNat
  refine ⟨d, hd, ?_⟩
  rw [hn]
  simp only [daysPerEra, eraShift]
  omega

/-- The dates of the days are dates there are: a day has one, and it comes back from the day. -/
theorem valid_ofEpochDay (n : Int) : (ofEpochDay n).Valid := by
  obtain ⟨d, hd, rfl⟩ := exists_valid n
  rw [ofEpochDay_epochDay hd]
  exact hd

theorem epochDay_ofEpochDay (n : Int) : (ofEpochDay n).epochDay = n := by
  obtain ⟨d, hd, rfl⟩ := exists_valid n
  rw [ofEpochDay_epochDay hd]

theorem ofEpochDay_zero : ofEpochDay 0 = ⟨1970, 1, 1⟩ := rfl

theorem ofEpochDay_succ (n : Int) : ofEpochDay (n + 1) = (ofEpochDay n).next := by
  have hd := valid_ofEpochDay n
  rw [← ofEpochDay_epochDay hd.next, epochDay_next hd, epochDay_ofEpochDay]

/-! ## The range of years -/

/-- The day -9999-01-01. -/
def firstDay : Int := -4371587

/-- The day 9999-12-31. -/
def lastDay : Int := 2932896

/-- A date is no earlier than its year and no later. -/
theorem year_bounds {d : Civil} (h : d.Valid) :
    beforeYear (d.year - 1) + 306 - eraShift ≤ d.epochDay ∧
      d.epochDay < beforeYear d.year + 306 - eraShift := by
  have hyear := beforeYear_succ d.year
  have hfrom := h.dayOfYear_nonneg
  have hto := h.dayOfYear_le
  have hend := daysIn_le d.year h.month_pos h.month_le
  have hd := h.day_pos
  have hd' := h.day_le
  rw [epochDay_eq]
  have hmarch := sinceMarch_le_nine_iff h.month_pos h.month_le
  by_cases hm : d.month ≤ 2
  · -- January and February end the year that began in March.
    simp only [marchYear, hm, if_true]
    have hjan : 306 ≤ d.dayOfYear := by
      simp only [dayOfYear, daysBefore]
      omega
    omega
  · simp only [marchYear, hm, if_false]
    have hdec : d.dayOfYear ≤ 305 := by
      simp only [dayOfYear]
      simp only [daysBefore] at hend ⊢
      omega
    omega

/-- Whether a day is one of those in range. -/
def DayInRange (n : Int) : Prop := firstDay ≤ n ∧ n ≤ lastDay

instance (n : Int) : Decidable (DayInRange n) := inferInstanceAs (Decidable (_ ∧ _))

/-- The years from -9999 to 9999 are the days from the first of one to the last of the other. -/
theorem inRange_iff {d : Civil} (h : d.Valid) : d.InRange ↔ DayInRange d.epochDay := by
  have hd := year_bounds h
  have hlow : beforeYear (-10000) + 306 - eraShift = firstDay := rfl
  have hhigh : beforeYear 9999 + 306 - eraShift = lastDay + 1 := rfl
  simp only [InRange, DayInRange]
  constructor
  · rintro ⟨hfrom, hto⟩
    have := beforeYear_mono (show -10000 ≤ d.year - 1 by omega)
    have := beforeYear_mono hto
    omega
  · rintro ⟨hfrom, hto⟩
    refine ⟨Decidable.byContradiction fun hyear => ?_, Decidable.byContradiction fun hyear => ?_⟩
    · have := beforeYear_mono (show d.year ≤ -10000 by omega)
      omega
    · have := beforeYear_mono (show 9999 ≤ d.year - 1 by omega)
      omega

theorem inRange_ofEpochDay (n : Int) : (ofEpochDay n).InRange ↔ DayInRange n := by
  rw [inRange_iff (valid_ofEpochDay n), epochDay_ofEpochDay]

end QueryLink.Civil
