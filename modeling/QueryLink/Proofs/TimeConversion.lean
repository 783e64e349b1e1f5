import QueryLink.Proofs.TimeWords

/-! # Conversions of dates and times are exact

Dates, times of day, points in time and offsets convert to those of a lawful calendar and back
without loss. A conversion to the calendar succeeds on exactly the values that lie in its range,
what it gives converts back to the value, and what is in the calendar converts to a value and back
again, but for the odd seconds of an offset.

* `DatesExact`, `TimesExact`, `OffsetsExact`, `PointsExact`, `PlainExact`, `ZonedExact`,
  `ZonedTimesExact`   what each conversion keeps
* `conversions_exact`  all of them do, in every lawful calendar -/

namespace QueryLink

namespace Calendar

/-- Offsets of that many minutes are in range, either way. -/
def greatestMinutes : Int := 1559

/-- Whether an offset in minutes is in range. -/
def MinutesInRange (minutes : Int) : Prop :=
  -greatestMinutes ≤ minutes ∧ minutes ≤ greatestMinutes

instance (minutes : Int) : Decidable (MinutesInRange minutes) :=
  inferInstanceAs (Decidable (_ ∧ _))

/-- Dates convert exactly. -/
structure DatesExact (cal : Calendar) : Prop where
  /-- Days are counted from 1970-01-01. -/
  epoch : ∀ d, cal.civil d = ⟨1970, 1, 1⟩ → (cal.dayOfDate d).toInt = 0
  /-- Each date is a day after the one before. -/
  next : ∀ d e, cal.civil e = (cal.civil d).next →
    (cal.dayOfDate e).toInt = (cal.dayOfDate d).toInt + 1
  /-- The days in range begin with the first year. -/
  first : ∀ d, cal.civil d = ⟨-9999, 1, 1⟩ → (cal.dayOfDate d).toInt = Civil.firstDay
  /-- They end with the last year. -/
  last : ∀ d, cal.civil d = ⟨9999, 12, 31⟩ → (cal.dayOfDate d).toInt = Civil.lastDay
  /-- A value has a date if it is a day in range. -/
  range : ∀ day, if Civil.DayInRange day.toInt then ∃ d, cal.dateOfDay day = .ok d
    else cal.dateOfDay day = .error (.overflow .date)
  /-- It is the one whose day is the value. -/
  inverse : ∀ day d, cal.dateOfDay day = .ok d ↔ cal.dayOfDate d = day
  /-- The step to a day has room. -/
  steps : ∀ d, cal.daySteps d = some (cal.dayOfDate d)

/-- Times of day convert exactly. -/
structure TimesExact (cal : Calendar) : Prop where
  /-- Nanoseconds are counted from midnight. -/
  nanos : ∀ t, (cal.nanosOfTime t).toNat = (cal.hms t).nanosOfDay
  /-- A value has a time of day if the day is not over by then. -/
  range : ∀ nanos, if nanos.toNat < Hms.nanosPerDay then ∃ t, cal.timeOfNanos nanos = .ok t
    else cal.timeOfNanos nanos = .error (.overflow .timeOfDay)
  /-- It is the one whose nanoseconds are the value. -/
  inverse : ∀ nanos t, cal.timeOfNanos nanos = .ok t ↔ cal.nanosOfTime t = nanos
  /-- The steps to nanoseconds have room. -/
  nanosSteps : ∀ t, cal.nanosSteps t = some (cal.nanosOfTime t)
  /-- So do the steps to a time. -/
  timeSteps : ∀ nanos, cal.timeSteps nanos = some (cal.timeOfNanos nanos)

/-- Offsets convert exactly, but for odd seconds. -/
structure OffsetsExact (cal : Calendar) : Prop where
  /-- An offset is cut to whole minutes, toward zero. -/
  minutes : ∀ o, (cal.minutesOfOffset o).toInt = (cal.ahead o).tdiv 60
  /-- A value has an offset if its minutes are in range. -/
  range : ∀ minutes, if MinutesInRange minutes.toInt then ∃ o, cal.offsetOfMinutes minutes = .ok o
    else cal.offsetOfMinutes minutes = .error (.overflow .zoneOffset)
  /-- It is the one of as many seconds. -/
  inverse : ∀ minutes o, cal.offsetOfMinutes minutes = .ok o ↔
    cal.ahead o = minutes.toInt * 60
  /-- It gives the value back. -/
  back : ∀ minutes o, cal.offsetOfMinutes minutes = .ok o → cal.minutesOfOffset o = minutes

/-- Points in time convert exactly. -/
structure PointsExact (cal : Calendar) : Prop where
  /-- The value of a moment is at its instant, its seconds rounded down. -/
  point : ∀ m, (cal.pointOfMoment m).seconds.toInt = cal.instant m / nanosPerSecond ∧
    ((cal.pointOfMoment m).nanos.toNat : Int) = cal.instant m % nanosPerSecond
  /-- A value has a moment in UTC if its date is in range and its nanoseconds are of a second. -/
  range : ∀ p : TimePoint,
    if Civil.DayInRange (p.seconds.toInt / secondsPerDay) ∧ p.nanos.toNat < nanosPerSecond then
      ∃ m, cal.momentOfPoint p = .ok m
    else cal.momentOfPoint p = .error (.overflow .timePoint)
  /-- It is the one in UTC whose value it is. -/
  inverse : ∀ p m, cal.momentOfPoint p = .ok m ↔
    cal.ahead (cal.offset m) = 0 ∧ cal.pointOfMoment m = p
  /-- It is at the instant of the value. -/
  instant : ∀ p m, cal.momentOfPoint p = .ok m →
    cal.instant m = p.seconds.toInt * nanosPerSecond + p.nanos.toNat
  /-- A moment whose date in UTC is in range gives a value that has a moment at that instant. -/
  forth : ∀ m, Civil.DayInRange (cal.utcDay m) →
    ∃ u, cal.momentOfPoint (cal.pointOfMoment m) = .ok u ∧ cal.instant u = cal.instant m

/-- Points in time convert exactly to dates and times in UTC. -/
structure PlainExact (cal : Calendar) : Prop where
  /-- A value has a date and a time if it has a moment in UTC. -/
  range : ∀ p : TimePoint,
    if Civil.DayInRange (p.seconds.toInt / secondsPerDay) ∧ p.nanos.toNat < nanosPerSecond then
      ∃ d t, cal.plainOfPoint p = .ok (d, t)
    else cal.plainOfPoint p = .error (.overflow .timePoint)
  /-- They are those whose value it is. -/
  inverse : ∀ p d t, cal.plainOfPoint p = .ok (d, t) ↔ cal.pointOfPlain d t = p

/-- Points in time with an offset convert exactly, but for the odd seconds of an offset. -/
structure ZonedExact (cal : Calendar) : Prop where
  /-- A value has a moment if its offset, its nanoseconds and its dates are in range. -/
  range : ∀ z : ZonedTimePoint,
    if ¬ MinutesInRange z.offset.toInt then cal.momentOfZoned z = .error (.overflow .zoneOffset)
    else if z.point.nanos.toNat < nanosPerSecond ∧
        Civil.DayInRange (z.point.seconds.toInt / secondsPerDay) ∧
        Civil.DayInRange ((z.point.seconds.toInt + z.offset.toInt * 60) / secondsPerDay) then
      ∃ m, cal.momentOfZoned z = .ok m
    else cal.momentOfZoned z = .error (.overflow .timePoint)
  /-- It is at the instant and the offset of the value, and gives the value back. -/
  back : ∀ z m, cal.momentOfZoned z = .ok m → cal.zonedOfMoment m = z ∧
    cal.instant m = z.point.seconds.toInt * nanosPerSecond + z.point.nanos.toNat ∧
    cal.ahead (cal.offset m) = z.offset.toInt * 60
  /-- The value of a moment is its point in time and its offset cut to minutes, toward zero. -/
  value : ∀ m, (cal.zonedOfMoment m).point = cal.pointOfMoment m ∧
    (cal.zonedOfMoment m).offset.toInt = (cal.ahead (cal.offset m)).tdiv 60
  /-- A moment whose date in UTC is in range gives a value that has a moment at that instant, and
  has that moment if its offset is one of minutes. -/
  forth : ∀ m, Civil.DayInRange (cal.utcDay m) →
    ∃ n, cal.momentOfZoned (cal.zonedOfMoment m) = .ok n ∧ cal.instant n = cal.instant m ∧
      cal.ahead (cal.offset n) = (cal.ahead (cal.offset m)).tdiv 60 * 60 ∧
      (60 ∣ cal.ahead (cal.offset m) → n = m)

/-- Times of day with an offset convert exactly, but for the odd seconds of an offset. -/
structure ZonedTimesExact (cal : Calendar) : Prop where
  /-- A value has a time of day and an offset if both are in range. -/
  range : ∀ z : ZonedTimeOfDay,
    if ¬ z.nanos.toNat < Hms.nanosPerDay then cal.timeOfZoned z = .error (.overflow .timeOfDay)
    else if MinutesInRange z.offset.toInt then ∃ t o, cal.timeOfZoned z = .ok (t, o)
    else cal.timeOfZoned z = .error (.overflow .zoneOffset)
  /-- They give the value back. -/
  back : ∀ z t o, cal.timeOfZoned z = .ok (t, o) → cal.zonedOfTime t o = z
  /-- A time of day comes back from its value, and so do the minutes of the offset. -/
  forth : ∀ t o, ∃ o', cal.timeOfZoned (cal.zonedOfTime t o) = .ok (t, o') ∧
    cal.ahead o' = (cal.ahead o).tdiv 60 * 60 ∧ (60 ∣ cal.ahead o → o' = o)

/-! ## Offsets in minutes -/

/-- Cut to whole minutes an offset is nearer to zero, on the same side. -/
theorem cut_between (offset : Int) :
    (0 ≤ offset.tdiv 60 * 60 ∧ offset.tdiv 60 * 60 ≤ offset) ∨
      (offset ≤ offset.tdiv 60 * 60 ∧ offset.tdiv 60 * 60 ≤ 0) := by
  rw [Int.tdiv_eq_ediv, show Int.sign 60 = 1 from rfl]
  split <;> omega

namespace Lawful

variable {cal : Calendar}

theorem minutesInRange_cut (h : cal.Lawful) (o : cal.Offset) :
    MinutesInRange ((cal.ahead o).tdiv 60) := by
  have hcut := cut_between (cal.ahead o)
  have ho := h.ahead_bounds o
  simp only [greatestOffset] at ho
  simp only [MinutesInRange, greatestMinutes]
  omega

theorem exists_offsetOfMinutes_iff (h : cal.Lawful) {minutes : Int32} :
    (∃ o, cal.offsetOfMinutes minutes = .ok o) ↔ MinutesInRange minutes.toInt := by
  simp only [h.offsetOfMinutes_eq_ok]
  constructor
  · rintro ⟨o, ho⟩
    have hbounds := h.ahead_bounds o
    simp only [greatestOffset] at hbounds
    simp only [MinutesInRange, greatestMinutes]
    omega
  · intro hm
    simp only [MinutesInRange, greatestMinutes] at hm
    exact h.exists_offset (by simp only [greatestOffset]; omega)

theorem minutesOfOffset_of_ok (h : cal.Lawful) {minutes : Int32} {o : cal.Offset}
    (ho : cal.offsetOfMinutes minutes = .ok o) : cal.minutesOfOffset o = minutes := by
  rw [h.offsetOfMinutes_eq_ok] at ho
  rw [← Int32.toInt_inj, h.toInt_minutesOfOffset, ho]
  exact Int.mul_tdiv_cancel _ (by decide)

/-- With its offset cut toward zero a moment falls on its local day, on its day in UTC or on one
between. -/
theorem dayInRange_cut (h : cal.Lawful) {m : cal.Moment}
    (hutc : Civil.DayInRange (cal.utcDay m)) : Civil.DayInRange
      ((cal.unixSecond m + (cal.ahead (cal.offset m)).tdiv 60 * 60) / secondsPerDay) := by
  have hlocal := h.dayInRange (cal.date m)
  rw [h.localDay_eq] at hlocal
  rw [h.utcDay_eq] at hutc
  have hcut := cut_between (cal.ahead (cal.offset m))
  -- Days follow seconds, so what holds at both ends holds between them.
  generalize (cal.ahead (cal.offset m)).tdiv 60 * 60 = cut at hcut ⊢
  simp only [Civil.DayInRange, Civil.firstDay, Civil.lastDay, secondsPerDay] at *
  omega

/-! ## Exactness -/

theorem datesExact (h : cal.Lawful) : cal.DatesExact where
  epoch d hd := by
    rw [h.toInt_dayOfDate, civilDay, hd]
    rfl
  next d e hnext := by
    rw [h.toInt_dayOfDate, h.toInt_dayOfDate, civilDay, hnext, Civil.epochDay_next (h.valid d),
      civilDay]
  first d hd := by
    rw [h.toInt_dayOfDate, civilDay, hd]
    rfl
  last d hd := by
    rw [h.toInt_dayOfDate, civilDay, hd]
    rfl
  range _ := orOverflow_range h.exists_dateOfDay_iff
  inverse day d := by
    rw [h.dateOfDay_eq_ok, ← Int64.toInt_inj, h.toInt_dayOfDate]
  steps := daySteps_eq

theorem timesExact (h : cal.Lawful) : cal.TimesExact where
  nanos := h.toNat_nanosOfTime
  range _ := orOverflow_range h.exists_timeOfNanos_iff
  inverse nanos t := by
    rw [h.timeOfNanos_eq_ok, ← UInt64.toNat_inj, h.toNat_nanosOfTime]
  nanosSteps := h.nanosSteps_eq
  timeSteps := timeSteps_eq

theorem offsetsExact (h : cal.Lawful) : cal.OffsetsExact where
  minutes := h.toInt_minutesOfOffset
  range _ := orOverflow_range h.exists_offsetOfMinutes_iff
  inverse _ _ := h.offsetOfMinutes_eq_ok
  back _ _ := h.minutesOfOffset_of_ok

/-- A moment is at the instant of its point in time. -/
theorem instant_of_point (h : cal.Lawful) {m : cal.Moment} {p : TimePoint}
    (hp : cal.pointOfMoment m = p) :
    cal.instant m = p.seconds.toInt * nanosPerSecond + p.nanos.toNat := by
  obtain ⟨hs, hn⟩ := h.pointOfMoment_eq_iff.mp hp
  rw [h.instant_eq, hs, hn]

/-- Moments of one point in time are at one instant. -/
theorem instant_congr (h : cal.Lawful) {m n : cal.Moment}
    (hp : cal.pointOfMoment m = cal.pointOfMoment n) : cal.instant m = cal.instant n := by
  rw [h.instant_of_point hp, h.instant_of_point rfl]

theorem pointsExact (h : cal.Lawful) : cal.PointsExact where
  point m := by
    obtain ⟨hs, hn⟩ := h.pointOfMoment_eq_iff.mp (rfl : cal.pointOfMoment m = _)
    rw [← hs, ← hn]
    exact ⟨h.unixSecond_eq_div m, h.nanosecond_eq_mod m⟩
  range _ := orOverflow_range h.exists_momentOfPoint_iff
  inverse _ _ := h.momentOfPoint_eq_ok
  instant _ _ hm := h.instant_of_point (h.momentOfPoint_eq_ok.mp hm).2
  forth m hday := by
    obtain ⟨hs, hn⟩ := h.pointOfMoment_eq_iff.mp (rfl : cal.pointOfMoment m = _)
    have hlt := h.nanosecond_lt m
    rw [h.utcDay_eq, hs] at hday
    rw [hn] at hlt
    obtain ⟨u, hu⟩ := h.exists_momentOfPoint_iff.mpr ⟨hday, hlt⟩
    exact ⟨u, hu, h.instant_congr (h.momentOfPoint_eq_ok.mp hu).2⟩

theorem plainExact (h : cal.Lawful) : cal.PlainExact where
  range p := by
    have hrange := h.pointsExact.range p
    split at hrange
    · next hp =>
      obtain ⟨m, hm⟩ := hrange
      rw [if_pos hp]
      exact ⟨cal.date m, cal.time m, by rw [plainOfPoint, hm]; rfl⟩
    · next hp =>
      rw [if_neg hp, plainOfPoint, hrange]
      rfl
  inverse _ _ _ := h.plainOfPoint_eq_ok

theorem exists_momentOfZoned_iff (h : cal.Lawful) {z : ZonedTimePoint}
    (hminutes : MinutesInRange z.offset.toInt) : (∃ m, cal.momentOfZoned z = .ok m) ↔
      z.point.nanos.toNat < nanosPerSecond ∧
        Civil.DayInRange (z.point.seconds.toInt / secondsPerDay) ∧
        Civil.DayInRange ((z.point.seconds.toInt + z.offset.toInt * 60) / secondsPerDay) := by
  simp only [h.momentOfZoned_eq_ok, h.pointOfMoment_eq_iff, h.utcDay_eq]
  constructor
  · rintro ⟨m, ho, ⟨hs, hn⟩, hutc⟩
    have hlocal := h.dayInRange (cal.date m)
    rw [h.localDay_eq, hs, ho] at hlocal
    rw [hs] at hutc
    exact ⟨hn ▸ h.nanosecond_lt m, hutc, hlocal⟩
  · rintro ⟨hn, hutc, hlocal⟩
    obtain ⟨o, ho⟩ := h.exists_offsetOfMinutes_iff.mpr hminutes
    rw [h.offsetOfMinutes_eq_ok] at ho
    obtain ⟨m, rfl, hs, hm⟩ := h.exists_moment o (by rwa [ho]) hn
    exact ⟨m, ho, ⟨hs, hm⟩, hs ▸ hutc⟩

/-- With its offset in range a value without a moment has its point in time out of range. -/
theorem momentOfZoned_eq_error {z : ZonedTimePoint} {o : cal.Offset}
    (ho : cal.offsetOfMinutes z.offset = .ok o) (hnone : ¬ ∃ m, cal.momentOfZoned z = .ok m) :
    cal.momentOfZoned z = .error (.overflow .timePoint) := by
  by_cases hpoint : ∃ utc, cal.momentOfPoint z.point = .ok utc
  · obtain ⟨utc, hutc⟩ := hpoint
    have hzoned : cal.momentOfZoned z = orOverflow .timePoint (cal.toOffset? utc o) := by
      rw [momentOfZoned, ho, ok_bind, hutc, ok_bind]
    rw [hzoned] at hnone ⊢
    exact orOverflow_eq_error hnone
  · have herror : cal.momentOfPoint z.point = .error (.overflow .timePoint) :=
      orOverflow_eq_error hpoint
    rw [momentOfZoned, ho, ok_bind, herror]
    rfl

theorem zonedExact (h : cal.Lawful) : cal.ZonedExact where
  range z := by
    have hoffset := h.offsetsExact.range z.offset
    split at hoffset
    · next hm =>
      obtain ⟨o, ho⟩ := hoffset
      have hexists := h.exists_momentOfZoned_iff hm
      rw [if_neg (not_not.mpr hm)]
      split
      · next hrange => exact hexists.mpr hrange
      · next hrange => exact momentOfZoned_eq_error ho (mt hexists.mp hrange)
    · next hm =>
      rw [if_pos hm, momentOfZoned, hoffset]
      rfl
  back z m hm := by
    obtain ⟨ho, hp, -⟩ := h.momentOfZoned_eq_ok.mp hm
    refine ⟨?_, h.instant_of_point hp, ho⟩
    rw [zonedOfMoment, hp, h.minutesOfOffset_of_ok (h.offsetOfMinutes_eq_ok.mpr ho)]
  value m := ⟨rfl, h.toInt_minutesOfOffset _⟩
  forth m hday := by
    obtain ⟨hs, hn⟩ := h.pointOfMoment_eq_iff.mp (rfl : cal.pointOfMoment m = _)
    have hcut := h.toInt_minutesOfOffset (cal.offset m)
    have hutc := h.utcDay_eq m ▸ hday
    have hlocal := h.dayInRange_cut hday
    -- All three ranges that a value is checked for are kept.
    obtain ⟨n, hz⟩ := (h.exists_momentOfZoned_iff (z := cal.zonedOfMoment m)
      (by rw [zonedOfMoment, hcut]; exact h.minutesInRange_cut _)).mpr
      ⟨by rw [zonedOfMoment, ← hn]; exact h.nanosecond_lt m, by rwa [zonedOfMoment, ← hs],
        by rwa [zonedOfMoment, ← hs, hcut]⟩
    obtain ⟨ho, hp, -⟩ := h.momentOfZoned_eq_ok.mp hz
    rw [zonedOfMoment, hcut] at ho
    refine ⟨n, hz, h.instant_congr hp, ho, fun hdvd => ?_⟩
    rw [Int.tdiv_mul_cancel hdvd] at ho
    obtain ⟨hs', hn'⟩ := h.pointOfMoment_eq_iff.mp hp
    exact h.moment_ext (h.offset_ext ho) (hs'.trans hs.symm) (hn'.trans hn.symm)

theorem timeOfZoned_eq_ok {z : ZonedTimeOfDay} {t : cal.Time} {o : cal.Offset} :
    cal.timeOfZoned z = .ok (t, o) ↔
      cal.timeOfNanos z.nanos = .ok t ∧ cal.offsetOfMinutes z.offset = .ok o := by
  simp only [timeOfZoned, bind_eq_ok, pure, Except.pure, Except.ok.injEq, Prod.mk.injEq]
  constructor
  · rintro ⟨_, ht, _, ho, rfl, rfl⟩
    exact ⟨ht, ho⟩
  · rintro ⟨ht, ho⟩
    exact ⟨t, ht, o, ho, rfl, rfl⟩

theorem zonedTimesExact (h : cal.Lawful) : cal.ZonedTimesExact where
  range z := by
    have htime := h.timesExact.range z.nanos
    have hoffset := h.offsetsExact.range z.offset
    split at htime
    · next hn =>
      obtain ⟨t, ht⟩ := htime
      rw [if_neg (not_not.mpr hn)]
      split at hoffset
      · next hm =>
        obtain ⟨o, ho⟩ := hoffset
        rw [if_pos hm]
        exact ⟨t, o, timeOfZoned_eq_ok.mpr ⟨ht, ho⟩⟩
      · next hm =>
        rw [if_neg hm, timeOfZoned, ht, ok_bind, hoffset]
        rfl
    · next hn =>
      rw [if_pos hn, timeOfZoned, htime]
      rfl
  back z t o hz := by
    obtain ⟨ht, ho⟩ := timeOfZoned_eq_ok.mp hz
    rw [zonedOfTime, (h.timesExact.inverse _ _).mp ht, h.minutesOfOffset_of_ok ho]
  forth t o := by
    have hcut := h.toInt_minutesOfOffset o
    obtain ⟨o', ho'⟩ := h.exists_offsetOfMinutes_iff.mpr (hcut ▸ h.minutesInRange_cut o)
    refine ⟨o', timeOfZoned_eq_ok.mpr ⟨(h.timesExact.inverse _ _).mpr rfl, ho'⟩, ?_⟩
    rw [h.offsetOfMinutes_eq_ok, hcut] at ho'
    refine ⟨ho', fun hdvd => h.offset_ext ?_⟩
    rw [ho', Int.tdiv_mul_cancel hdvd]

end Lawful

end Calendar

/-- Conversions of dates and times lose nothing but the odd seconds of an offset. They fail on the
values out of range and on no others, and no step of theirs overflows. -/
theorem conversions_exact (cal : Calendar) (h : cal.Lawful) : cal.DatesExact ∧ cal.TimesExact ∧
    cal.OffsetsExact ∧ cal.PointsExact ∧ cal.PlainExact ∧ cal.ZonedExact ∧ cal.ZonedTimesExact :=
  ⟨h.datesExact, h.timesExact, h.offsetsExact, h.pointsExact, h.plainExact, h.zonedExact,
    h.zonedTimesExact⟩

/-- Those of the Gregorian calendar are exact, and day 10957 is the first of the year 2000. -/
theorem conversions_exact_gregorian : gregorian.Lawful ∧
    (gregorian.DatesExact ∧ gregorian.TimesExact ∧ gregorian.OffsetsExact ∧
      gregorian.PointsExact ∧ gregorian.PlainExact ∧ gregorian.ZonedExact ∧
      gregorian.ZonedTimesExact) ∧
    ∃ d : Date, Date.ofValue 10957 = .ok d ∧ d.toCivil = ⟨2000, 1, 1⟩ ∧ d.toDay = 10957 := by
  have hexact := conversions_exact gregorian gregorian_lawful
  have hday : Date.toDay ⟨⟨2000, 1, 1⟩, by decide, by decide⟩ = 10957 := by decide
  exact ⟨gregorian_lawful, hexact, _, (hexact.1.inverse _ _).mpr hday, rfl, hday⟩

/-- Near the end of the range the local date can be a day after the last. -/
example : (ZonedTimePoint.mk ⟨253402300799, 0⟩ 1).toMoment = .error (.overflow .timePoint) ∧
    (ZonedTimePoint.mk ⟨253402300799, 0⟩ 0).toMoment.map Moment.unixSeconds =
      .ok 253402300799 := by
  decide

end QueryLink
