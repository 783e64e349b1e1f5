import QueryLink.Proofs.CalendarFacts

/-! # The Gregorian calendar is lawful

Dates, times, offsets and moments have room in their words, and each operation that looks one up
finds it if there is one.

* `Date.ofEpochDay?_eq_some`, `Clock.ofParts?_eq_some`, `Offset.ofSeconds?_eq_some`,
  `Moment.ofUnix?_eq_some`  what is looked up
* `gregorian_lawful`        the laws -/

namespace QueryLink

/-! ## Dates -/

namespace Date

theorem ext_civil {d e : Date} (h : d.toCivil = e.toCivil) : d = e := by
  cases d
  cases e
  cases h
  rfl

theorem dayInRange (d : Date) : Civil.DayInRange d.epochDay :=
  (Civil.inRange_iff d.valid).mp d.inRange

theorem exists_civil_iff {c : Civil} : (∃ d : Date, d.toCivil = c) ↔ c.Valid ∧ c.InRange := by
  constructor
  · rintro ⟨d, rfl⟩
    exact ⟨d.valid, d.inRange⟩
  · rintro ⟨hvalid, hrange⟩
    exact ⟨⟨c, hvalid, hrange⟩, rfl⟩

theorem ofEpochDay?_eq_some {n : Int} {d : Date} : ofEpochDay? n = some d ↔ d.epochDay = n := by
  simp only [ofEpochDay?, Option.dite_none_right_eq_some, Option.some.injEq]
  constructor
  · rintro ⟨-, rfl⟩
    exact Civil.epochDay_ofEpochDay n
  · rintro rfl
    have hd := Civil.ofEpochDay_epochDay d.valid
    exact ⟨by rw [hd]; exact ⟨d.valid, d.inRange⟩, ext_civil hd⟩

theorem toInt_toJulianDay (d : Date) :
    d.toJulianDay.toInt = d.epochDay - Civil.julianStart := by
  obtain ⟨hfrom, hto⟩ := d.dayInRange
  have hstart : Civil.julianStart = -2440588 := rfl
  simp only [Civil.firstDay, Civil.lastDay] at hfrom hto
  exact Int32.toInt_ofInt_of_le (by omega) (by omega)

theorem toJulianDay_zero {d : Date} (h : d.toCivil = ⟨-4713, 11, 24⟩) :
    d.toJulianDay.toInt = 0 := by
  rw [toInt_toJulianDay, h, Civil.julianStart, Int.sub_self]

theorem toJulianDay_next {d e : Date} (h : e.toCivil = d.toCivil.next) :
    e.toJulianDay.toInt = d.toJulianDay.toInt + 1 := by
  rw [toInt_toJulianDay, toInt_toJulianDay, h, Civil.epochDay_next d.valid]
  omega

theorem ofJulianDay?_eq_some {n : Int32} {d : Date} :
    ofJulianDay? n = some d ↔ d.toJulianDay = n := by
  rw [ofJulianDay?, ofEpochDay?_eq_some, ← Int32.toInt_inj, toInt_toJulianDay]
  omega

end Date

/-! ## Times of day -/

namespace Clock

theorem ofParts?_eq_some {hour minute second nanos : Nat} {c : Clock} :
    ofParts? hour minute second nanos = some c ↔
      c.hour = hour ∧ c.minute = minute ∧ c.second = second ∧ c.nanos = nanos := by
  simp only [ofParts?, Option.dite_none_right_eq_some, Option.some.injEq]
  constructor
  · rintro ⟨-, rfl⟩
    exact ⟨rfl, rfl, rfl, rfl⟩
  · rintro ⟨rfl, rfl, rfl, rfl⟩
    exact ⟨⟨c.hour_lt, c.minute_lt, c.second_lt, c.nanos_lt⟩, rfl⟩

theorem toNat_hms (c : Clock) : c.hms.hour.toNat = c.hour ∧ c.hms.minute.toNat = c.minute ∧
    c.hms.second.toNat = c.second ∧ c.hms.nanos.toNat = c.nanos := by
  obtain ⟨hour, minute, second, nanos, hh, hm, hs, hn⟩ := c
  simp only [nanosPerSecond] at hn
  refine ⟨?_, ?_, ?_, ?_⟩
  · exact UInt8.toNat_ofNat_of_lt' (show hour < 256 by omega)
  · exact UInt8.toNat_ofNat_of_lt' (show minute < 256 by omega)
  · exact UInt8.toNat_ofNat_of_lt' (show second < 256 by omega)
  · exact UInt32.toNat_ofNat_of_lt' (show nanos < 2 ^ 32 by omega)

theorem hms_eq_iff {c : Clock} {x : Hms} : c.hms = x ↔ c.hour = x.hour.toNat ∧
    c.minute = x.minute.toNat ∧ c.second = x.second.toNat ∧ c.nanos = x.nanos.toNat := by
  obtain ⟨hh, hm, hs, hn⟩ := c.toNat_hms
  constructor
  · rintro rfl
    exact ⟨hh.symm, hm.symm, hs.symm, hn.symm⟩
  · rintro ⟨hh', hm', hs', hn'⟩
    exact Hms.ext_toNat (hh.trans hh') (hm.trans hm') (hs.trans hs') (hn.trans hn')

theorem ofHms?_eq_some {x : Hms} {c : Clock} : ofHms? x = some c ↔ c.hms = x :=
  ofParts?_eq_some.trans hms_eq_iff.symm

theorem valid_hms (c : Clock) : c.hms.Valid := by
  obtain ⟨hh, hm, hs, hn⟩ := c.toNat_hms
  exact ⟨hh ▸ c.hour_lt, hm ▸ c.minute_lt, hs ▸ c.second_lt, hn ▸ c.nanos_lt⟩

theorem exists_hms_iff {x : Hms} : (∃ c : Clock, c.hms = x) ↔ x.Valid := by
  constructor
  · rintro ⟨c, rfl⟩
    exact c.valid_hms
  · rintro ⟨hh, hm, hs, hn⟩
    exact ⟨⟨_, _, _, _, hh, hm, hs, hn⟩, hms_eq_iff.mpr ⟨rfl, rfl, rfl, rfl⟩⟩

theorem secondOfDay_hms (c : Clock) : c.hms.secondOfDay = c.secondOfDay := by
  obtain ⟨hh, hm, hs, -⟩ := c.toNat_hms
  rw [Hms.secondOfDay, hh, hm, hs, secondOfDay]

theorem secondOfDay_lt (c : Clock) : c.secondOfDay < secondsPerDay :=
  c.secondOfDay_hms ▸ c.valid_hms.secondOfDay_lt

/-- A time of day is told by its seconds: minutes and seconds are remainders. -/
theorem ofSeconds?_eq_some {seconds nanos : Nat} {c : Clock} :
    ofSeconds? seconds nanos = some c ↔ c.secondOfDay = seconds ∧ c.nanos = nanos := by
  have := c.minute_lt
  have := c.second_lt
  simp only [ofSeconds?, ofParts?_eq_some, secondOfDay]
  omega

end Clock

/-! ## Offsets -/

namespace Offset

theorem ofSeconds?_eq_some {seconds : Int} {o : Offset} :
    ofSeconds? seconds = some o ↔ o.seconds = seconds := by
  simp only [ofSeconds?, Option.dite_none_right_eq_some, Option.some.injEq]
  constructor
  · rintro ⟨-, rfl⟩
    rfl
  · rintro rfl
    exact ⟨⟨o.ge_least, o.le_greatest⟩, rfl⟩

theorem toInt_wholeSeconds (o : Offset) : o.wholeSeconds.toInt = o.seconds := by
  have hfrom := o.ge_least
  have hto := o.le_greatest
  simp only [Calendar.greatestOffset] at hfrom hto
  exact Int32.toInt_ofInt_of_le (by omega) (by omega)

theorem ofWholeSeconds?_eq_some {s : Int32} {o : Offset} :
    ofWholeSeconds? s = some o ↔ o.wholeSeconds = s := by
  rw [ofWholeSeconds?, ofSeconds?_eq_some, ← Int32.toInt_inj, toInt_wholeSeconds]

theorem exists_wholeSeconds_iff {s : Int32} : (∃ o : Offset, o.wholeSeconds = s) ↔
    -Calendar.greatestOffset ≤ s.toInt ∧ s.toInt ≤ Calendar.greatestOffset := by
  constructor
  · rintro ⟨o, rfl⟩
    rw [toInt_wholeSeconds]
    exact ⟨o.ge_least, o.le_greatest⟩
  · rintro ⟨hfrom, hto⟩
    exact ⟨⟨s.toInt, hfrom, hto⟩, Int32.ofInt_toInt s⟩

theorem toInt_wholeMinutes (o : Offset) : o.wholeMinutes.toInt = o.wholeSeconds.toInt.tdiv 60 := by
  have hfrom := o.ge_least
  have hto := o.le_greatest
  simp only [Calendar.greatestOffset] at hfrom hto
  have hcut : -1559 ≤ o.seconds.tdiv 60 ∧ o.seconds.tdiv 60 ≤ 1559 := by
    rw [Int.tdiv_eq_ediv, show Int.sign 60 = 1 from rfl]
    split <;> omega
  rw [toInt_wholeSeconds]
  exact Int16.toInt_ofInt_of_le (by omega) (by omega)

end Offset

/-! ## Moments -/

namespace Moment

/-- A moment is told by its offset, its second and its nanosecond: of the local second the day is
the quotient and the time of day the remainder. -/
theorem ofUnix?_eq_some {seconds : Int} {nanos : Nat} {offset : Offset} {m : Moment} :
    ofUnix? seconds nanos offset = some m ↔
      m.offset = offset ∧ m.unixSeconds = seconds ∧ m.clock.nanos = nanos := by
  simp only [ofUnix?, Option.bind_eq_bind, Option.bind_eq_some_iff, Date.ofEpochDay?_eq_some,
    Clock.ofSeconds?_eq_some, Option.pure_def, Option.some.injEq, unixSeconds]
  constructor
  · rintro ⟨d, hd, c, ⟨hc, hn⟩, rfl⟩
    refine ⟨rfl, ?_, hn⟩
    simp only [secondsPerDay] at hd hc ⊢
    omega
  · rintro ⟨rfl, rfl, rfl⟩
    have hs := m.clock.secondOfDay_lt
    refine ⟨m.date, ?_, m.clock, ⟨?_, rfl⟩, rfl⟩
    all_goals
      simp only [secondsPerDay] at hs ⊢
      omega

theorem toInt_unixTimestamp (m : Moment) : m.unixTimestamp.toInt = m.unixSeconds := by
  obtain ⟨hfrom, hto⟩ := m.date.dayInRange
  have ho := m.offset.ge_least
  have ho' := m.offset.le_greatest
  have hs := m.clock.secondOfDay_lt
  simp only [Civil.firstDay, Civil.lastDay, Calendar.greatestOffset, secondsPerDay] at *
  exact Int64.toInt_ofInt_of_le (by simp only [unixSeconds, secondsPerDay]; omega)
    (by simp only [unixSeconds, secondsPerDay]; omega)

theorem toNat_nanosecond (m : Moment) : m.nanosecond.toNat = m.clock.nanos :=
  m.clock.toNat_hms.2.2.2

theorem unixTimestamp_since {m : Moment} {e : Date} (h : e.toCivil = ⟨1970, 1, 1⟩) :
    m.unixTimestamp.toInt = (m.date.toJulianDay.toInt - e.toJulianDay.toInt) * secondsPerDay +
      m.clock.hms.secondOfDay - m.offset.wholeSeconds.toInt := by
  have hday : e.epochDay = 0 := congrArg Civil.epochDay h
  rw [toInt_unixTimestamp, Date.toInt_toJulianDay, Date.toInt_toJulianDay, hday,
    Clock.secondOfDay_hms, Offset.toInt_wholeSeconds, unixSeconds]
  simp only [secondsPerDay]
  omega

theorem ofUnixTimestamp?_eq_some {s : Int64} {m : Moment} : ofUnixTimestamp? s = some m ↔
    m.offset.wholeSeconds.toInt = 0 ∧ m.unixTimestamp = s ∧ m.nanosecond = 0 := by
  have hutc : m.offset = .utc ↔ m.offset.seconds = 0 := by
    obtain ⟨-, -, offset⟩ := m
    exact ⟨fun h => congrArg Offset.seconds h, fun h => by cases offset; cases h; rfl⟩
  rw [ofUnixTimestamp?, ofUnix?_eq_some, hutc, Offset.toInt_wholeSeconds, ← Int64.toInt_inj,
    toInt_unixTimestamp, ← UInt32.toNat_inj, toNat_nanosecond]
  rfl

theorem replaceNanosecond?_eq_some {m m' : Moment} {n : UInt32} :
    m.replaceNanosecond? n = some m' ↔ m'.date = m.date ∧ m'.offset = m.offset ∧
      m'.clock.hms = { m.clock.hms with nanos := n } := by
  obtain ⟨hh, hm, hs, -⟩ := m.clock.toNat_hms
  simp only [replaceNanosecond?, Option.bind_eq_bind, Option.bind_eq_some_iff,
    Clock.ofParts?_eq_some, Option.pure_def, Option.some.injEq, Clock.hms_eq_iff, hh, hm, hs]
  constructor
  · rintro ⟨c, hc, rfl⟩
    exact ⟨rfl, rfl, hc⟩
  · rintro ⟨hd, ho, hc⟩
    exact ⟨m'.clock, hc, by rw [← hd, ← ho]⟩

theorem toOffset?_eq_some {m m' : Moment} {o : Offset} : m.toOffset? o = some m' ↔
    m'.offset = o ∧ m'.unixTimestamp = m.unixTimestamp ∧ m'.nanosecond = m.nanosecond := by
  rw [toOffset?, ofUnix?_eq_some, ← Int64.toInt_inj, toInt_unixTimestamp, toInt_unixTimestamp,
    ← UInt32.toNat_inj, toNat_nanosecond, toNat_nanosecond]

end Moment

/-- The Gregorian calendar does what calendars are known to do. -/
theorem gregorian_lawful : gregorian.Lawful where
  dates _ := Date.exists_civil_iff
  julianDay_zero _ := Date.toJulianDay_zero
  julianDay_next _ _ := Date.toJulianDay_next
  ofJulianDay? _ _ := Date.ofJulianDay?_eq_some
  times _ := Clock.exists_hms_iff
  ofHms? _ _ := Clock.ofHms?_eq_some
  offsets _ := Offset.exists_wholeSeconds_iff
  ofWholeSeconds? _ _ := Offset.ofWholeSeconds?_eq_some
  wholeMinutes := Offset.toInt_wholeMinutes
  moments d t o := ⟨⟨d, t, o⟩, rfl, rfl, rfl⟩
  assumeUtc _ _ := ⟨rfl, rfl, rfl⟩
  unixTimestamp _ _ := Moment.unixTimestamp_since
  nanosecond _ := rfl
  ofUnixTimestamp? _ _ := Moment.ofUnixTimestamp?_eq_some
  replaceNanosecond? _ _ _ := Moment.replaceNanosecond?_eq_some
  toOffset? _ _ _ := Moment.toOffset?_eq_some

end QueryLink
