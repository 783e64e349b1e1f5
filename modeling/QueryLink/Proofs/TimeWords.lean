import QueryLink.Proofs.GregorianLaws
import QueryLink.Value.Time

/-! # Conversions of dates and times in machine words

What each conversion gives, in numbers. The operations on words that are checked give the number
that they stand for, or nothing if it has no room. Where a conversion counts on room it is also
written step by step with each of them checked: a step without room gives `none`. They never do.

* `checkedAdd_eq_some` to `byte?_eq_some`   the words that are checked
* `daySteps`, `nanosSteps`, `timeSteps`     the steps that are not
* `Lawful.dateOfDay_eq_ok` to `Lawful.momentOfZoned_eq_ok`
                                            what a conversion to the calendar gives -/

namespace QueryLink

/-! ## Words that are checked -/

theorem checkedAdd_eq_some {a b c : Int64} :
    checkedAdd a b = some c ↔ c.toInt = a.toInt + b.toInt := by
  have hlow := c.le_toInt
  have hhigh := c.toInt_lt
  by_cases h : a.toBitVec.saddOverflow b.toBitVec = true
  · rw [checkedAdd, if_pos h]
    simp only [BitVec.saddOverflow, Bool.or_eq_true, decide_eq_true_eq, Int64.toInt_toBitVec] at h
    simp only [reduceCtorEq, false_iff]
    omega
  · have hsum : (a + b).toInt = a.toInt + b.toInt := BitVec.toInt_add_of_not_saddOverflow h
    rw [checkedAdd, if_neg h, Option.some.injEq, ← Int64.toInt_inj, hsum, eq_comm]

theorem checkedMul_eq_some {a b c : Int32} :
    checkedMul a b = some c ↔ c.toInt = a.toInt * b.toInt := by
  have hlow := c.le_toInt
  have hhigh := c.toInt_lt
  by_cases h : a.toBitVec.smulOverflow b.toBitVec = true
  · rw [checkedMul, if_pos h]
    simp only [BitVec.smulOverflow, Bool.or_eq_true, decide_eq_true_eq, Int32.toInt_toBitVec] at h
    simp only [reduceCtorEq, false_iff]
    omega
  · have hproduct : (a * b).toInt = a.toInt * b.toInt := BitVec.toInt_mul_of_not_smulOverflow h
    rw [checkedMul, if_neg h, Option.some.injEq, ← Int32.toInt_inj, hproduct, eq_comm]

theorem narrow?_eq_some {n : Int64} {m : Int32} : narrow? n = some m ↔ m.toInt = n.toInt := by
  have hlow := m.le_toInt
  have hhigh := m.toInt_lt
  have hroom : (Int32.minValue.toInt64 ≤ n ∧ n ≤ Int32.maxValue.toInt64) ↔
      (-2 ^ 31 ≤ n.toInt ∧ n.toInt < 2 ^ 31) := by
    rw [Int64.le_iff_toInt_le, Int64.le_iff_toInt_le]
    exact and_congr Iff.rfl Int.lt_add_one_iff.symm
  simp only [narrow?, hroom, Option.ite_none_right_eq_some, Option.some.injEq, ← Int32.toInt_inj,
    Int64.toInt_toInt32]
  constructor
  · rintro ⟨⟨hfrom, hto⟩, hm⟩
    rw [← hm, Int.bmod_eq_of_le (by omega) (by omega)]
  · intro hm
    rw [← hm]
    exact ⟨⟨hlow, hhigh⟩, Int.bmod_eq_of_le (by omega) (by omega)⟩

theorem byte?_eq_some {n : UInt64} {b : UInt8} : byte? n = some b ↔ b.toNat = n.toNat := by
  have hb := b.toNat_lt
  have hroom : n < 256 ↔ n.toNat < 256 := UInt64.lt_iff_toNat_lt
  simp only [byte?, hroom, Option.ite_none_right_eq_some, Option.some.injEq,
    ← UInt8.toNat_inj, UInt64.toNat_toUInt8]
  omega

theorem orOverflow_eq_ok {α : Type} {what : Quantity} {o : Option α} {a : α} :
    orOverflow what o = .ok a ↔ o = some a := by
  cases o <;> simp [orOverflow]

theorem orOverflow_eq_error {α : Type} {what : Quantity} {o : Option α}
    (h : ¬ ∃ a, orOverflow what o = .ok a) : orOverflow what o = .error (.overflow what) := by
  cases o with
  | none => rfl
  | some a => exact absurd ⟨a, rfl⟩ h

/-- What is there in range is out of range elsewhere. -/
theorem orOverflow_range {α : Type} {what : Quantity} {o : Option α} {p : Prop} [Decidable p]
    (h : (∃ a, orOverflow what o = .ok a) ↔ p) :
    if p then ∃ a, orOverflow what o = .ok a else orOverflow what o = .error (.overflow what) := by
  split
  · next hp => exact h.mpr hp
  · next hp => exact orOverflow_eq_error (mt h.mp hp)

theorem ok_bind {ε α β : Type} (a : α) (f : α → Except ε β) : (Except.ok a >>= f) = f a := rfl

theorem bind_eq_ok {ε α β : Type} {x : Except ε α} {f : α → Except ε β} {b : β} :
    (x >>= f) = .ok b ↔ ∃ a, x = .ok a ∧ f a = .ok b := by
  cases x <;> simp [bind, Except.bind]

/-! ## Words that are not -/

/-- The difference, if it has room in the word. -/
def differenceRoom? (a b : Int64) : Option Int64 :=
  if a.toBitVec.ssubOverflow b.toBitVec then none else some (a - b)

/-- The sum, if it has room in the word. -/
def sumRoom? (a b : UInt64) : Option UInt64 :=
  if a.toBitVec.uaddOverflow b.toBitVec then none else some (a + b)

/-- The product, if it has room in the word. -/
def productRoom? (a b : UInt64) : Option UInt64 :=
  if a.toBitVec.umulOverflow b.toBitVec then none else some (a * b)

/-- The number in a word of 32 bits, if it has room there. -/
def word32? (n : UInt64) : Option UInt32 :=
  if n < 4294967296 then some n.toUInt32 else none

theorem differenceRoom?_eq {a b : Int64}
    (h : -2 ^ 63 ≤ a.toInt - b.toInt ∧ a.toInt - b.toInt < 2 ^ 63) :
    differenceRoom? a b = some (a - b) := by
  simp only [differenceRoom?, BitVec.ssubOverflow, Int64.toInt_toBitVec]
  rw [if_neg]
  simp
  omega

theorem sumRoom?_eq {a b : UInt64} (h : a.toNat + b.toNat < 2 ^ 64) :
    sumRoom? a b = some (a + b) := by
  rw [sumRoom?, if_neg]
  simpa [BitVec.uaddOverflow] using h

theorem sumRoom?_bind {a b : UInt64} {f : UInt64 → Option UInt64}
    (h : a.toNat + b.toNat < 2 ^ 64) : (sumRoom? a b >>= f) = f (a + b) := by
  rw [sumRoom?_eq h]
  rfl

theorem productRoom?_bind {a b : UInt64} {f : UInt64 → Option UInt64}
    (h : a.toNat * b.toNat < 2 ^ 64) : (productRoom? a b >>= f) = f (a * b) := by
  rw [productRoom?, if_neg (by simpa [BitVec.umulOverflow] using h)]
  rfl

theorem word32?_eq {n : UInt64} (h : n.toNat < 2 ^ 32) : word32? n = some n.toUInt32 :=
  if_pos (UInt64.lt_iff_toNat_lt.mpr h)

theorem byte?_eq {n : UInt64} (h : n.toNat < 256) : byte? n = some n.toUInt8 :=
  if_pos (UInt64.lt_iff_toNat_lt.mpr h)

namespace Calendar

variable {cal : Calendar}

/-- `dayOfDate` by its steps. -/
def daySteps (cal : Calendar) (d : cal.Date) : Option Int64 :=
  differenceRoom? (cal.toJulianDay d).toInt64 epochJulianDay

/-- `nanosOfTime` by its steps. -/
def nanosSteps (cal : Calendar) (t : cal.Time) : Option UInt64 := do
  let x := cal.hms t
  let hours ← productRoom? x.hour.toUInt64 3600
  let minutes ← productRoom? x.minute.toUInt64 60
  let seconds ← sumRoom? hours minutes
  let seconds ← sumRoom? seconds x.second.toUInt64
  let nanos ← productRoom? seconds secondNanos
  sumRoom? nanos x.nanos.toUInt64

/-- `timeOfNanos` by its steps. Hours without room mean that the day is over. -/
def timeSteps (cal : Calendar) (nanos : UInt64) : Option (Except ValueError cal.Time) := do
  let seconds := nanos / secondNanos
  let nano ← word32? (nanos % secondNanos)
  let minute ← byte? (seconds / 60 % 60)
  let second ← byte? (seconds % 60)
  return orOverflow .timeOfDay do
    let hour ← byte? (seconds / 3600)
    cal.ofHms? ⟨hour, minute, second, nano⟩

/-- The parts of a number of nanoseconds. -/
theorem toNat_parts (nanos : UInt64) :
    (nanos % secondNanos).toNat = nanos.toNat % nanosPerSecond ∧
      (nanos / secondNanos / 60 % 60).toNat = nanos.toNat / nanosPerSecond / 60 % 60 ∧
      (nanos / secondNanos % 60).toNat = nanos.toNat / nanosPerSecond % 60 ∧
      (nanos / secondNanos / 3600).toNat = nanos.toNat / nanosPerSecond / 3600 := by
  simp only [UInt64.toNat_mod, UInt64.toNat_div]
  exact ⟨rfl, rfl, rfl, rfl⟩

theorem timeSteps_eq (nanos : UInt64) : cal.timeSteps nanos = some (cal.timeOfNanos nanos) := by
  obtain ⟨hnano, hminute, hsecond, -⟩ := toNat_parts nanos
  simp only [nanosPerSecond] at hnano
  rw [timeSteps, word32?_eq (by omega), byte?_eq (by omega), byte?_eq (by omega)]
  rfl

namespace Lawful

/-! ## Dates -/

theorem toInt_dayOfDate (h : cal.Lawful) (d : cal.Date) :
    (cal.dayOfDate d).toInt = cal.civilDay d := by
  obtain ⟨hfrom, hto⟩ := h.dayInRange d
  have hjulian := h.toJulianDay_eq d
  have hstart : Civil.julianStart = -epochJulianDay.toInt := rfl
  simp only [Civil.firstDay, Civil.lastDay] at hfrom hto
  rw [dayOfDate, Int64.toInt_sub, Int32.toInt_toInt64, hjulian, hstart,
    Int.sub_neg, Int.add_sub_cancel, Int.bmod_eq_of_le (by omega) (by omega)]

theorem daySteps_eq (d : cal.Date) : cal.daySteps d = some (cal.dayOfDate d) := by
  have hlow := (cal.toJulianDay d).le_toInt
  have hhigh := (cal.toJulianDay d).toInt_lt
  have hepoch : epochJulianDay.toInt = 2440588 := rfl
  exact differenceRoom?_eq (by rw [Int32.toInt_toInt64]; omega)

theorem dateOfDay_eq_ok (h : cal.Lawful) {day : Int64} {d : cal.Date} :
    cal.dateOfDay day = .ok d ↔ cal.civilDay d = day.toInt := by
  have hjulian := h.toJulianDay_eq d
  have hstart : Civil.julianStart = -epochJulianDay.toInt := rfl
  simp only [dateOfDay, orOverflow_eq_ok, Option.bind_eq_bind, Option.bind_eq_some_iff,
    checkedAdd_eq_some, narrow?_eq_some, h.ofJulianDay?]
  constructor
  · rintro ⟨julian, hsum, _, hsame, rfl⟩
    omega
  · intro hday
    exact ⟨(cal.toJulianDay d).toInt64, by rw [Int32.toInt_toInt64]; omega, _,
      (Int32.toInt_toInt64 _).symm, rfl⟩

theorem exists_dateOfDay_iff (h : cal.Lawful) {day : Int64} :
    (∃ d, cal.dateOfDay day = .ok d) ↔ Civil.DayInRange day.toInt := by
  simp only [h.dateOfDay_eq_ok]
  exact ⟨fun ⟨d, hd⟩ => hd ▸ h.dayInRange d, h.exists_date⟩

/-! ## Times of day -/

theorem toNat_nanosOfTime (h : cal.Lawful) (t : cal.Time) :
    (cal.nanosOfTime t).toNat = (cal.hms t).nanosOfDay := by
  obtain ⟨hh, hm, hs, hn⟩ := h.validTime t
  simp only [nanosPerSecond] at hn
  simp only [nanosOfTime, secondNanos, UInt64.toNat_add, UInt64.toNat_mul, UInt8.toNat_toUInt64,
    UInt32.toNat_toUInt64, UInt64.toNat_ofNat, Hms.nanosOfDay, Hms.secondOfDay, nanosPerSecond]
  omega

theorem nanosSteps_eq (h : cal.Lawful) (t : cal.Time) :
    cal.nanosSteps t = some (cal.nanosOfTime t) := by
  obtain ⟨hh, hm, hs, hn⟩ := h.validTime t
  simp only [nanosPerSecond] at hn
  rw [nanosSteps, productRoom?_bind, productRoom?_bind, sumRoom?_bind, sumRoom?_bind,
    productRoom?_bind, sumRoom?_eq, nanosOfTime]
  all_goals
    simp (disch := omega) only [secondNanos, UInt64.toNat_add, UInt64.toNat_mul,
      UInt8.toNat_toUInt64, UInt32.toNat_toUInt64, UInt64.toNat_ofNat, Nat.mod_eq_of_lt]
    omega

/-- Minutes, seconds and nanoseconds are remainders. Hours are not, and those without room in a byte
are not of the day. -/
theorem timeOfNanos_eq_ok (h : cal.Lawful) {nanos : UInt64} {t : cal.Time} :
    cal.timeOfNanos nanos = .ok t ↔ (cal.hms t).nanosOfDay = nanos.toNat := by
  obtain ⟨hh, hm, hs, hn⟩ := h.validTime t
  obtain ⟨hnano, hminute, hsecond, hhour⟩ := toNat_parts nanos
  simp only [nanosPerSecond] at hn hnano hminute hsecond hhour
  simp only [timeOfNanos, orOverflow_eq_ok, Option.bind_eq_bind, Option.bind_eq_some_iff,
    byte?_eq_some, h.ofHms?, hhour]
  constructor
  · rintro ⟨hour, hhours, hparts⟩
    rw [hparts]
    simp only [Hms.nanosOfDay, Hms.secondOfDay, UInt64.toNat_toUInt8, UInt64.toNat_toUInt32, hnano,
      hminute, hsecond, hhours, nanosPerSecond]
    omega
  · intro hnanos
    simp only [Hms.nanosOfDay, Hms.secondOfDay, nanosPerSecond] at hnanos
    refine ⟨(cal.hms t).hour, by omega, Hms.ext_toNat rfl ?_ ?_ ?_⟩
    · rw [UInt64.toNat_toUInt8, hminute]
      omega
    · rw [UInt64.toNat_toUInt8, hsecond]
      omega
    · rw [UInt64.toNat_toUInt32, hnano]
      omega

theorem exists_timeOfNanos_iff (h : cal.Lawful) {nanos : UInt64} :
    (∃ t, cal.timeOfNanos nanos = .ok t) ↔ nanos.toNat < Hms.nanosPerDay := by
  simp only [h.timeOfNanos_eq_ok]
  exact ⟨fun ⟨t, ht⟩ => ht ▸ (h.validTime t).nanosOfDay_lt, h.exists_time⟩

/-! ## Offsets -/

theorem offsetOfMinutes_eq_ok (h : cal.Lawful) {minutes : Int32} {o : cal.Offset} :
    cal.offsetOfMinutes minutes = .ok o ↔ cal.ahead o = minutes.toInt * 60 := by
  simp only [offsetOfMinutes, orOverflow_eq_ok, Option.bind_eq_bind, Option.bind_eq_some_iff,
    checkedMul_eq_some, h.ofWholeSeconds?, show (60 : Int32).toInt = 60 from rfl]
  constructor
  · rintro ⟨_, hs, rfl⟩
    exact hs
  · intro ho
    exact ⟨_, ho, rfl⟩

theorem toInt_minutesOfOffset (h : cal.Lawful) (o : cal.Offset) :
    (cal.minutesOfOffset o).toInt = (cal.ahead o).tdiv 60 := by
  rw [minutesOfOffset, Int16.toInt_toInt32, h.wholeMinutes, ahead]

/-! ## Points in time -/

theorem pointOfMoment_eq_iff (h : cal.Lawful) {m : cal.Moment} {p : TimePoint} :
    cal.pointOfMoment m = p ↔ cal.unixSecond m = p.seconds.toInt ∧ cal.nanosecond m = p.nanos := by
  rw [pointOfMoment, TimePoint.mk.injEq, ← Int64.toInt_inj, h.unixTimestamp_eq]

/-- A moment in UTC is that of its point in time: on the second it has another time of the same
second, and replacing the nanosecond gives its own. -/
theorem momentOfPoint_eq_ok (h : cal.Lawful) {p : TimePoint} {m : cal.Moment} :
    cal.momentOfPoint p = .ok m ↔ cal.ahead (cal.offset m) = 0 ∧ cal.pointOfMoment m = p := by
  simp only [momentOfPoint, orOverflow_eq_ok, Option.bind_eq_bind, Option.bind_eq_some_iff,
    h.ofUnixTimestamp?, h.replaceNanosecond?, h.pointOfMoment_eq_iff, ← Int64.toInt_inj,
    h.unixTimestamp_eq]
  constructor
  · rintro ⟨utc, ⟨hutc, hs, -⟩, hd, ho, ht⟩
    refine ⟨by rw [ho]; exact hutc, ?_, by rw [h.nanosecond, ht]⟩
    rw [← hs, unixSecond, unixSecond, hd, ho, ht]
    rfl
  · rintro ⟨hutc, hs, hn⟩
    obtain ⟨hh, hm, hsec, -⟩ := h.validTime (cal.time m)
    obtain ⟨t, ht⟩ := (h.times { cal.hms (cal.time m) with nanos := 0 }).mpr
      ⟨hh, hm, hsec, Nat.zero_lt_succ _⟩
    obtain ⟨utc, hd, rfl, ho⟩ := h.moments (cal.date m) t (cal.offset m)
    refine ⟨utc, ⟨by rw [ho]; exact hutc, ?_, by rw [h.nanosecond, ht]⟩, hd.symm, ho.symm, ?_⟩
    · rw [← hs, unixSecond, unixSecond, hd, ho, ht]
      rfl
    · rw [ht, ← hn, h.nanosecond]

theorem exists_momentOfPoint_iff (h : cal.Lawful) {p : TimePoint} :
    (∃ m, cal.momentOfPoint p = .ok m) ↔
      Civil.DayInRange (p.seconds.toInt / secondsPerDay) ∧ p.nanos.toNat < nanosPerSecond := by
  simp only [h.momentOfPoint_eq_ok, h.pointOfMoment_eq_iff]
  constructor
  · rintro ⟨m, hutc, hs, hn⟩
    have hday := h.dayInRange (cal.date m)
    rw [h.localDay_eq, hutc, hs, Int.add_zero] at hday
    exact ⟨hday, hn ▸ h.nanosecond_lt m⟩
  · rintro ⟨hday, hn⟩
    obtain ⟨o, ho⟩ := h.exists_offset (s := 0) (by decide)
    obtain ⟨m, rfl, hm⟩ := h.exists_moment o (by rwa [ho, Int.add_zero]) hn
    exact ⟨m, ho, hm⟩

theorem plainOfPoint_eq_ok (h : cal.Lawful) {p : TimePoint} {d : cal.Date} {t : cal.Time} :
    cal.plainOfPoint p = .ok (d, t) ↔ cal.pointOfPlain d t = p := by
  obtain ⟨hd, ht, hutc⟩ := h.assumeUtc d t
  simp only [plainOfPoint, bind_eq_ok, h.momentOfPoint_eq_ok, pure, Except.pure,
    Except.ok.injEq, Prod.mk.injEq]
  constructor
  · rintro ⟨m, ⟨ho, rfl⟩, rfl, rfl⟩
    -- A moment without an offset is the one of its date and time.
    rw [pointOfPlain, h.moment_ext_parts hd ht (h.offset_ext (Eq.trans hutc ho.symm))]
  · intro hp
    exact ⟨_, ⟨hutc, hp⟩, hd, ht⟩

/-- The moment at an offset of minutes is that of the point in time, if it has one in UTC too. -/
theorem momentOfZoned_eq_ok (h : cal.Lawful) {z : ZonedTimePoint} {m : cal.Moment} :
    cal.momentOfZoned z = .ok m ↔ cal.ahead (cal.offset m) = z.offset.toInt * 60 ∧
      cal.pointOfMoment m = z.point ∧ Civil.DayInRange (cal.utcDay m) := by
  simp only [momentOfZoned, bind_eq_ok, h.offsetOfMinutes_eq_ok, h.momentOfPoint_eq_ok,
    orOverflow_eq_ok, h.toOffset?, h.pointOfMoment_eq_iff, ← Int64.toInt_inj, h.unixTimestamp_eq,
    h.utcDay_eq]
  constructor
  · rintro ⟨o, ho, utc, ⟨hutc, hs, hn⟩, rfl, hs', hn'⟩
    have hday := h.dayInRange (cal.date utc)
    rw [h.localDay_eq, hutc, Int.add_zero, ← hs'] at hday
    exact ⟨ho, ⟨hs'.trans hs, hn'.trans hn⟩, hday⟩
  · rintro ⟨ho, ⟨hs, hn⟩, hday⟩
    obtain ⟨utc, hutc⟩ := h.exists_momentOfPoint_iff.mpr ⟨hs ▸ hday, hn ▸ h.nanosecond_lt m⟩
    rw [h.momentOfPoint_eq_ok, h.pointOfMoment_eq_iff] at hutc
    exact ⟨cal.offset m, ho, utc, hutc, rfl, hs.trans hutc.2.1.symm, hn.trans hutc.2.2.symm⟩

end Lawful

end Calendar

end QueryLink
