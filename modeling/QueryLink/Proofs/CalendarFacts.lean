import QueryLink.Proofs.GregorianDays

/-! # What follows from the laws of a calendar

The dates of a lawful calendar are the days in range, whose Julian days are counted from a fixed
one. Its moments are told by their offset and their instant, and there is one of each whose local
date is in range.

* `Calendar.civilDay`, `unixSecond`, `instant`  days, seconds and nanoseconds since 1970
* `Lawful.toJulianDay_eq`                       Julian days, from one date to the next
* `Lawful.unixTimestamp_eq`                     timestamps
* `Lawful.moment_ext`, `Lawful.exists_moment`   moments by offset and instant -/

namespace QueryLink

/-! ## Times by their parts -/

namespace Hms

/-- The nanoseconds of a day. -/
def nanosPerDay : Nat := secondsPerDay * nanosPerSecond

/-- The time that many seconds after midnight. -/
def ofSeconds (seconds : Nat) (nanos : UInt32) : Hms :=
  ⟨.ofNat (seconds / 3600), .ofNat (seconds / 60 % 60), .ofNat (seconds % 60), nanos⟩

theorem ext_toNat {x y : Hms} (hh : x.hour.toNat = y.hour.toNat)
    (hm : x.minute.toNat = y.minute.toNat) (hs : x.second.toNat = y.second.toNat)
    (hn : x.nanos.toNat = y.nanos.toNat) : x = y := by
  obtain ⟨⟩ := x
  obtain ⟨⟩ := y
  simp only [UInt8.toNat_inj, UInt32.toNat_inj] at hh hm hs hn
  rw [hh, hm, hs, hn]

variable {x : Hms}

theorem Valid.secondOfDay_lt (h : x.Valid) : x.secondOfDay < secondsPerDay := by
  have := h.hour_lt
  have := h.minute_lt
  have := h.second_lt
  simp only [secondOfDay, secondsPerDay]
  omega

theorem Valid.nanosOfDay_lt (h : x.Valid) : x.nanosOfDay < nanosPerDay := by
  have hs := h.secondOfDay_lt
  have hn := h.nanos_lt
  simp only [nanosOfDay, nanosPerDay, secondsPerDay, nanosPerSecond] at *
  omega

section ofSeconds

variable {seconds : Nat} {nanos : UInt32}

theorem toNat_ofSeconds (nanos : UInt32) (h : seconds < secondsPerDay) :
    (ofSeconds seconds nanos).hour.toNat = seconds / 3600 ∧
      (ofSeconds seconds nanos).minute.toNat = seconds / 60 % 60 ∧
      (ofSeconds seconds nanos).second.toNat = seconds % 60 := by
  simp only [secondsPerDay] at h
  refine ⟨?_, ?_, ?_⟩ <;> exact UInt8.toNat_ofNat_of_lt' (show _ < 256 by omega)

theorem valid_ofSeconds (h : seconds < secondsPerDay) (hn : nanos.toNat < nanosPerSecond) :
    (ofSeconds seconds nanos).Valid := by
  obtain ⟨hhour, hminute, hsecond⟩ := toNat_ofSeconds nanos h
  simp only [secondsPerDay] at h
  exact ⟨by omega, by omega, by omega, hn⟩

theorem secondOfDay_ofSeconds (h : seconds < secondsPerDay) :
    (ofSeconds seconds nanos).secondOfDay = seconds := by
  obtain ⟨hhour, hminute, hsecond⟩ := toNat_ofSeconds nanos h
  simp only [secondOfDay, hhour, hminute, hsecond]
  omega

end ofSeconds

end Hms

namespace Calendar

variable {cal : Calendar}

/-- The days from 1970-01-01 to a date. -/
def civilDay (cal : Calendar) (d : cal.Date) : Int := (cal.civil d).epochDay

/-- How many seconds local time is ahead of UTC. -/
def ahead (cal : Calendar) (o : cal.Offset) : Int := (cal.wholeSeconds o).toInt

/-- The seconds from 1970-01-01T00:00:00Z to a moment, rounded down. -/
def unixSecond (cal : Calendar) (m : cal.Moment) : Int :=
  cal.civilDay (cal.date m) * secondsPerDay + (cal.hms (cal.time m)).secondOfDay -
    cal.ahead (cal.offset m)

/-- The nanoseconds from 1970-01-01T00:00:00Z to a moment, wherever it was noted. -/
def instant (cal : Calendar) (m : cal.Moment) : Int :=
  cal.civilDay (cal.date m) * Hms.nanosPerDay + (cal.hms (cal.time m)).nanosOfDay -
    cal.ahead (cal.offset m) * nanosPerSecond

/-- The day a moment falls on in UTC. -/
def utcDay (cal : Calendar) (m : cal.Moment) : Int := cal.instant m / Hms.nanosPerDay

namespace Lawful

/-! ## Dates -/

theorem valid (h : cal.Lawful) (d : cal.Date) : (cal.civil d).Valid :=
  ((h.dates _).mp ⟨d, rfl⟩).1

theorem dayInRange (h : cal.Lawful) (d : cal.Date) : Civil.DayInRange (cal.civilDay d) :=
  (Civil.inRange_iff (h.valid d)).mp ((h.dates _).mp ⟨d, rfl⟩).2

theorem exists_date (h : cal.Lawful) {n : Int} (hn : Civil.DayInRange n) :
    ∃ d, cal.civilDay d = n := by
  obtain ⟨d, hd⟩ := (h.dates (.ofEpochDay n)).mpr
    ⟨Civil.valid_ofEpochDay n, (Civil.inRange_ofEpochDay n).mpr hn⟩
  exact ⟨d, by rw [civilDay, hd, Civil.epochDay_ofEpochDay]⟩

/-- The date of a day is found by the day. -/
theorem civil_eq (h : cal.Lawful) (d : cal.Date) : cal.civil d = .ofEpochDay (cal.civilDay d) :=
  (Civil.ofEpochDay_epochDay (h.valid d)).symm

theorem julianDay_succ (h : cal.Lawful) {d e : cal.Date}
    (hnext : cal.civilDay e = cal.civilDay d + 1) :
    (cal.toJulianDay e).toInt = (cal.toJulianDay d).toInt + 1 :=
  h.julianDay_next d e (by rw [h.civil_eq e, hnext, Civil.ofEpochDay_succ, ← h.civil_eq d])

/-- Julian days are counted from the date of the first one. The induction is on how far a date is
from that one, before or after it: the dates between are all in range. -/
theorem toJulianDay_eq (h : cal.Lawful) (d : cal.Date) :
    (cal.toJulianDay d).toInt = cal.civilDay d - Civil.julianStart := by
  have hstart : Civil.julianStart = -2440588 := rfl
  generalize hk : (cal.civilDay d - Civil.julianStart).natAbs = k
  induction k generalizing d with
  | zero =>
    have hd : cal.civilDay d = Civil.julianStart := by omega
    rw [h.julianDay_zero d (by rw [h.civil_eq d, hd]; rfl), hd, Int.sub_self]
  | succ k ih =>
    have hrange := h.dayInRange d
    simp only [Civil.DayInRange, Civil.firstDay, Civil.lastDay] at hrange
    by_cases hd : cal.civilDay d < Civil.julianStart
    · obtain ⟨e, he⟩ := h.exists_date (n := cal.civilDay d + 1) (by
        simp only [Civil.DayInRange, Civil.firstDay, Civil.lastDay]
        omega)
      have hnext := h.julianDay_succ he
      have := ih e (by omega)
      omega
    · obtain ⟨e, he⟩ := h.exists_date (n := cal.civilDay d - 1) (by
        simp only [Civil.DayInRange, Civil.firstDay, Civil.lastDay]
        omega)
      have hnext := h.julianDay_succ (d := e) (e := d) (by omega)
      have := ih e (by omega)
      omega

/-! ## Times and offsets -/

theorem validTime (h : cal.Lawful) (t : cal.Time) : (cal.hms t).Valid :=
  (h.times _).mp ⟨t, rfl⟩

/-- Every nanosecond of a day has its time. -/
theorem exists_time (h : cal.Lawful) {n : Nat} (hn : n < Hms.nanosPerDay) :
    ∃ t, (cal.hms t).nanosOfDay = n := by
  simp only [Hms.nanosPerDay] at hn
  have hseconds : n / nanosPerSecond < secondsPerDay :=
    Nat.div_lt_of_lt_mul (by rwa [Nat.mul_comm])
  have hnanos : (UInt32.ofNat (n % nanosPerSecond)).toNat = n % nanosPerSecond :=
    UInt32.toNat_ofNat_of_lt' (show _ < 2 ^ 32 by simp only [nanosPerSecond]; omega)
  have hlt : (UInt32.ofNat (n % nanosPerSecond)).toNat < nanosPerSecond := by
    rw [hnanos]
    exact Nat.mod_lt _ (by decide)
  obtain ⟨t, ht⟩ := (h.times _).mpr (Hms.valid_ofSeconds hseconds hlt)
  refine ⟨t, ?_⟩
  rw [ht, Hms.nanosOfDay, Hms.secondOfDay_ofSeconds hseconds, Hms.ofSeconds, hnanos]
  exact Nat.div_add_mod' ..

theorem ahead_bounds (h : cal.Lawful) (o : cal.Offset) :
    -greatestOffset ≤ cal.ahead o ∧ cal.ahead o ≤ greatestOffset :=
  (h.offsets _).mp ⟨o, rfl⟩

theorem exists_offset (h : cal.Lawful) {s : Int} (hs : -greatestOffset ≤ s ∧ s ≤ greatestOffset) :
    ∃ o, cal.ahead o = s := by
  have hword : (Int32.ofInt s).toInt = s := by
    simp only [greatestOffset] at hs
    exact Int32.toInt_ofInt_of_le (by omega) (by omega)
  obtain ⟨o, ho⟩ := (h.offsets (.ofInt s)).mpr (by rwa [hword])
  exact ⟨o, by rw [ahead, ho, hword]⟩

theorem offset_ext (h : cal.Lawful) {o p : cal.Offset} (ha : cal.ahead o = cal.ahead p) :
    o = p := by
  have ho := (h.ofWholeSeconds? _ o).mpr (Int32.toInt_inj.mp ha)
  rw [(h.ofWholeSeconds? _ p).mpr rfl] at ho
  exact (Option.some.inj ho).symm

/-! ## Moments -/

theorem unixTimestamp_eq (h : cal.Lawful) (m : cal.Moment) :
    (cal.unixTimestamp m).toInt = cal.unixSecond m := by
  obtain ⟨e, he⟩ := (h.dates ⟨1970, 1, 1⟩).mpr (by decide)
  have hday : cal.civilDay e = 0 := by
    rw [civilDay, he]
    rfl
  rw [h.unixTimestamp m e he, h.toJulianDay_eq, h.toJulianDay_eq, hday, unixSecond, ahead]
  simp only [secondsPerDay]
  omega

theorem instant_eq (h : cal.Lawful) (m : cal.Moment) :
    cal.instant m = cal.unixSecond m * nanosPerSecond + (cal.nanosecond m).toNat := by
  simp only [instant, unixSecond, h.nanosecond, Hms.nanosOfDay, Hms.nanosPerDay, nanosPerSecond,
    secondsPerDay]
  omega

theorem nanosecond_lt (h : cal.Lawful) (m : cal.Moment) :
    (cal.nanosecond m).toNat < nanosPerSecond := by
  rw [h.nanosecond]
  exact (h.validTime _).nanos_lt

theorem unixSecond_eq_div (h : cal.Lawful) (m : cal.Moment) :
    cal.unixSecond m = cal.instant m / nanosPerSecond := by
  have hn := h.nanosecond_lt m
  rw [h.instant_eq]
  simp only [nanosPerSecond] at hn ⊢
  omega

theorem nanosecond_eq_mod (h : cal.Lawful) (m : cal.Moment) :
    ((cal.nanosecond m).toNat : Int) = cal.instant m % nanosPerSecond := by
  have hn := h.nanosecond_lt m
  rw [h.instant_eq]
  simp only [nanosPerSecond] at hn ⊢
  omega

theorem utcDay_eq (h : cal.Lawful) (m : cal.Moment) :
    cal.utcDay m = cal.unixSecond m / secondsPerDay := by
  rw [h.unixSecond_eq_div, utcDay]
  simp only [Hms.nanosPerDay, nanosPerSecond, secondsPerDay]
  omega

theorem localDay_eq (h : cal.Lawful) (m : cal.Moment) : cal.civilDay (cal.date m) =
    (cal.unixSecond m + cal.ahead (cal.offset m)) / secondsPerDay := by
  have hs := (h.validTime (cal.time m)).secondOfDay_lt
  simp only [unixSecond, secondsPerDay] at hs ⊢
  omega

/-- A moment is told by its offset, its second and its nanosecond. -/
theorem moment_ext (h : cal.Lawful) {m n : cal.Moment} (ho : cal.offset m = cal.offset n)
    (hs : cal.unixSecond m = cal.unixSecond n) (hn : cal.nanosecond m = cal.nanosecond n) :
    m = n := by
  have hstamp : cal.unixTimestamp m = cal.unixTimestamp n := by
    rw [← Int64.toInt_inj, h.unixTimestamp_eq, h.unixTimestamp_eq, hs]
  have hm := (h.toOffset? n _ m).mpr ⟨ho, hstamp, hn⟩
  rw [(h.toOffset? n _ n).mpr ⟨rfl, rfl, rfl⟩] at hm
  exact (Option.some.inj hm).symm

/-- So it is by its date, its time and its offset. -/
theorem moment_ext_parts (h : cal.Lawful) {m n : cal.Moment} (hd : cal.date m = cal.date n)
    (ht : cal.time m = cal.time n) (ho : cal.offset m = cal.offset n) : m = n :=
  h.moment_ext ho (by rw [unixSecond, unixSecond, hd, ht, ho])
    (by rw [h.nanosecond, h.nanosecond, ht])

/-- There is a moment at every second whose local date is in range. -/
theorem exists_moment (h : cal.Lawful) {s : Int} {n : UInt32} (o : cal.Offset)
    (hday : Civil.DayInRange ((s + cal.ahead o) / secondsPerDay))
    (hn : n.toNat < nanosPerSecond) :
    ∃ m, cal.offset m = o ∧ cal.unixSecond m = s ∧ cal.nanosecond m = n := by
  have hlt : ((s + cal.ahead o) % secondsPerDay).toNat < secondsPerDay := by
    simp only [secondsPerDay]
    omega
  obtain ⟨d, hd⟩ := h.exists_date hday
  obtain ⟨t, ht⟩ := (h.times _).mpr (Hms.valid_ofSeconds hlt hn)
  obtain ⟨m, rfl, rfl, rfl⟩ := h.moments d t o
  refine ⟨m, rfl, ?_, ?_⟩
  · rw [unixSecond, hd, ht, Hms.secondOfDay_ofSeconds hlt]
    simp only [secondsPerDay]
    omega
  · rw [h.nanosecond, ht]
    rfl

end Lawful

end Calendar

end QueryLink
