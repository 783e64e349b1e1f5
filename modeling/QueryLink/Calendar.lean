/-! # What a calendar gives

Dates, times of day, offsets from UTC and moments are those of a calendar library, which this
project does not define. A `Calendar` holds the operations of it that are used, in the machine words
they work on. `Calendar.Lawful` says what the documentation of the library promises of them: the
dates are those of the proleptic Gregorian calendar, which applies its leap year rule to all years,
those before year one included, and the years go from -9999 to 9999.

* `Civil`            a date by its year, month and day, and which comes next
* `Hms`              a time by its parts
* `Calendar`         the operations
* `Calendar.Lawful`  what they are known to do -/

namespace QueryLink

/-- A date by its year, month and day. -/
structure Civil where
  year : Int
  month : Nat
  day : Nat
  deriving Repr, DecidableEq

namespace Civil

/-- Every fourth year is a leap year, but of those that end a century only every fourth. -/
def IsLeap (year : Int) : Prop :=
  year % 4 = 0 ∧ (year % 100 ≠ 0 ∨ year % 400 = 0)

instance (year : Int) : Decidable (IsLeap year) :=
  inferInstanceAs (Decidable (_ ∧ _))

/-- The days of a month. -/
def daysIn (year : Int) : Nat → Nat
  | 2 => if IsLeap year then 29 else 28
  | 4 | 6 | 9 | 11 => 30
  | _ => 31

/-- The month is one of the twelve and the day is one of its days. -/
structure Valid (c : Civil) : Prop where
  month_pos : 1 ≤ c.month
  month_le : c.month ≤ 12
  day_pos : 1 ≤ c.day
  day_le : c.day ≤ daysIn c.year c.month

instance (c : Civil) : Decidable c.Valid :=
  decidable_of_iff (1 ≤ c.month ∧ c.month ≤ 12 ∧ 1 ≤ c.day ∧ c.day ≤ daysIn c.year c.month)
    ⟨fun ⟨a, b, d, e⟩ => ⟨a, b, d, e⟩, fun ⟨a, b, d, e⟩ => ⟨a, b, d, e⟩⟩

/-- The year has four digits at most. -/
def InRange (c : Civil) : Prop := -9999 ≤ c.year ∧ c.year ≤ 9999

instance (c : Civil) : Decidable c.InRange :=
  inferInstanceAs (Decidable (_ ∧ _))

/-- The date after a date. -/
def next (c : Civil) : Civil :=
  if c.day < daysIn c.year c.month then { c with day := c.day + 1 }
  else if c.month < 12 then ⟨c.year, c.month + 1, 1⟩
  else ⟨c.year + 1, 1, 1⟩

end Civil

/-- Seconds in a day. -/
def secondsPerDay : Nat := 86400

/-- Nanoseconds in a second. -/
def nanosPerSecond : Nat := 1000000000

/-- A time by its hour, minute, second and the nanoseconds of that. -/
structure Hms where
  hour : UInt8
  minute : UInt8
  second : UInt8
  nanos : UInt32
  deriving Repr, DecidableEq

namespace Hms

/-- The time is one of those that a day has. -/
structure Valid (x : Hms) : Prop where
  hour_lt : x.hour.toNat < 24
  minute_lt : x.minute.toNat < 60
  second_lt : x.second.toNat < 60
  nanos_lt : x.nanos.toNat < nanosPerSecond

instance (x : Hms) : Decidable x.Valid :=
  decidable_of_iff (x.hour.toNat < 24 ∧ x.minute.toNat < 60 ∧ x.second.toNat < 60 ∧
      x.nanos.toNat < nanosPerSecond)
    ⟨fun ⟨a, b, d, e⟩ => ⟨a, b, d, e⟩, fun ⟨a, b, d, e⟩ => ⟨a, b, d, e⟩⟩

/-- Whole seconds since midnight. -/
def secondOfDay (x : Hms) : Nat :=
  x.hour.toNat * 3600 + x.minute.toNat * 60 + x.second.toNat

/-- Nanoseconds since midnight. -/
def nanosOfDay (x : Hms) : Nat :=
  x.secondOfDay * nanosPerSecond + x.nanos.toNat

end Hms

/-- The operations of a calendar library. One that can fail is an option. -/
structure Calendar where
  /-- The days. -/
  Date : Type
  /-- The times of a day. -/
  Time : Type
  /-- How far local time can be ahead of UTC. -/
  Offset : Type
  /-- Local dates and times with their offset from UTC. -/
  Moment : Type
  civil : Date → Civil
  /-- Days in the count that astronomers use, which starts in the year -4713. -/
  toJulianDay : Date → Int32
  ofJulianDay? : Int32 → Option Date
  hms : Time → Hms
  ofHms? : Hms → Option Time
  wholeSeconds : Offset → Int32
  wholeMinutes : Offset → Int16
  ofWholeSeconds? : Int32 → Option Offset
  date : Moment → Date
  time : Moment → Time
  offset : Moment → Offset
  /-- The moment of a date and a time in UTC. -/
  assumeUtc : Date → Time → Moment
  /-- Seconds since 1970-01-01T00:00:00Z. -/
  unixTimestamp : Moment → Int64
  nanosecond : Moment → UInt32
  /-- The moment in UTC that many seconds after 1970-01-01T00:00:00Z. -/
  ofUnixTimestamp? : Int64 → Option Moment
  replaceNanosecond? : Moment → UInt32 → Option Moment
  /-- The same moment at another offset. -/
  toOffset? : Moment → Offset → Option Moment

namespace Calendar

/-- The greatest offset from UTC in seconds, either way. -/
def greatestOffset : Int := 93599

/-- What the documentation of the library says of its operations. -/
structure Lawful (cal : Calendar) : Prop where
  /-- There is every date of the years in range, and no other. -/
  dates : ∀ c : Civil, (∃ d, cal.civil d = c) ↔ c.Valid ∧ c.InRange
  /-- The count of Julian days starts at -4713-11-24. -/
  julianDay_zero : ∀ d, cal.civil d = ⟨-4713, 11, 24⟩ → (cal.toJulianDay d).toInt = 0
  /-- It goes up by one from each date to the next. -/
  julianDay_next : ∀ d e, cal.civil e = (cal.civil d).next →
    (cal.toJulianDay e).toInt = (cal.toJulianDay d).toInt + 1
  /-- A Julian day is given its date, when there is one. -/
  ofJulianDay? : ∀ n d, cal.ofJulianDay? n = some d ↔ cal.toJulianDay d = n
  /-- There is every time that a day has. -/
  times : ∀ x : Hms, (∃ t, cal.hms t = x) ↔ x.Valid
  /-- The parts of a time are given that time. -/
  ofHms? : ∀ x t, cal.ofHms? x = some t ↔ cal.hms t = x
  /-- There is every offset in range, to the second. -/
  offsets : ∀ s : Int32, (∃ o, cal.wholeSeconds o = s) ↔
    -greatestOffset ≤ s.toInt ∧ s.toInt ≤ greatestOffset
  /-- The seconds of an offset are given that offset. -/
  ofWholeSeconds? : ∀ s o, cal.ofWholeSeconds? s = some o ↔ cal.wholeSeconds o = s
  /-- Whole minutes are cut toward zero. -/
  wholeMinutes : ∀ o, (cal.wholeMinutes o).toInt = (cal.wholeSeconds o).toInt.tdiv 60
  /-- Every date, time and offset make a moment. -/
  moments : ∀ d t o, ∃ m, cal.date m = d ∧ cal.time m = t ∧ cal.offset m = o
  /-- A moment without an offset is one in UTC. -/
  assumeUtc : ∀ d t, cal.date (cal.assumeUtc d t) = d ∧ cal.time (cal.assumeUtc d t) = t ∧
    (cal.wholeSeconds (cal.offset (cal.assumeUtc d t))).toInt = 0
  /-- A timestamp counts the seconds of the days since 1970-01-01, those since midnight, and takes
  away those that local time is ahead. -/
  unixTimestamp : ∀ m e, cal.civil e = ⟨1970, 1, 1⟩ → (cal.unixTimestamp m).toInt =
    ((cal.toJulianDay (cal.date m)).toInt - (cal.toJulianDay e).toInt) * secondsPerDay +
      (cal.hms (cal.time m)).secondOfDay - (cal.wholeSeconds (cal.offset m)).toInt
  /-- The nanosecond of a moment is that of its time. -/
  nanosecond : ∀ m, cal.nanosecond m = (cal.hms (cal.time m)).nanos
  /-- A timestamp is given its moment in UTC, on the second. -/
  ofUnixTimestamp? : ∀ s m, cal.ofUnixTimestamp? s = some m ↔
    (cal.wholeSeconds (cal.offset m)).toInt = 0 ∧ cal.unixTimestamp m = s ∧ cal.nanosecond m = 0
  /-- A moment with its nanosecond replaced is the same in all else. -/
  replaceNanosecond? : ∀ m n m', cal.replaceNanosecond? m n = some m' ↔
    cal.date m' = cal.date m ∧ cal.offset m' = cal.offset m ∧
      cal.hms (cal.time m') = { cal.hms (cal.time m) with nanos := n }
  /-- At another offset it is still the same instant. -/
  toOffset? : ∀ m o m', cal.toOffset? m o = some m' ↔
    cal.offset m' = o ∧ cal.unixTimestamp m' = cal.unixTimestamp m ∧
      cal.nanosecond m' = cal.nanosecond m

end Calendar

end QueryLink
