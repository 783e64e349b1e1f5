import QueryLink.Calendar

/-! # The proleptic Gregorian calendar

A calendar by computation. Days are counted from 1970-01-01. The computation counts years from
March, so that the leap day is the last of its year, and in eras of 400 years, which all have the
same 146097 days.

* `Civil.epochDay`, `Civil.ofEpochDay`  dates and days
* `Date`, `Clock`, `Offset`, `Moment`   dates, times, offsets and moments, all of them in range
* `gregorian`                           the calendar -/

namespace QueryLink

namespace Civil

/-- Days in an era of 400 years. -/
def daysPerEra : Int := 146097

/-- The day 0000-03-01, counted from 1970-01-01, is this many days before it. -/
def eraShift : Int := 719468

/-- How many days before the month that comes `m` months after March. -/
def daysBefore (m : Int) : Int := (153 * m + 2) / 5

/-- The date of a day counted from 1970-01-01. -/
def ofEpochDay (n : Int) : Civil :=
  let z := n + eraShift
  let era := z / daysPerEra
  let dayOfEra := z % daysPerEra
  let yearOfEra :=
    (dayOfEra - dayOfEra / 1460 + dayOfEra / 36524 - dayOfEra / 146096) / 365
  let dayOfYear := dayOfEra - (365 * yearOfEra + yearOfEra / 4 - yearOfEra / 100)
  let m := (5 * dayOfYear + 2) / 153
  let month := if m < 10 then m + 3 else m - 9
  let year := yearOfEra + era * 400 + (if month ≤ 2 then 1 else 0)
  ⟨year, month.toNat, (dayOfYear - daysBefore m + 1).toNat⟩

/-- The day of a date, counted from 1970-01-01. -/
def epochDay (c : Civil) : Int :=
  let y := if c.month ≤ 2 then c.year - 1 else c.year
  let era := y / 400
  let yearOfEra := y % 400
  let m : Int := if 2 < c.month then (c.month : Int) - 3 else c.month + 9
  let dayOfYear := daysBefore m + c.day - 1
  let dayOfEra := yearOfEra * 365 + yearOfEra / 4 - yearOfEra / 100 + dayOfYear
  era * daysPerEra + dayOfEra - eraShift

/-- The day that Julian days are counted from. -/
def julianStart : Int := epochDay ⟨-4713, 11, 24⟩

end Civil

/-- A day of the calendar. -/
structure Date extends Civil where
  valid : toCivil.Valid
  inRange : toCivil.InRange
  deriving Repr, DecidableEq

namespace Date

/-- The date of a day counted from 1970-01-01, when it is in range. -/
def ofEpochDay? (n : Int) : Option Date :=
  let c := Civil.ofEpochDay n
  if h : c.Valid ∧ c.InRange then some ⟨c, h.1, h.2⟩ else none

/-- The Julian day of a date. -/
def toJulianDay (d : Date) : Int32 := .ofInt (d.epochDay - Civil.julianStart)

/-- The date of a Julian day. -/
def ofJulianDay? (n : Int32) : Option Date := ofEpochDay? (n.toInt + Civil.julianStart)

end Date

/-- A time of day. -/
structure Clock where
  hour : Nat
  minute : Nat
  second : Nat
  nanos : Nat
  hour_lt : hour < 24
  minute_lt : minute < 60
  second_lt : second < 60
  nanos_lt : nanos < nanosPerSecond
  deriving Repr, DecidableEq

namespace Clock

/-- The time of day with these parts, if there is one. -/
def ofParts? (hour minute second nanos : Nat) : Option Clock :=
  if h : hour < 24 ∧ minute < 60 ∧ second < 60 ∧ nanos < nanosPerSecond then
    some ⟨hour, minute, second, nanos, h.1, h.2.1, h.2.2.1, h.2.2.2⟩
  else none

/-- The time of day that many seconds and nanoseconds after midnight. -/
def ofSeconds? (seconds nanos : Nat) : Option Clock :=
  ofParts? (seconds / 3600) (seconds / 60 % 60) (seconds % 60) nanos

/-- Whole seconds since midnight. -/
def secondOfDay (c : Clock) : Nat :=
  c.hour * 3600 + c.minute * 60 + c.second

/-- The parts as words. -/
def hms (c : Clock) : Hms :=
  ⟨.ofNat c.hour, .ofNat c.minute, .ofNat c.second, .ofNat c.nanos⟩

/-- The time of day whose parts are these words. -/
def ofHms? (x : Hms) : Option Clock :=
  ofParts? x.hour.toNat x.minute.toNat x.second.toNat x.nanos.toNat

end Clock

/-- How many seconds local time is ahead of UTC. -/
structure Offset where
  seconds : Int
  ge_least : -Calendar.greatestOffset ≤ seconds
  le_greatest : seconds ≤ Calendar.greatestOffset
  deriving Repr, DecidableEq

namespace Offset

instance : Coe Offset Int := ⟨Offset.seconds⟩

/-- The offset of that many seconds, when it is in range. -/
def ofSeconds? (seconds : Int) : Option Offset :=
  if h : -Calendar.greatestOffset ≤ seconds ∧ seconds ≤ Calendar.greatestOffset then
    some ⟨seconds, h.1, h.2⟩
  else none

/-- No offset. -/
def utc : Offset := ⟨0, by decide, by decide⟩

def wholeSeconds (o : Offset) : Int32 := .ofInt o.seconds

/-- The whole minutes of an offset, cut toward zero. -/
def wholeMinutes (o : Offset) : Int16 := .ofInt (o.seconds.tdiv 60)

def ofWholeSeconds? (s : Int32) : Option Offset := ofSeconds? s.toInt

end Offset

/-- A local date and time of day with the offset from UTC. -/
structure Moment where
  date : Date
  clock : Clock
  offset : Offset
  deriving Repr, DecidableEq

namespace Moment

/-- Seconds since 1970-01-01T00:00:00Z, rounded down. -/
def unixSeconds (m : Moment) : Int :=
  m.date.epochDay * secondsPerDay + m.clock.secondOfDay - m.offset

/-- The moment `seconds` and `nanos` after 1970-01-01T00:00:00Z as seen at an offset, when its local
date is in range. -/
def ofUnix? (seconds : Int) (nanos : Nat) (offset : Offset) : Option Moment := do
  let here := seconds + offset
  let date ← Date.ofEpochDay? (here / secondsPerDay)
  let clock ← Clock.ofSeconds? (here % secondsPerDay).toNat nanos
  return ⟨date, clock, offset⟩

instance : Inhabited Moment :=
  ⟨⟨⟨⟨1970, 1, 1⟩, by decide, by decide⟩,
    ⟨0, 0, 0, 0, by decide, by decide, by decide, by decide⟩, .utc⟩⟩

/-- The moment that many nanoseconds after 1970-01-01T00:00:00Z as seen at an offset in seconds. Out
of range there is none, and it is the start of 1970. -/
def ofUnixNanos (nanos : Int) (offset : Int) : Moment :=
  let m := do
    ofUnix? (nanos / nanosPerSecond) (nanos % nanosPerSecond).toNat (← Offset.ofSeconds? offset)
  m.getD default

/-- The moment of a date and a time of day in UTC. -/
def assumeUtc (date : Date) (clock : Clock) : Moment := ⟨date, clock, .utc⟩

def unixTimestamp (m : Moment) : Int64 := .ofInt m.unixSeconds

def nanosecond (m : Moment) : UInt32 := .ofNat m.clock.nanos

/-- The moment in UTC that many seconds after 1970-01-01T00:00:00Z. -/
def ofUnixTimestamp? (s : Int64) : Option Moment := ofUnix? s.toInt 0 .utc

/-- The moment with another nanosecond. -/
def replaceNanosecond? (m : Moment) (nanos : UInt32) : Option Moment := do
  let clock ← Clock.ofParts? m.clock.hour m.clock.minute m.clock.second nanos.toNat
  return { m with clock }

/-- The moment as seen at another offset. -/
def toOffset? (m : Moment) (offset : Offset) : Option Moment :=
  ofUnix? m.unixSeconds m.clock.nanos offset

end Moment

/-- The proleptic Gregorian calendar. -/
def gregorian : Calendar where
  Date := Date
  Time := Clock
  Offset := Offset
  Moment := Moment
  civil := Date.toCivil
  toJulianDay := Date.toJulianDay
  ofJulianDay? := Date.ofJulianDay?
  hms := Clock.hms
  ofHms? := Clock.ofHms?
  wholeSeconds := Offset.wholeSeconds
  wholeMinutes := Offset.wholeMinutes
  ofWholeSeconds? := Offset.ofWholeSeconds?
  date := Moment.date
  time := Moment.clock
  offset := Moment.offset
  assumeUtc := Moment.assumeUtc
  unixTimestamp := Moment.unixTimestamp
  nanosecond := Moment.nanosecond
  ofUnixTimestamp? := Moment.ofUnixTimestamp?
  replaceNanosecond? := Moment.replaceNanosecond?
  toOffset? := Moment.toOffset?

end QueryLink
