import QueryLink.Calendar.Gregorian
import QueryLink.Value
import QueryLink.Value.Error

/-! # Dates and times as values

Conversions between the values that hold dates and times and those of a calendar, in the machine
words of both. Each conversion out of a value fails with the name of the first part that is out of
range; each one back is total.

The conversions are of any calendar. Under the names of dates, times and moments they are those of
the Gregorian one. -/

namespace QueryLink

/-- The sum, when it has room in the word. -/
def checkedAdd (a b : Int64) : Option Int64 :=
  if a.toBitVec.saddOverflow b.toBitVec then none else some (a + b)

/-- The product, when it has room in the word. -/
def checkedMul (a b : Int32) : Option Int32 :=
  if a.toBitVec.smulOverflow b.toBitVec then none else some (a * b)

/-- The number in the shorter word, when it has room there. -/
def narrow? (n : Int64) : Option Int32 :=
  if Int32.minValue.toInt64 ≤ n ∧ n ≤ Int32.maxValue.toInt64 then some n.toInt32 else none

/-- The number as a byte, when it is one. -/
def byte? (n : UInt64) : Option UInt8 :=
  if n < 256 then some n.toUInt8 else none

/-- What is there, or else the quantity is out of range. -/
def orOverflow {α : Type} (what : Quantity) : Option α → Except ValueError α
  | some a => .ok a
  | none => .error (.overflow what)

namespace Calendar

variable (cal : Calendar)

/-- The Julian day of 1970-01-01. -/
def epochJulianDay : Int64 := 2440588

/-- The nanoseconds of a second as a word. -/
def secondNanos : UInt64 := 1000000000

/-! ## Dates -/

/-- The days from 1970-01-01 to a date. -/
def dayOfDate (d : cal.Date) : Int64 :=
  (cal.toJulianDay d).toInt64 - epochJulianDay

/-- The date that many days after 1970-01-01. -/
def dateOfDay (day : Int64) : Except ValueError cal.Date :=
  orOverflow .date do
    let julian ← checkedAdd day epochJulianDay
    let julian ← narrow? julian
    cal.ofJulianDay? julian

/-! ## Times of day -/

/-- The nanoseconds from midnight to a time. -/
def nanosOfTime (t : cal.Time) : UInt64 :=
  let x := cal.hms t
  (x.hour.toUInt64 * 3600 + x.minute.toUInt64 * 60 + x.second.toUInt64) * secondNanos +
    x.nanos.toUInt64

/-- The time that many nanoseconds after midnight. -/
def timeOfNanos (nanos : UInt64) : Except ValueError cal.Time :=
  let seconds := nanos / secondNanos
  let nano := (nanos % secondNanos).toUInt32
  orOverflow .timeOfDay do
    let hour ← byte? (seconds / 3600)
    cal.ofHms? ⟨hour, (seconds / 60 % 60).toUInt8, (seconds % 60).toUInt8, nano⟩

/-! ## Offsets -/

/-- The minutes of an offset. -/
def minutesOfOffset (o : cal.Offset) : Int32 :=
  (cal.wholeMinutes o).toInt32

/-- The offset of that many minutes. -/
def offsetOfMinutes (minutes : Int32) : Except ValueError cal.Offset :=
  orOverflow .zoneOffset do
    let seconds ← checkedMul minutes 60
    cal.ofWholeSeconds? seconds

/-! ## Points in time -/

/-- The point in time of a moment, wherever it was noted. -/
def pointOfMoment (m : cal.Moment) : TimePoint :=
  ⟨cal.unixTimestamp m, cal.nanosecond m⟩

/-- The point in time of a date and a time in UTC. -/
def pointOfPlain (d : cal.Date) (t : cal.Time) : TimePoint :=
  cal.pointOfMoment (cal.assumeUtc d t)

/-- The moment in UTC of a point in time. -/
def momentOfPoint (p : TimePoint) : Except ValueError cal.Moment :=
  orOverflow .timePoint do
    let utc ← cal.ofUnixTimestamp? p.seconds
    cal.replaceNanosecond? utc p.nanos

/-- The date and the time in UTC of a point in time. -/
def plainOfPoint (p : TimePoint) : Except ValueError (cal.Date × cal.Time) := do
  let utc ← cal.momentOfPoint p
  return (cal.date utc, cal.time utc)

/-- The point in time of a moment with its offset. -/
def zonedOfMoment (m : cal.Moment) : ZonedTimePoint :=
  ⟨cal.pointOfMoment m, cal.minutesOfOffset (cal.offset m)⟩

/-- The moment of a point in time with an offset. The offset is looked at first, then the date in
UTC, then the local date. -/
def momentOfZoned (p : ZonedTimePoint) : Except ValueError cal.Moment := do
  let offset ← cal.offsetOfMinutes p.offset
  let utc ← cal.momentOfPoint p.point
  orOverflow .timePoint (cal.toOffset? utc offset)

/-- The value of a time of day at an offset. -/
def zonedOfTime (t : cal.Time) (o : cal.Offset) : ZonedTimeOfDay :=
  ⟨cal.nanosOfTime t, cal.minutesOfOffset o⟩

/-- The time of day and the offset of a value. -/
def timeOfZoned (z : ZonedTimeOfDay) : Except ValueError (cal.Time × cal.Offset) := do
  let time ← cal.timeOfNanos z.nanos
  return (time, ← cal.offsetOfMinutes z.offset)

end Calendar

/-! ## The Gregorian calendar -/

/-- The date of a date value. -/
def Date.ofValue (day : Int64) : Except ValueError Date := gregorian.dateOfDay day

/-- The day of a date. -/
def Date.toDay (d : Date) : Int64 := gregorian.dayOfDate d

/-- The time of day of a value. -/
def Clock.ofValue (nanos : UInt64) : Except ValueError Clock := gregorian.timeOfNanos nanos

/-- The nanoseconds of a time of day. -/
def Clock.toNanos (c : Clock) : UInt64 := gregorian.nanosOfTime c

/-- The point in time as a moment in UTC. -/
def TimePoint.toUtc (p : TimePoint) : Except ValueError Moment := gregorian.momentOfPoint p

/-- The point in time of a moment, wherever it was noted. -/
def TimePoint.ofMoment (m : Moment) : TimePoint := gregorian.pointOfMoment m

/-- The moment of a point in time at its offset. -/
def ZonedTimePoint.toMoment (p : ZonedTimePoint) : Except ValueError Moment :=
  gregorian.momentOfZoned p

/-- The point in time and the offset, in whole minutes, of a moment. -/
def ZonedTimePoint.ofMoment (m : Moment) : ZonedTimePoint := gregorian.zonedOfMoment m

/-- The time of day and the offset of a value. -/
def ZonedTimeOfDay.toClock (t : ZonedTimeOfDay) : Except ValueError (Clock × Offset) :=
  gregorian.timeOfZoned t

/-- The value of a time of day at an offset. -/
def ZonedTimeOfDay.ofClock (clock : Clock) (offset : Offset) : ZonedTimeOfDay :=
  gregorian.zonedOfTime clock offset

end QueryLink
