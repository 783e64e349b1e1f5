import QueryLink.BitString
import QueryLink.Decimal
import QueryLink.Value.Kind

/-! # Values

The values of a query language that travel between client and server. Floats are kept as their
bits, so that every bit pattern survives. -/

namespace QueryLink

/-- A point in time: seconds since 1970-01-01T00:00:00Z and nanoseconds on top. -/
structure TimePoint where
  seconds : Int64
  nanos : UInt32
  deriving Repr, DecidableEq

/-- Nanoseconds since midnight, and the offset from UTC in minutes. -/
structure ZonedTimeOfDay where
  nanos : UInt64
  offset : Int32
  deriving Repr, DecidableEq

/-- A point in time with the offset from UTC, in minutes, of the place it was noted at. -/
structure ZonedTimePoint where
  point : TimePoint
  offset : Int32
  deriving Repr, DecidableEq

/-- A span of calendar time. -/
structure Interval where
  year : Int32
  month : Int32
  day : Int32
  nanos : Int64
  deriving Repr, DecidableEq

/-- A value. -/
inductive Value where
  | null
  | int (n : Int64)
  | float4 (bits : UInt32)
  | float8 (bits : UInt64)
  | decimal (d : Decimal)
  | character (s : String)
  | octet (bytes : Bytes)
  | bit (bits : BitString)
  /-- Days since 1970-01-01. -/
  | date (day : Int64)
  /-- Nanoseconds since midnight. -/
  | timeOfDay (nanos : UInt64)
  | timePoint (point : TimePoint)
  | zonedTimeOfDay (time : ZonedTimeOfDay)
  | zonedTimePoint (point : ZonedTimePoint)
  | interval (span : Interval)
  | row (elements : List Value)
  | array (elements : List Value)
  deriving Repr

namespace Value

/-- The kind of a value. A decimal counts as one even where it travels as an integer. -/
def kind : Value → Kind
  | null => .null
  | int _ => .int
  | float4 _ => .float4
  | float8 _ => .float8
  | decimal _ => .decimal
  | character _ => .character
  | octet _ => .octet
  | bit _ => .bit
  | date _ => .date
  | timeOfDay _ => .timeOfDay
  | timePoint _ => .timePoint
  | zonedTimeOfDay _ => .zonedTimeOfDay
  | zonedTimePoint _ => .zonedTimePoint
  | interval _ => .interval
  | row _ => .row
  | array _ => .array

/-- Whether the value is null. -/
def isNull : Value → Bool
  | null => true
  | _ => false

end Value

end QueryLink
