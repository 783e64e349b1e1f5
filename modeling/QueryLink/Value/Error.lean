import QueryLink.Text.Utf8
import QueryLink.Value.Kind

/-! # Why a value can not be read -/

namespace QueryLink

/-- The numbers whose range is checked. -/
inductive Quantity where
  | decimalExponent
  | decimalCoefficient
  | length
  | nestingDepth
  | nanosecondAdjustment
  | zoneOffset
  | intervalYear
  | intervalMonth
  | intervalDay
  | date
  | timeOfDay
  | timePoint
  deriving Repr, DecidableEq

/-- The name of a quantity in messages. -/
def Quantity.name : Quantity → String
  | decimalExponent => "decimal exponent"
  | decimalCoefficient => "decimal coefficient"
  | length => "length"
  | nestingDepth => "nesting depth"
  | nanosecondAdjustment => "time point nanosecond adjustment"
  | zoneOffset => "time zone offset"
  | intervalYear => "interval year"
  | intervalMonth => "interval month"
  | intervalDay => "interval day"
  | date => "date"
  | timeOfDay => "time of day"
  | timePoint => "time point"

/-- Why a value can not be read or converted. -/
inductive ValueError where
  /-- The bytes end in the middle of a value. -/
  | brokenEncoding
  /-- The next entry is of another kind than the asked one. -/
  | typeMismatch (expected found : Kind)
  /-- The tag means nothing. -/
  | unknownTag (tag : UInt8)
  /-- A number does not fit where it is to go. -/
  | overflow (what : Quantity)
  /-- A text is not well formed. -/
  | utf8 (fault : Utf8.Fault)
  deriving Repr, DecidableEq

/-- One hexadecimal digit, lower case. -/
def hexDigit (n : Nat) : Char :=
  if n < 10 then Char.ofNat (48 + n) else Char.ofNat (87 + n)

/-- The two hexadecimal digits of a byte. -/
def hexByte (b : UInt8) : String :=
  String.ofList [hexDigit (b.toNat / 16), hexDigit (b.toNat % 16)]

/-- The wording of a value error. -/
def ValueError.message : ValueError → String
  | brokenEncoding => "broken value encoding, unexpected end of input"
  | typeMismatch expected found =>
    "expected `" ++ expected.name ++ "` found `" ++ found.name ++ "`"
  | unknownTag tag => "unknown value tag 0x" ++ hexByte tag
  | overflow what => what.name ++ " out of range"
  | utf8 fault => fault.message

end QueryLink
