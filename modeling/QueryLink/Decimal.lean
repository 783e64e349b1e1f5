import QueryLink.Bytes

/-! # Decimal numbers

A decimal is a whole coefficient of 128 bits times a power of ten. Several decimals denote one
number; `Decimal.reduce` picks a short one among those with a negative exponent.

* `reduce`      strips zeros while the exponent is negative
* `toInt64?`    the number as a 64-bit integer
* `text`        the number in decimal notation -/

namespace QueryLink

/-- The number `coefficient * 10 ^ exponent`; the coefficient is a two's complement word. -/
structure Decimal where
  coefficient : BitVec 128
  exponent : Int32
  deriving Repr, DecidableEq

namespace Decimal

/-- The decimal of an integer. -/
def ofInt64 (n : Int64) : Decimal :=
  ⟨BitVec.ofInt 128 n.toInt, 0⟩

/-- Divides `c` by ten as long as it is an even division and the exponent, `-s`, is below zero.
The answer is the coefficient and what is left of `s`. -/
def strip : (s : Nat) → (c : Int) → Int × Nat
  | 0, c => (c, 0)
  | s + 1, c =>
    if c ≠ 0 ∧ c.tmod 10 = 0 then strip s (c.tdiv 10) else (c, s + 1)

/-- The same number with the fewest decimal places. Zero loses them all. -/
def reduce (d : Decimal) : Decimal :=
  let c := d.coefficient.toInt
  let e := d.exponent.toInt
  let (c', places) := strip (-e).toNat c
  let e' := if e < 0 then -(places : Int) else e
  ⟨BitVec.ofInt 128 c', Int32.ofInt (if c' = 0 then max e' 0 else e')⟩

/-- Whether `n` is a 128-bit two's complement number. -/
def fits128 (n : Int) : Bool :=
  -0x80000000000000000000000000000000 ≤ n && n < 0x80000000000000000000000000000000

/-- Whether `n` is a 64-bit two's complement number. -/
def fits64 (n : Int) : Bool :=
  -0x8000000000000000 ≤ n && n < 0x8000000000000000

/-- The highest power of ten that 128 bits hold. -/
def highestScale : Nat := 38

/-- The number as an integer, when it is whole and fits 64 bits. A scale above `10 ^ 38` is
refused, whatever the coefficient. -/
def toInt64? (d : Decimal) : Option Int64 :=
  let r := d.reduce
  let e := r.exponent.toInt
  if e < 0 ∨ highestScale < e then none
  else
    let n := r.coefficient.toInt * Nat.pow 10 e.toNat
    if fits64 n then some (Int64.ofInt n) else none

/-- The number in decimal notation: no point for a whole exponent, else as many places as the
exponent asks for and at least one digit before the point. -/
def text (d : Decimal) : String :=
  let c := d.coefficient.toInt
  let e := d.exponent.toInt
  let sign := if c < 0 then "-" else ""
  let digits := Nat.toDigits 10 c.natAbs
  if 0 ≤ e then
    sign ++ String.ofList (digits ++ List.replicate e.toNat '0')
  else
    let places := e.natAbs
    let padded := List.replicate (places + 1 - digits.length) '0' ++ digits
    let whole := padded.length - places
    sign ++ String.ofList (padded.take whole ++ '.' :: padded.drop whole)

end Decimal

end QueryLink
