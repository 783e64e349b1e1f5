import QueryLink.Proofs.DecimalCodec

/-!
# The canonical form of a value

Decimals that stand for one number may differ; on the wire they are told apart only as far as
`Value.canon` tells them apart. `Value.depth` and `Value.Portable` are what a value has to keep
within bounds to be read back.

## Key results

- `encode_canon`: the canonical form of a value has the same bytes
-/

namespace QueryLink

namespace Value

mutual

/-- The value with every decimal as an integer, where it is one, or else reduced. -/
def canon : Value → Value
  | decimal d =>
    match d.toInt64? with
    | some n => int n
    | none => decimal d.reduce
  | row elements => row (canonAll elements)
  | array elements => array (canonAll elements)
  | v => v

/-- The canonical forms of some values. -/
def canonAll : List Value → List Value
  | [] => []
  | v :: vs => v.canon :: canonAll vs

end

mutual

/-- How many levels of rows and arrays the value is nested. -/
def depth : Value → Nat
  | row elements => depthAll elements + 1
  | array elements => depthAll elements + 1
  | _ => 0

/-- The greatest depth of some values. -/
def depthAll : List Value → Nat
  | [] => 0
  | v :: vs => max v.depth (depthAll vs)

end

mutual

/-- All counts fit a word of 64 bits, and nanoseconds on top of a point in time stay below one
second. -/
def Portable : Value → Prop
  | character s => (Utf8.encode s).length < 2 ^ 64
  | octet bytes => bytes.length < 2 ^ 64
  | bit bits => bits.length < 2 ^ 64
  | timePoint p => p.nanos.toNat < 1000000000
  | zonedTimePoint p => p.point.nanos.toNat < 1000000000
  | row elements => elements.length < 2 ^ 64 ∧ PortableAll elements
  | array elements => elements.length < 2 ^ 64 ∧ PortableAll elements
  | _ => True

/-- Each of some values is portable. -/
def PortableAll : List Value → Prop
  | [] => True
  | v :: vs => v.Portable ∧ PortableAll vs

end

/-- Canonical forms are as many as there are values. -/
theorem length_canonAll (vs : List Value) : (canonAll vs).length = vs.length := by
  induction vs with
  | nil => rfl
  | cons v vs ih => rw [canonAll, List.length_cons, List.length_cons, ih]

mutual

/-- The canonical form of a value has the same bytes. -/
theorem encode_canon : (v : Value) → v.canon.encode = v.encode
  | decimal d => by
    cases h : d.toInt64? with
    | some n => simp only [canon, h, encode, Encode.decimal]
    | none => simp only [canon, h, encode, Encode.decimal, Decimal.toInt64?_reduce,
        Decimal.reduce_reduce]
  | row elements => by
    simp only [canon, encode, length_canonAll, encodeAll_canonAll elements]
  | array elements => by
    simp only [canon, encode, length_canonAll, encodeAll_canonAll elements]
  | null | int _ | float4 _ | float8 _ | character _ | octet _ | bit _ | date _ | timeOfDay _
  | timePoint _ | zonedTimeOfDay _ | zonedTimePoint _ | interval _ => rfl

/-- So have the canonical forms of some values. -/
theorem encodeAll_canonAll : (vs : List Value) → encodeAll (canonAll vs) = encodeAll vs
  | [] => rfl
  | v :: vs => by rw [canonAll, encodeAll, encodeAll, encode_canon v, encodeAll_canonAll vs]

end

end Value

end QueryLink
