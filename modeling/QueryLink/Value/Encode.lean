import QueryLink.Text.Utf8
import QueryLink.Value
import QueryLink.Varint

/-! # Values as bytes

Each value is one tag and then its payload. `Value.encode` writes a whole value; the pieces it
is made of can be written on their own, so that a row or an array may be streamed after its
header. -/

namespace QueryLink.Encode

/-- The tag of a null. -/
def null : Bytes := [Tag.null]

/-- The mark that ends a sequence of values. -/
def endOfContents : Bytes := [Tag.endOfContents]

/-- An integer: a tag of its own near zero, else the full form. -/
def int (n : Int64) : Bytes :=
  let i := n.toInt
  if 0 ≤ i ∧ i < Tag.smallInts then [UInt8.ofNat i.toNat]
  else if Tag.lowestInt ≤ i ∧ i < 0 then
    [Tag.negativeInts + UInt8.ofNat (i - Tag.lowestInt).toNat]
  else Tag.int :: Varint.encodeSigned n

/-- A count, folded into the tag when that is possible. -/
def count (c : Counted) (n : Nat) : Bytes :=
  if 1 ≤ n ∧ n ≤ c.most then [c.base + UInt8.ofNat (n - 1)]
  else c.full :: Varint.encode (UInt64.ofNat n)

/-- How many leading bytes of a two's complement number, most significant first, only repeat
the sign of the byte after them. -/
def redundantSigns : Bytes → Nat
  | head :: next :: rest =>
    if (head = 0x00 ∧ next < 0x80) ∨ (head = 0xff ∧ 0x80 ≤ next) then
      redundantSigns (next :: rest) + 1
    else 0
  | _ => 0

/-- The shortest two's complement bytes of a 128-bit number, most significant first. -/
def shortestSigned (c : BitVec 128) : Bytes :=
  let bytes := Bytes.bigEndian 16 c.toNat
  bytes.drop (redundantSigns bytes)

/-- A decimal: an integer when it is one, else the reduced decimal, whose coefficient takes the
compact form when it fits 64 bits. -/
def decimal (d : Decimal) : Bytes :=
  match d.toInt64? with
  | some n => int n
  | none =>
    let r := d.reduce
    let exponent := Varint.encodeSigned (Int64.ofInt r.exponent.toInt)
    let c := r.coefficient.toInt
    if Decimal.fits64 c then
      Tag.compactDecimal :: (exponent ++ Varint.encodeSigned (Int64.ofInt c))
    else
      let digits := shortestSigned r.coefficient
      Tag.wideDecimal ::
        (exponent ++ Varint.encode (UInt64.ofNat digits.length) ++ digits)

/-- The seconds and nanoseconds of a time point. -/
def pointBody (p : TimePoint) : Bytes :=
  Varint.encodeSigned p.seconds ++ Varint.encode (UInt64.ofNat p.nanos.toNat)

/-- A number of 32 bits, signed. -/
def short (n : Int32) : Bytes :=
  Varint.encodeSigned (Int64.ofInt n.toInt)

end Encode

mutual

/-- The bytes of a value. -/
def Value.encode : Value → Bytes
  | .null => Encode.null
  | .int n => Encode.int n
  | .float4 bits => Tag.float4 :: Bytes.bigEndian 4 bits.toNat
  | .float8 bits => Tag.float8 :: Bytes.bigEndian 8 bits.toNat
  | .decimal d => Encode.decimal d
  | .character s =>
    let bytes := Utf8.encode s
    Encode.count .character bytes.length ++ bytes
  | .octet bytes => Encode.count .octet bytes.length ++ bytes
  | .bit bits => Encode.count .bit bits.length ++ bits.data
  | .date day => Tag.date :: Varint.encodeSigned day
  | .timeOfDay nanos => Tag.timeOfDay :: Varint.encode nanos
  | .timePoint p => Tag.timePoint :: Encode.pointBody p
  | .zonedTimeOfDay t =>
    Tag.zonedTimeOfDay :: (Varint.encode t.nanos ++ Encode.short t.offset)
  | .zonedTimePoint p =>
    Tag.zonedTimePoint :: (Encode.pointBody p.point ++ Encode.short p.offset)
  | .interval span =>
    Tag.interval :: (Encode.short span.year ++ Encode.short span.month ++ Encode.short span.day
      ++ Varint.encodeSigned span.nanos)
  | .row elements => Encode.count .row elements.length ++ Value.encodeAll elements
  | .array elements => Encode.count .array elements.length ++ Value.encodeAll elements

/-- The bytes of some values, one after the other. -/
def Value.encodeAll : List Value → Bytes
  | [] => []
  | v :: vs => v.encode ++ Value.encodeAll vs

end

end QueryLink
