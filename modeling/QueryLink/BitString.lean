import QueryLink.Bytes

/-! # Bit strings

Bits are packed eight to a byte, first bit lowest. The bits of the last byte beyond the length
are padding; they travel as they are but `ofList` leaves them zero. -/

namespace QueryLink

/-- How many bytes hold `n` bits. -/
def bytesForBits (n : Nat) : Nat := (n + 7) / 8

/-- A packed string of `length` bits. -/
structure BitString where
  length : Nat
  data : Bytes
  size_data : data.length = bytesForBits length
  deriving Repr, DecidableEq

namespace BitString

/-- The bit string of `length` bits packed in `data`, when that is the right count of bytes. -/
def ofData? (length : Nat) (data : Bytes) : Option BitString :=
  if h : data.length = bytesForBits length then some ⟨length, data, h⟩ else none

/-- Whether there are no bits. -/
def isEmpty (b : BitString) : Bool := b.length == 0

/-- The bit at position `n`, `none` past the end. -/
def get? (b : BitString) (n : Nat) : Option Bool :=
  if n < b.length then b.data[n / 8]?.map fun byte => byte.toNat.testBit (n % 8) else none

/-- The eight bits of a byte, lowest first. -/
def bitsOfByte (byte : UInt8) : List Bool :=
  (List.range 8).map byte.toNat.testBit

/-- The bits, first bit first. -/
def toList (b : BitString) : List Bool :=
  (b.data.flatMap bitsOfByte).take b.length

/-- The byte of at most eight bits, lowest first, the missing ones zero. -/
def byteOfBits (bits : List Bool) : UInt8 :=
  UInt8.ofNat (bits.foldr (fun bit n => bit.toNat + 2 * n) 0)

/-- The bits of `bits` packed eight to a byte. -/
def pack (bits : List Bool) : Bytes :=
  (List.range (bytesForBits bits.length)).map fun i => byteOfBits ((bits.drop (8 * i)).take 8)

/-- The bit string of a list of bits, its padding zero. -/
def ofList (bits : List Bool) : BitString :=
  ⟨bits.length, pack bits, by simp [pack]⟩

end BitString

end QueryLink
