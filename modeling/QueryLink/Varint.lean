import QueryLink.Bytes

/-! # Variable length integers

A 64-bit number is written in groups of seven bits, least significant group first. Every group
but the last carries the continuation bit `0x80`. After eight continued groups one last byte
holds the top eight bits as they are, so no number takes more than nine bytes.

Signed numbers are first folded onto the unsigned ones, `0, -1, 1, -2, …`, so that numbers
near zero stay short.

* `encode`, `decode?`               unsigned numbers
* `encodeSigned`, `decodeSigned?`   signed numbers
* `size`, `sizeSigned`              the count of bytes written -/

namespace QueryLink.Varint

/-- How many groups of seven bits are written before the byte of eight. -/
def groups : Nat := 8

/-- The bytes of `n` when at most `k` continued groups may still be written. -/
def encodeGroups : (k n : Nat) → Bytes
  | 0, n => [UInt8.ofNat n]
  | k + 1, n =>
    if n < 128 then [UInt8.ofNat n]
    else UInt8.ofNat (n % 128 + 128) :: encodeGroups k (n / 128)

/-- The bytes of an unsigned number. -/
def encode (n : UInt64) : Bytes :=
  encodeGroups groups n.toNat

/-- Reads a number of at most `k` continued groups; `none` when the bytes run out. -/
def decodeGroups : (k : Nat) → Bytes → Option (Nat × Bytes)
  | _, [] => none
  | 0, b :: rest => some (b.toNat, rest)
  | k + 1, b :: rest =>
    if b.toNat < 128 then some (b.toNat, rest)
    else (decodeGroups k rest).map fun (n, rest) => (b.toNat % 128 + 128 * n, rest)

/-- Reads an unsigned number from the front; `none` when the bytes run out first. -/
def decode? (bs : Bytes) : Option (UInt64 × Bytes) :=
  (decodeGroups groups bs).map fun (n, rest) => (UInt64.ofNat n, rest)

/-- Folds the signed numbers onto the unsigned ones: `0, -1, 1, -2, …` become `0, 1, 2, 3, …`. -/
def fold (n : Int) : Nat :=
  if 0 ≤ n then 2 * n.toNat else 2 * (-n).toNat - 1

/-- The signed number that `fold` takes to `n`. -/
def unfold (n : Nat) : Int :=
  if n % 2 = 0 then (n / 2 : Nat) else -((n / 2 : Nat) : Int) - 1

/-- The bytes of a signed number. -/
def encodeSigned (n : Int64) : Bytes :=
  encode (UInt64.ofNat (fold n.toInt))

/-- Reads a signed number from the front; `none` when the bytes run out first. -/
def decodeSigned? (bs : Bytes) : Option (Int64 × Bytes) :=
  (decode? bs).map fun (n, rest) => (Int64.ofInt (unfold n.toNat), rest)

/-- How many bits the number `n` takes, none for zero. -/
def bitLength (n : Nat) : Nat :=
  if n = 0 then 0 else Nat.log2 n + 1

/-- How many bytes `encode` writes: one for each seven bits begun, nine above 56 bits. -/
def size (n : UInt64) : Nat :=
  let bits := bitLength n.toNat
  if bits > 7 * groups then groups + 1 else if bits = 0 then 1 else (bits + 6) / 7

/-- How many bytes `encodeSigned` writes. -/
def sizeSigned (n : Int64) : Nat :=
  size (UInt64.ofNat (fold n.toInt))

theorem unfold_fold (n : Int) : unfold (fold n) = n := by
  unfold unfold fold
  split <;> split <;> omega

end QueryLink.Varint
