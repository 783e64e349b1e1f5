import QueryLink.Bytes

/-! # Text as bytes

Text travels as UTF-8. `Utf8.decode` reads it back and refuses bytes that are no text; the
fault names the place where the well-formed part ends and how many bytes there can not start
or continue a character.

Main statements:

* `decode_encode`      every text is read back
* `encode_of_decode`   bytes that are read as a text are the bytes of that text -/

namespace QueryLink.Utf8

/-- Why some bytes are no text. -/
structure Fault where
  /-- The bytes before this index are well formed. -/
  index : Nat
  /-- How many bytes from `index` on are wrong; `none` when a character is merely cut short. -/
  width : Option Nat
  deriving Repr, DecidableEq

/-- The wording of a fault. -/
def Fault.message (fault : Fault) : String :=
  match fault.width with
  | some width => s!"invalid utf-8 sequence of {width} bytes from index {fault.index}"
  | none => s!"incomplete utf-8 byte sequence from index {fault.index}"

/-- A byte that continues a character. -/
def isContinuation (b : UInt8) : Bool :=
  0x80 ≤ b && b ≤ 0xbf

/-- How many bytes the character started by `b` takes; `none` when `b` starts none. -/
def width? (b : UInt8) : Option Nat :=
  if b < 0x80 then some 1
  else if 0xc2 ≤ b && b ≤ 0xdf then some 2
  else if 0xe0 ≤ b && b ≤ 0xef then some 3
  else if 0xf0 ≤ b && b ≤ 0xf4 then some 4
  else none

/-- Whether `second` may follow the first byte `first` of a longer character: overlong forms,
surrogates and numbers above `0x10ffff` are kept out here. -/
def isSecond (first second : UInt8) : Bool :=
  if first = 0xe0 then 0xa0 ≤ second && second ≤ 0xbf
  else if first = 0xed then 0x80 ≤ second && second ≤ 0x9f
  else if first = 0xf0 then 0x90 ≤ second && second ≤ 0xbf
  else if first = 0xf4 then 0x80 ≤ second && second ≤ 0x8f
  else isContinuation second

/-- How many of the first `wanted` bytes continue a character, or the count reached where the
bytes end. -/
def continued : (wanted : Nat) → Bytes → Except Nat Nat
  | 0, _ => .ok 0
  | _ + 1, [] => .error 0
  | wanted + 1, b :: rest =>
    if isContinuation b then
      match continued wanted rest with
      | .ok n => .ok (n + 1)
      | .error n => .error (n + 1)
    else .ok 0

/-- The width of the character at the front, or the width of what is wrong there (`none` when
the character is cut short). -/
def front : Bytes → Except (Option Nat) Nat
  | [] => .error none
  | first :: rest =>
    match width? first with
    | none => .error (some 1)
    | some width =>
      if width = 1 then .ok 1
      else match rest with
        | [] => .error none
        | second :: rest =>
          if !isSecond first second then .error (some 1)
          else match continued (width - 2) rest with
            | .error _ => .error none
            | .ok n => if n = width - 2 then .ok width else .error (some (n + 2))

/-- The first fault in `bs`, which start at `index`, looking at no more than `fuel` characters. -/
def faultFrom : (fuel index : Nat) → Bytes → Option Fault
  | 0, _, _ => none
  | _ + 1, _, [] => none
  | fuel + 1, index, b :: bs =>
    match front (b :: bs) with
    | .ok width => faultFrom fuel (index + width) ((b :: bs).drop width)
    | .error width => some ⟨index, width⟩

/-- The first fault in `bs`, if there is one. -/
def fault? (bs : Bytes) : Option Fault :=
  faultFrom bs.length 0 bs

/-- The bytes of a text. -/
def encode (s : String) : Bytes :=
  s.toByteArray.data.toList

/-- The text of some bytes. -/
def decode (bs : Bytes) : Except Fault String :=
  match String.fromUTF8? ⟨bs.toArray⟩ with
  | some s => .ok s
  | none => .error ((fault? bs).getD ⟨0, none⟩)

theorem decode_encode (s : String) : decode (encode s) = .ok s := by
  have bytes : (⟨(encode s).toArray⟩ : ByteArray) = s.toByteArray := by
    rw [encode, Array.toArray_toList]
  rw [decode, bytes, String.fromUTF8?, dif_pos s.isValidUTF8]
  rfl

theorem encode_of_decode {bs : Bytes} {s : String} (read : decode bs = .ok s) :
    encode s = bs := by
  rw [decode, String.fromUTF8?] at read
  split at read
  · rename_i found
    split at found
    · cases found
      cases read
      rfl
    · cases found
  · cases read

/-- The part of `s` between the byte positions `start` and `stop`; `none` when they are out of
order or out of range, or cut a character. -/
def slice? (s : String) (start stop : Nat) : Option String :=
  if start ≤ stop && stop ≤ s.utf8ByteSize then
    match decode ((encode s).take start), decode (((encode s).drop start).take (stop - start)) with
    | .ok _, .ok part => some part
    | _, _ => none
  else none

/-- What a slice of another text is taken for: only the empty one is part of every text. -/
def foreignSlice? (other : String) : Option String :=
  if other.isEmpty then some "" else none

end QueryLink.Utf8
