import QueryLink.Value
import QueryLink.Value.Error
import QueryLink.Varint

/-! # Reading values

A `Reader` takes bytes from the front of its input. It answers with what it read or why it could
not, and always with the bytes that are left: a failing reader keeps what it had consumed up to
the failure, unless it is wrapped in `attempt`, which then consumes nothing.

* `peekKind`, `header`                 look at the next entry
* `int`, `decimal`, `character`, …     read an entry of a known kind
* `value`                              read the next entry, whatever it is
* `skip`                               step over the next entry without building it -/

namespace QueryLink

/-- A reader of an `α` from the front of some bytes; the bytes left come with every answer. -/
def Reader (α : Type) : Type := Bytes → Except ValueError α × Bytes

namespace Reader

/-- Reads nothing and fails. -/
def fail {α : Type} (e : ValueError) : Reader α := fun bs => (.error e, bs)

instance : Monad Reader where
  pure a := fun bs => (.ok a, bs)
  bind r f := fun bs =>
    match r bs with
    | (.ok a, rest) => f a rest
    | (.error e, rest) => (.error e, rest)

/-- The same reader, but a failure consumes nothing. -/
def attempt {α : Type} (r : Reader α) : Reader α := fun bs =>
  match r bs with
  | (.ok a, rest) => (.ok a, rest)
  | (.error e, _) => (.error e, bs)

/-! ## Pieces -/

/-- The kind of the next entry, which stays. No bytes left counts as the end of contents. -/
def peekKind : Reader Kind := fun bs =>
  match bs with
  | [] => (.ok .endOfContents, bs)
  | tag :: _ =>
    match Kind.ofTag? tag with
    | some kind => (.ok kind, bs)
    | none => (.error (.unknownTag tag), bs)

/-- Takes the tag of an entry of the asked kind. -/
def header (expected : Kind) : Reader UInt8 := fun bs =>
  match bs with
  | [] => (.error .brokenEncoding, bs)
  | tag :: rest =>
    match Kind.ofTag? tag with
    | none => (.error (.unknownTag tag), bs)
    | some found =>
      if found = expected then (.ok tag, rest) else (.error (.typeMismatch expected found), bs)

/-- Takes the next `n` bytes; takes nothing when there are fewer. -/
def take (n : Nat) : Reader Bytes := fun bs =>
  match Bytes.cut? n bs with
  | some (taken, rest) => (.ok taken, rest)
  | none => (.error .brokenEncoding, bs)

/-- Takes an unsigned number; a number cut short takes all that is left. -/
def unsigned : Reader UInt64 := fun bs =>
  match Varint.decode? bs with
  | some (n, rest) => (.ok n, rest)
  | none => (.error .brokenEncoding, [])

/-- Takes a signed number; a number cut short takes all that is left. -/
def signed : Reader Int64 := fun bs =>
  match Varint.decodeSigned? bs with
  | some (n, rest) => (.ok n, rest)
  | none => (.error .brokenEncoding, [])

/-- Takes a signed number that has to fit 32 bits. -/
def short (what : Quantity) : Reader Int32 := do
  let n ← signed
  if -0x80000000 ≤ n.toInt ∧ n.toInt < 0x80000000 then return Int32.ofInt n.toInt
  else fail (.overflow what)

/-- The count that follows `tag`, or that `tag` stands for. -/
def countBody (c : Counted) (tag : UInt8) : Reader Nat :=
  if tag = c.full then do return (← attempt unsigned).toNat
  else return tag.toNat - c.base.toNat + 1

/-! ## Entries of one kind -/

/-- Takes a null. -/
def null : Reader Unit := do
  let _ ← header .null

/-- Takes a null if the next entry is one, and says whether it was. -/
def null? : Reader Bool := do
  match ← peekKind with
  | .null => null; return true
  | _ => return false

/-- Takes the end of contents; no bytes left is as good. -/
def endOfContents : Reader Unit := fun bs =>
  match bs with
  | [] => (.ok (), [])
  | _ => (do let _ ← header .endOfContents : Reader Unit) bs

/-- The integer that `tag` stands for, or that follows it. -/
def intBody (tag : UInt8) : Reader Int64 :=
  if tag.toNat < Tag.smallInts then return Int64.ofInt tag.toNat
  else if Tag.negativeInts ≤ tag && tag < Counted.octet.base then
    return Int64.ofInt (tag.toNat - Tag.negativeInts.toNat + Tag.lowestInt)
  else attempt signed

/-- Takes an integer. -/
def int : Reader Int64 := do
  intBody (← header .int)

/-- Takes the bits of a float of 32 bits. -/
def float4 : Reader UInt32 := do
  let _ ← header .float4
  return UInt32.ofNat (Bytes.ofBigEndian (← take 4))

/-- Takes the bits of a float of 64 bits. -/
def float8 : Reader UInt64 := do
  let _ ← header .float8
  return UInt64.ofNat (Bytes.ofBigEndian (← take 8))

/-- The two's complement number of at most 16 bytes, most significant first. -/
def signedOfBytes (bs : Bytes) : Int :=
  let n : Int := Bytes.ofBigEndian bs
  match bs with
  | b :: _ => if 0x80 ≤ b then n - Nat.pow 256 bs.length else n
  | [] => 0

/-- What follows the tag of a decimal. -/
def decimalBody (tag : UInt8) : Reader Decimal := do
  let exponent ← short .decimalExponent
  if tag = Tag.compactDecimal then
    return ⟨BitVec.ofInt 128 (← signed).toInt, exponent⟩
  else
    let length := (← unsigned).toNat
    if 16 < length then fail (.overflow .decimalCoefficient)
    else return ⟨BitVec.ofInt 128 (signedOfBytes (← take length)), exponent⟩

/-- Takes a decimal, or an integer as one. -/
def decimal : Reader Decimal := do
  match ← peekKind with
  | .int => return Decimal.ofInt64 (← int)
  | _ => attempt (decimalBody (← header .decimal))

/-- Takes a text. -/
def character : Reader String := do
  let n ← countBody .character (← header .character)
  match Utf8.decode (← take n) with
  | .ok s => return s
  | .error fault => fail (.utf8 fault)

/-- Takes a string of bytes. -/
def octet : Reader Bytes := do
  take (← countBody .octet (← header .octet))

/-- Takes a bit string. -/
def bit : Reader BitString := do
  let n ← countBody .bit (← header .bit)
  match BitString.ofData? n (← take (bytesForBits n)) with
  | some bits => return bits
  | none => fail .brokenEncoding

/-- Takes a date. -/
def date : Reader Int64 := do
  let _ ← header .date
  attempt signed

/-- Takes a time of day. -/
def timeOfDay : Reader UInt64 := do
  let _ ← header .timeOfDay
  attempt unsigned

/-- The seconds and nanoseconds of a time point; the latter are below one second. -/
def pointBody : Reader TimePoint := do
  let seconds ← signed
  let nanos ← unsigned
  if nanos.toNat < 1000000000 then return ⟨seconds, UInt32.ofNat nanos.toNat⟩
  else fail (.overflow .nanosecondAdjustment)

/-- Takes a time point. -/
def timePoint : Reader TimePoint := do
  let _ ← header .timePoint
  attempt pointBody

/-- Takes a time of day with its offset. -/
def zonedTimeOfDay : Reader ZonedTimeOfDay := do
  let _ ← header .zonedTimeOfDay
  attempt do
    let nanos ← unsigned
    return ⟨nanos, ← short .zoneOffset⟩

/-- Takes a time point with its offset. -/
def zonedTimePoint : Reader ZonedTimePoint := do
  let _ ← header .zonedTimePoint
  attempt do
    let point ← pointBody
    return ⟨point, ← short .zoneOffset⟩

/-- Takes a span of calendar time. -/
def interval : Reader Interval := do
  let _ ← header .interval
  attempt do
    let year ← short .intervalYear
    let month ← short .intervalMonth
    let day ← short .intervalDay
    return ⟨year, month, day, ← signed⟩

/-- Takes the header of a row: the count of its elements. -/
def rowBegin : Reader Nat := do
  countBody .row (← header .row)

/-- Takes the header of an array: the count of its elements. -/
def arrayBegin : Reader Nat := do
  countBody .array (← header .array)

/-! ## Entries of any kind -/

/-- How many levels of rows and arrays `value` builds. -/
def maxDepth : Nat := 64

/-- Takes `n` entries, each of them a value; `sofar` holds the ones before, last first. -/
def elements (entry : Reader (Option Value)) : (n : Nat) → (sofar : List Value) →
    Reader (List Value)
  | 0, sofar => return sofar.reverse
  | n + 1, sofar => do
    match ← entry with
    | some v => elements entry n (v :: sofar)
    | none => fail .brokenEncoding

/-- Takes an entry, `none` at the end of contents. What a row or an array holds is taken by
`rowElements` and `arrayElements`, header included. -/
def entry (rowElements arrayElements : Reader (List Value)) : Reader (Option Value) := do
  match ← peekKind with
  | .endOfContents => endOfContents; return none
  | .null => null; return some .null
  | .int => return some (.int (← int))
  | .float4 => return some (.float4 (← float4))
  | .float8 => return some (.float8 (← float8))
  | .decimal => return some (.decimal (← decimal))
  | .character => return some (.character (← character))
  | .octet => return some (.octet (← octet))
  | .bit => return some (.bit (← bit))
  | .date => return some (.date (← date))
  | .timeOfDay => return some (.timeOfDay (← timeOfDay))
  | .timePoint => return some (.timePoint (← timePoint))
  | .zonedTimeOfDay => return some (.zonedTimeOfDay (← zonedTimeOfDay))
  | .zonedTimePoint => return some (.zonedTimePoint (← zonedTimePoint))
  | .interval => return some (.interval (← interval))
  | .row => return some (.row (← rowElements))
  | .array => return some (.array (← arrayElements))

/-- Refuses to go one level deeper. -/
def tooDeep {α : Type} : Reader α := fail (.overflow .nestingDepth)

/-- Takes an entry whose rows and arrays nest at most `levels` deep. -/
def nested : (levels : Nat) → Reader (Option Value)
  | 0 => entry tooDeep tooDeep
  | levels + 1 =>
    entry (do elements (nested levels) (← rowBegin) [])
      (do elements (nested levels) (← arrayBegin) [])

/-- Takes the next value with all it holds, `none` at the end of contents, whose mark is taken
as well. A failure takes nothing. -/
def value : Reader (Option Value) :=
  attempt (nested maxDepth)

/-- Steps over the next entry, but of a row or an array over the header only, and answers how
many elements that announces. -/
def skipEntry (kind : Kind) : Reader Nat :=
  match kind with
  | .row => rowBegin
  | .array => arrayBegin
  | _ => do
    let _ ← nested 0
    return 0

/-- Steps over entries until `left` of them are passed, looking at no more than `fuel`. A row or
an array adds its elements to `left` when `deep` is set. Answers whether all were there. -/
def skipEntries (deep : Bool) : (fuel left : Nat) → Reader Bool
  | _, 0 => return true
  | 0, _ + 1 => return false
  | fuel + 1, left + 1 => do
    match ← peekKind with
    | .endOfContents => return false
    | kind =>
      let n ← skipEntry kind
      let left := if deep then left + n else left
      if UInt64.size ≤ left then fail (.overflow .length) else skipEntries deep fuel left

/-- Steps over the next value, or over its header alone unless `deep` is set. Answers `false`
and takes nothing when the bytes end first or contents do. -/
def skip (deep : Bool) : Reader Bool := fun bs =>
  match skipEntries deep (bs.length + 1) 1 bs with
  | (.ok true, rest) => (.ok true, rest)
  | (.ok false, _) => (.ok false, bs)
  | (.error .brokenEncoding, _) => (.ok false, bs)
  | (.error e, _) => (.error e, bs)

/-- Takes values from the front of some bytes, at most `most`, `none` for each mark of the end of
contents. It stops at the first failure, which is the last answer, and where the bytes end, be it
after a value or after a mark. The answer comes with the bytes left. -/
def values : (most : Nat) → Bytes → List (Except ValueError (Option Value)) × Bytes
  | 0, bs => ([], bs)
  | most + 1, bs =>
    match value bs with
    | (.error e, rest) => ([.error e], rest)
    | (.ok none, []) => ([], [])
    | (.ok v, rest) =>
      let (more, left) := values most rest
      (.ok v :: more, left)

end Reader

end QueryLink
