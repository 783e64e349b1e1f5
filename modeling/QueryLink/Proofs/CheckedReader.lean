import QueryLink.Proofs.ReaderProgress
import QueryLink.Proofs.SignBytes

/-!
# Readers that check every step

A `Reader` is total. Where bytes are split off that are not there, or a difference falls below
zero, it answers all the same. A `Checked` reader does the same work step by step, but a step that
is not possible stops it, and then there is no answer at all. It also counts the entries that it
looks at.

What is read of a single entry never stops: each checked reader here is the `lift` of the reader of
the same name. The steps rely on checks made before them, the tag on the kind it was found to have
and the bytes of a bit string on the count they were taken by; `Reader.Gives` hands such facts on.

## Key results

- `groups_eq`: the shifts of a number stay within the word
- `countBody_eq`: a tag that stands for a count is not below the first such tag
- `bit_eq`: the bytes of a bit string are as many as its bits ask for
- `int_eq`, `decimal_eq`, `character_eq`, …: so entries of every kind are read without stopping
-/

namespace QueryLink

variable {α β : Type}

/-! ## Checked readers -/

/-- Where a checked reader stands. -/
structure Meter where
  /-- The bytes left. -/
  left : Bytes
  /-- How many entries were looked at. -/
  entries : Nat
  deriving Repr, DecidableEq

/-- A reader that checks every step; it stops, with no answer, where a step is not possible. -/
def Checked (α : Type) : Type := Meter → Option (Except ValueError α × Meter)

namespace Checked

instance : Monad Checked where
  pure a := fun m => some (.ok a, m)
  bind c f := fun m =>
    match c m with
    | some (.ok a, m) => f a m
    | some (.error e, m) => some (.error e, m)
    | none => none

/-- Stops. -/
def stop : Checked α := fun _ => none

/-- Reads nothing and fails, which is an answer. -/
def fail (e : ValueError) : Checked α := fun m => some (.error e, m)

/-- The same reader, but a failure takes nothing. The entries it looked at still count. -/
def attempt (c : Checked α) : Checked α := fun m =>
  match c m with
  | some (.ok a, after) => some (.ok a, after)
  | some (.error e, after) => some (.error e, { after with left := m.left })
  | none => none

/-- The bytes left, which stay. -/
def unread : Checked Bytes := fun m => some (.ok m.left, m)

/-- Counts an entry. -/
def inspect : Checked Unit := fun m => some (.ok (), { m with entries := m.entries + 1 })

/-! ### Steps that may not be possible -/

/-- Goes on only if `p` holds. -/
def assert (p : Prop) [Decidable p] : Checked Unit :=
  if p then pure () else stop

/-- Splits off the first `n` bytes. -/
def splitTo (n : Nat) : Checked Bytes := fun m =>
  if n ≤ m.left.length then some (.ok (m.left.take n), { m with left := m.left.drop n }) else none

/-- Takes the first byte. -/
def byte : Checked UInt8 := fun m =>
  match m.left with
  | b :: rest => some (.ok b, { m with left := rest })
  | [] => none

/-- A difference that does not fall below zero. -/
def minus (a b : Nat) : Checked Nat := do
  assert (b ≤ a)
  return a - b

/-- A word shifted by less than its width. -/
def shiftLeft (a : UInt64) (n : Nat) : Checked UInt64 := do
  assert (n < 64)
  return a <<< UInt64.ofNat n

/-- Two's complement bytes copied to the end of `width` bytes, which their sign fills. -/
def widen (width : Nat) (bs : Bytes) : Checked Bytes := do
  let start ← minus width bs.length
  let wide := List.replicate width bs.signByte
  assert (start ≤ wide.length)
  assert ((wide.drop start).length = bs.length)
  return wide.take start ++ bs

/-- The bit string of `length` bits, packed in as many bytes as they need. -/
def bitString (length : Nat) (data : Bytes) : Checked BitString :=
  match BitString.ofData? length data with
  | some bits => pure bits
  | none => stop

/-! ### Pieces -/

/-- Fails when there are fewer than `n` bytes. -/
def require (n : Nat) : Checked Unit := do
  if (← unread).length < n then fail .brokenEncoding

/-- Takes the next `n` bytes; takes nothing when there are fewer. -/
def take (n : Nat) : Checked Bytes := do
  require n
  splitTo n

/-- The kind of the next entry, which stays. -/
def peekKind : Checked Kind := do
  match ← unread with
  | [] => return .endOfContents
  | tag :: _ =>
    match Kind.ofTag? tag with
    | some kind => return kind
    | none => fail (.unknownTag tag)

/-- Takes the tag of an entry of the asked kind. -/
def header (expected : Kind) : Checked UInt8 := do
  match ← unread with
  | [] => fail .brokenEncoding
  | tag :: _ =>
    match Kind.ofTag? tag with
    | none => fail (.unknownTag tag)
    | some found =>
      if found = expected then byte else fail (.typeMismatch expected found)

/-- Takes the groups of a number from the one at `i` on, at most `k` of which may be continued;
`value` holds the groups before. -/
def groups : (k i : Nat) → (value : UInt64) → Checked UInt64
  | 0, i, value => do
    require 1
    return value ||| (← shiftLeft (← byte).toUInt64 (7 * i))
  | k + 1, i, value => do
    require 1
    let group ← byte
    let value := value ||| (← shiftLeft (group &&& 0x7f).toUInt64 (7 * i))
    if group &&& 0x80 = 0 then return value else groups k (i + 1) value

/-- Takes an unsigned number. -/
def unsigned : Checked UInt64 := groups Varint.groups 0 0

/-- Takes a signed number. -/
def signed : Checked Int64 := do
  return Int64.ofInt (Varint.unfold (← unsigned).toNat)

/-- Takes a signed number that has to fit 32 bits. -/
def short (what : Quantity) : Checked Int32 := do
  let n ← signed
  if -0x80000000 ≤ n.toInt ∧ n.toInt < 0x80000000 then return Int32.ofInt n.toInt
  else fail (.overflow what)

/-- The count that follows `tag`, or that `tag` stands for. -/
def countBody (c : Counted) (tag : UInt8) : Checked Nat :=
  if tag = c.full then do return (← attempt unsigned).toNat
  else do return (← minus tag.toNat c.base.toNat) + 1

/-! ### Entries of one kind -/

/-- Takes a null. -/
def null : Checked Unit := do
  let _ ← header .null

/-- Takes a null if the next entry is one, and says whether it was. -/
def null? : Checked Bool := do
  match ← peekKind with
  | .null => null; return true
  | _ => return false

/-- Takes the end of contents; no bytes left is as good. -/
def endOfContents : Checked Unit := do
  match ← unread with
  | [] => return ()
  | _ => let _ ← header .endOfContents

/-- The integer that `tag` stands for, or that follows it. -/
def intBody (tag : UInt8) : Checked Int64 :=
  if tag.toNat < Tag.smallInts then return Int64.ofInt tag.toNat
  else if Tag.negativeInts ≤ tag && tag < Counted.octet.base then do
    return Int64.ofInt ((← minus tag.toNat Tag.negativeInts.toNat) + Tag.lowestInt)
  else attempt signed

/-- Takes an integer. -/
def int : Checked Int64 := do
  intBody (← header .int)

/-- Takes the bits of a float of 32 bits. -/
def float4 : Checked UInt32 := do
  let _ ← header .float4
  return UInt32.ofNat (Bytes.ofBigEndian (← take 4))

/-- Takes the bits of a float of 64 bits. -/
def float8 : Checked UInt64 := do
  let _ ← header .float8
  return UInt64.ofNat (Bytes.ofBigEndian (← take 8))

/-- What follows the tag of a decimal. -/
def decimalBody (tag : UInt8) : Checked Decimal := do
  let exponent ← short .decimalExponent
  if tag = Tag.compactDecimal then
    return ⟨BitVec.ofInt 128 (← signed).toInt, exponent⟩
  else
    let length := (← unsigned).toNat
    if 16 < length then fail (.overflow .decimalCoefficient)
    else
      let wide ← widen 16 (← take length)
      return ⟨BitVec.ofInt 128 (Reader.signedOfBytes wide), exponent⟩

/-- Takes a decimal, or an integer as one. -/
def decimal : Checked Decimal := do
  match ← peekKind with
  | .int => return Decimal.ofInt64 (← int)
  | _ => attempt (decimalBody (← header .decimal))

/-- Takes a text. -/
def character : Checked String := do
  let n ← countBody .character (← header .character)
  match Utf8.decode (← take n) with
  | .ok s => return s
  | .error fault => fail (.utf8 fault)

/-- Takes a string of bytes. -/
def octet : Checked Bytes := do
  take (← countBody .octet (← header .octet))

/-- Takes a bit string. -/
def bit : Checked BitString := do
  let n ← countBody .bit (← header .bit)
  bitString n (← take (bytesForBits n))

/-- Takes a date. -/
def date : Checked Int64 := do
  let _ ← header .date
  attempt signed

/-- Takes a time of day. -/
def timeOfDay : Checked UInt64 := do
  let _ ← header .timeOfDay
  attempt unsigned

/-- The seconds and nanoseconds of a time point; the latter are below one second. -/
def pointBody : Checked TimePoint := do
  let seconds ← signed
  let nanos ← unsigned
  if nanos.toNat < 1000000000 then return ⟨seconds, UInt32.ofNat nanos.toNat⟩
  else fail (.overflow .nanosecondAdjustment)

/-- Takes a time point. -/
def timePoint : Checked TimePoint := do
  let _ ← header .timePoint
  attempt pointBody

/-- Takes a time of day with its offset. -/
def zonedTimeOfDay : Checked ZonedTimeOfDay := do
  let _ ← header .zonedTimeOfDay
  attempt do
    let nanos ← unsigned
    return ⟨nanos, ← short .zoneOffset⟩

/-- Takes a time point with its offset. -/
def zonedTimePoint : Checked ZonedTimePoint := do
  let _ ← header .zonedTimePoint
  attempt do
    let point ← pointBody
    return ⟨point, ← short .zoneOffset⟩

/-- Takes a span of calendar time. -/
def interval : Checked Interval := do
  let _ ← header .interval
  attempt do
    let year ← short .intervalYear
    let month ← short .intervalMonth
    let day ← short .intervalDay
    return ⟨year, month, day, ← signed⟩

/-- Takes the header of a row: the count of its elements. -/
def rowBegin : Checked Nat := do
  countBody .row (← header .row)

/-- Takes the header of an array: the count of its elements. -/
def arrayBegin : Checked Nat := do
  countBody .array (← header .array)

/-! ## Lifting -/

/-- A reader as a checked one that never stops and looks at no entries. -/
def lift (r : Reader α) : Checked α := fun m =>
  some ((r m.left).1, { m with left := (r m.left).2 })

end Checked

namespace Reader

/-- The reader may answer `a`. -/
def Gives (r : Reader α) (a : α) : Prop := ∃ bs rest, r bs = (.ok a, rest)

/-- A tag that is taken is one of its kind. -/
theorem ofTag?_of_gives {k : Kind} {tag : UInt8} (h : (header k).Gives tag) :
    Kind.ofTag? tag = some k := by
  obtain ⟨bs, rest, h⟩ := h
  unfold header at h
  split at h
  · cases h
  · split at h
    · cases h
    · rename_i found hfound
      split at h
      · rename_i hsame
        cases h
        rw [hfound, hsame]
      · cases h

/-- Bytes that are taken are as many as asked for. -/
theorem length_of_gives {n : Nat} {taken : Bytes} (h : (take n).Gives taken) :
    taken.length = n := by
  obtain ⟨bs, rest, h⟩ := h
  unfold take at h
  rw [Bytes.cut?_eq] at h
  split at h
  · rename_i front back hcut
    split at hcut
    · cases hcut
    · rename_i henough
      cases h
      cases hcut
      rw [List.length_take]
      omega
  · cases h

end Reader

namespace Checked

variable {c : Checked α} {r : Reader α} {d : α → Checked β} {f : α → Reader β} {m : Meter}

theorem bind_of_ok {a : α} {after : Meter} (h : c m = some (.ok a, after)) :
    (c >>= d) m = d a after := by
  simp only [bind, h]

theorem bind_of_error {e : ValueError} {after : Meter} (h : c m = some (.error e, after)) :
    (c >>= d) m = some (.error e, after) := by
  simp only [bind, h]

/-- A checked reader may rely on what the one before it gave. -/
theorem bind_eq (hc : c = lift r) (hd : ∀ a, r.Gives a → d a = lift (f a)) :
    c >>= d = lift (r >>= f) := by
  subst hc
  funext m
  rcases h : r m.left with ⟨answer, rest⟩
  have hlift : lift r m = some (answer, { m with left := rest }) := by rw [lift, h]
  cases answer with
  | error e =>
    rw [bind_of_error hlift, lift, Reader.bind_of_error h]
  | ok a =>
    rw [bind_of_ok hlift, hd a ⟨_, rest, h⟩, lift, lift, Reader.bind_of_ok h]

theorem attempt_eq (hc : c = lift r) : attempt c = lift r.attempt := by
  subst hc
  funext m
  unfold attempt lift Reader.attempt
  rcases r m.left with ⟨_ | a, rest⟩ <;> rfl

/-- A step that is possible goes on. -/
theorem assert_of {p : Prop} [Decidable p] (h : p) : assert p = pure () := if_pos h

/-- A difference that does not fall below zero. -/
theorem minus_of_le {a b : Nat} (h : b ≤ a) : minus a b = pure (a - b) := by
  rw [minus, assert_of h]
  rfl

/-! ### Pieces -/

theorem peekKind_eq : peekKind = lift Reader.peekKind := by
  funext m
  obtain ⟨left, entries⟩ := m
  cases left with
  | nil => rfl
  | cons tag rest =>
    show (match Kind.ofTag? tag with
      | some kind => pure kind
      | none => fail (.unknownTag tag) : Checked Kind) ⟨tag :: rest, entries⟩ = _
    unfold lift Reader.peekKind
    dsimp only
    cases Kind.ofTag? tag <;> rfl

theorem header_eq (expected : Kind) : header expected = lift (Reader.header expected) := by
  funext m
  obtain ⟨left, entries⟩ := m
  cases left with
  | nil => rfl
  | cons tag rest =>
    show (match Kind.ofTag? tag with
      | none => fail (.unknownTag tag)
      | some found => if found = expected then byte else fail (.typeMismatch expected found) :
        Checked UInt8) ⟨tag :: rest, entries⟩ = _
    unfold lift Reader.header
    dsimp only
    cases Kind.ofTag? tag with
    | none => rfl
    | some found =>
      dsimp only
      split <;> rfl

theorem require_of_lt {n : Nat} (h : m.left.length < n) :
    require n m = some (.error .brokenEncoding, m) := by
  show (if m.left.length < n then fail .brokenEncoding else pure () : Checked Unit) m = _
  rw [if_pos h]
  rfl

theorem require_of_le {n : Nat} (h : n ≤ m.left.length) : require n m = some (.ok (), m) := by
  show (if m.left.length < n then fail .brokenEncoding else pure () : Checked Unit) m = _
  rw [if_neg (Nat.not_lt.2 h)]
  rfl

/-- The bytes that are split off were there. -/
theorem take_eq (n : Nat) : take n = lift (Reader.take n) := by
  funext m
  unfold lift Reader.take
  rw [Bytes.cut?_eq]
  by_cases h : m.left.length < n
  · rw [take, bind_of_error (require_of_lt h), if_pos h]
  · have henough := Nat.not_lt.1 h
    rw [take, bind_of_ok (require_of_le henough), splitTo, if_pos henough, if_neg h]

/-! ### Numbers -/

/-- A word on top of a smaller one, as far as the width goes. -/
theorem or_shiftLeft_toNat {value group : UInt64} {shift width : Nat}
    (hvalue : value.toNat < 2 ^ shift) (hgroup : group.toNat < 2 ^ width)
    (hfits : shift + width ≤ 64) (hshift : shift < 64) :
    (value ||| (group <<< UInt64.ofNat shift)).toNat = value.toNat + group.toNat * 2 ^ shift := by
  have hword : group.toNat * 2 ^ shift < 2 ^ 64 := by
    calc group.toNat * 2 ^ shift < 2 ^ width * 2 ^ shift :=
          Nat.mul_lt_mul_of_pos_right hgroup (Nat.two_pow_pos shift)
      _ = 2 ^ (shift + width) := by rw [Nat.pow_add, Nat.mul_comm]
      _ ≤ 2 ^ 64 := Nat.pow_le_pow_right Nat.two_pos hfits
  have hamount : (UInt64.ofNat shift).toNat % 64 = shift := by
    rw [UInt64.toNat_ofNat', Nat.mod_eq_of_lt (show shift < 2 ^ 64 by omega),
      Nat.mod_eq_of_lt hshift]
  rw [UInt64.toNat_or, UInt64.toNat_shiftLeft, hamount, Nat.shiftLeft_eq, Nat.mod_eq_of_lt hword,
    Nat.or_comm, ← Nat.shiftLeft_eq, ← Nat.shiftLeft_add_eq_or_of_lt hvalue, Nat.add_comm]

theorem toNat_low_bits (group : UInt8) :
    (group &&& 0x7f).toUInt64.toNat = group.toNat % 128 := by
  rw [UInt8.toNat_toUInt64, UInt8.toNat_and]
  exact Nat.and_two_pow_sub_one_eq_mod group.toNat 7

theorem high_bit_eq_zero (group : UInt8) : group &&& 0x80 = 0 ↔ group.toNat < 128 := by
  have hall : ∀ n < 256, UInt8.ofNat n &&& 0x80 = 0 ↔ n < 128 := by decide +kernel
  have hgroup := hall group.toNat group.toNat_lt
  rwa [UInt8.ofNat_toNat] at hgroup

/-- The number whose groups from the one at `i` on are read on top of `value`. -/
def onTop (k i : Nat) (value : UInt64) : Reader UInt64 := fun bs =>
  match Varint.decodeGroups k bs with
  | some (n, rest) => (.ok (UInt64.ofNat (value.toNat + n * 2 ^ (7 * i))), rest)
  | none => (.error .brokenEncoding, [])

theorem groups_zero_cons {i : Nat} (hshift : 7 * i < 64) (value : UInt64) (b : UInt8)
    (rest : Bytes) (n : Nat) :
    groups 0 i value ⟨b :: rest, n⟩ =
      some (.ok (value ||| (b.toUInt64 <<< UInt64.ofNat (7 * i))), ⟨rest, n⟩) := by
  show (do return value ||| (← shiftLeft b.toUInt64 (7 * i)) : Checked UInt64) ⟨rest, n⟩ = _
  rw [shiftLeft, assert_of hshift]
  rfl

theorem groups_succ_cons {i : Nat} (hshift : 7 * i < 64) (k : Nat) (value : UInt64) (b : UInt8)
    (rest : Bytes) (n : Nat) :
    groups (k + 1) i value ⟨b :: rest, n⟩ =
      (if b.toNat < 128 then
        pure (value ||| ((b &&& 0x7f).toUInt64 <<< UInt64.ofNat (7 * i)))
      else groups k (i + 1) (value ||| ((b &&& 0x7f).toUInt64 <<< UInt64.ofNat (7 * i))))
        ⟨rest, n⟩ := by
  simp only [← high_bit_eq_zero]
  show (do
    let value := value ||| (← shiftLeft (b &&& 0x7f).toUInt64 (7 * i))
    if b &&& 0x80 = 0 then return value else groups k (i + 1) value : Checked UInt64)
      ⟨rest, n⟩ = _
  rw [shiftLeft, assert_of hshift]
  rfl

/-- Shifts stay within the word, and the groups do not overlap. -/
theorem groups_eq {k i : Nat} {value : UInt64} (hi : k + i = Varint.groups)
    (hvalue : value.toNat < 2 ^ (7 * i)) : groups k i value = lift (onTop k i value) := by
  funext m
  obtain ⟨left, n⟩ := m
  unfold Varint.groups at hi
  have hshift : 7 * i < 64 := by omega
  -- on the groups that may still come; what was read before stays below the next shift
  induction k generalizing i value left with
  | zero =>
    cases left with
    | nil => rfl
    | cons b rest =>
      have hbyte : b.toUInt64.toNat < 2 ^ 8 := b.toNat_lt
      have htop := or_shiftLeft_toNat hvalue hbyte (by omega) hshift
      rw [groups_zero_cons hshift, ← UInt64.ofNat_toNat (x := value ||| _), htop]
      rfl
  | succ k ih =>
    cases left with
    | nil => rfl
    | cons b rest =>
      have hlow : (b &&& 0x7f).toUInt64.toNat < 2 ^ 7 := by
        rw [toNat_low_bits]
        exact Nat.mod_lt _ (by decide)
      have htop := or_shiftLeft_toNat hvalue hlow (by omega) hshift
      rw [groups_succ_cons hshift]
      generalize value ||| ((b &&& 0x7f).toUInt64 <<< UInt64.ofNat (7 * i)) = next at htop
      unfold lift onTop Varint.decodeGroups
      by_cases hlast : b.toNat < 128
      · rw [toNat_low_bits, Nat.mod_eq_of_lt hlast] at htop
        rw [if_pos hlast, if_pos hlast]
        show some (Except.ok next, Meter.mk rest n) =
          some (Except.ok (UInt64.ofNat (value.toNat + b.toNat * 2 ^ (7 * i))), Meter.mk rest n)
        rw [← htop, UInt64.ofNat_toNat]
      · -- the groups that follow are read on top of this one
        have hnext : next.toNat < 2 ^ (7 * (i + 1)) := by
          calc next.toNat < 2 ^ (7 * i) + (2 ^ 7 - 1) * 2 ^ (7 * i) := by
                rw [htop]
                exact Nat.add_lt_add_of_lt_of_le hvalue
                  (Nat.mul_le_mul_right _ (Nat.le_pred_of_lt hlow))
            _ = 2 ^ (7 * (i + 1)) := by ring
        rw [toNat_low_bits] at htop
        rw [if_neg hlast, if_neg hlast, ih (by omega) hnext rest (by omega)]
        unfold lift onTop
        dsimp only
        cases Varint.decodeGroups k rest with
        | none => rfl
        | some found =>
          obtain ⟨more, rest⟩ := found
          have hsum : next.toNat + more * 2 ^ (7 * (i + 1)) =
              value.toNat + (b.toNat % 128 + 128 * more) * 2 ^ (7 * i) := by
            rw [htop]
            ring
          dsimp only
          rw [hsum]
          rfl

theorem unsigned_eq : unsigned = lift Reader.unsigned := by
  have hgroups : groups Varint.groups 0 0 = lift (onTop Varint.groups 0 0) :=
    groups_eq rfl (by decide)
  rw [unsigned, hgroups]
  congr 1
  funext bs
  unfold onTop Reader.unsigned Varint.decode?
  cases Varint.decodeGroups Varint.groups bs with
  | none => rfl
  | some found =>
    show (Except.ok (UInt64.ofNat (0 + found.1 * 1)), found.2) = _
    rw [Nat.zero_add, Nat.mul_one]
    rfl

theorem signed_eq : signed = lift Reader.signed := by
  rw [signed, unsigned_eq]
  funext m
  show ((lift Reader.unsigned >>= fun n => pure (Int64.ofInt (Varint.unfold n.toNat))) :
    Checked Int64) m = _
  unfold lift Reader.unsigned Reader.signed Varint.decodeSigned?
  simp only [bind]
  cases Varint.decode? m.left <;> rfl

theorem short_eq (what : Quantity) : short what = lift (Reader.short what) :=
  bind_eq signed_eq fun n _ => by split <;> rfl

/-- A tag that stands for a count is not below the first such tag. -/
def Folds (c : Counted) (k : Kind) : Prop :=
  ∀ n < 256, Kind.ofTag? (UInt8.ofNat n) = some k → UInt8.ofNat n ≠ c.full →
    c.base.toNat ≤ (UInt8.ofNat n).toNat

/-- A count of a kind is read behind a tag of that kind. -/
theorem countBody_eq {c : Counted} {k : Kind} (hfolds : Folds c k) {tag : UInt8}
    (htag : (Reader.header k).Gives tag) : countBody c tag = lift (Reader.countBody c tag) := by
  have hkind := Reader.ofTag?_of_gives htag
  unfold countBody Reader.countBody
  by_cases hfull : tag = c.full
  · -- the count is behind the tag
    rw [if_pos hfull, if_pos hfull]
    exact bind_eq (attempt_eq unsigned_eq) fun _ _ => rfl
  · have hbase := hfolds tag.toNat tag.toNat_lt
    rw [UInt8.ofNat_toNat] at hbase
    rw [if_neg hfull, if_neg hfull, minus_of_le (hbase hkind hfull)]
    rfl

theorem folds : Folds .character .character ∧ Folds .octet .octet ∧ Folds .bit .bit ∧
    Folds .row .row ∧ Folds .array .array := by
  refine ⟨?_, ?_, ?_, ?_, ?_⟩
  all_goals
    unfold Folds
    decide +kernel

/-! ### Entries of one kind -/

theorem null_eq : null = lift Reader.null :=
  bind_eq (header_eq _) fun _ _ => rfl

theorem null?_eq : null? = lift Reader.null? :=
  bind_eq peekKind_eq fun k _ => by
    cases k with
    | null => exact bind_eq null_eq fun _ _ => rfl
    | _ => rfl

theorem endOfContents_eq : endOfContents = lift Reader.endOfContents := by
  funext m
  obtain ⟨left, n⟩ := m
  cases left with
  | nil => rfl
  | cons tag rest =>
    have hheader : (do let _ ← header .endOfContents : Checked Unit) =
        lift (do let _ ← Reader.header .endOfContents) := bind_eq (header_eq _) fun _ _ => rfl
    exact congrFun hheader ⟨tag :: rest, n⟩

/-- The differences of a tag and the first one of its range do not fall below zero. -/
theorem intBody_eq (tag : UInt8) : intBody tag = lift (Reader.intBody tag) := by
  unfold intBody Reader.intBody
  split
  · rfl
  · split
    · rename_i hrange
      have hlow : Tag.negativeInts ≤ tag := by
        rw [Bool.and_eq_true, decide_eq_true_eq] at hrange
        exact hrange.1
      rw [minus_of_le (UInt8.le_iff_toNat_le.1 hlow)]
      show lift (pure (Int64.ofInt
        (((tag.toNat - Tag.negativeInts.toNat : Nat) : Int) + Tag.lowestInt))) = _
      rw [Int.natCast_sub (UInt8.le_iff_toNat_le.1 hlow)]
    · exact attempt_eq signed_eq

theorem int_eq : int = lift Reader.int :=
  bind_eq (header_eq _) fun tag _ => intBody_eq tag

theorem float4_eq : float4 = lift Reader.float4 :=
  bind_eq (header_eq _) fun _ _ => bind_eq (take_eq 4) fun _ _ => rfl

theorem float8_eq : float8 = lift Reader.float8 :=
  bind_eq (header_eq _) fun _ _ => bind_eq (take_eq 8) fun _ _ => rfl

/-- Bytes of at most the width are widened by their sign. -/
theorem widen_of_le {width : Nat} {bs : Bytes} (h : bs.length ≤ width) :
    widen width bs = pure (Bytes.signExtend width bs) := by
  have hlength : ((List.replicate width bs.signByte).drop (width - bs.length)).length =
      bs.length := by
    rw [List.length_drop, List.length_replicate]
    omega
  have hstart : width - bs.length ≤ (List.replicate width bs.signByte).length := by
    rw [List.length_replicate]
    exact Nat.sub_le ..
  rw [widen, minus_of_le h]
  show (do
    assert (width - bs.length ≤ (List.replicate width bs.signByte).length)
    assert (((List.replicate width bs.signByte).drop (width - bs.length)).length = bs.length)
    return (List.replicate width bs.signByte).take (width - bs.length) ++ bs : Checked Bytes) = _
  rw [assert_of hstart, assert_of hlength, List.take_replicate, Nat.min_eq_left (Nat.sub_le ..)]
  rfl

/-- At most sixteen bytes are copied to the end of sixteen. -/
theorem decimalBody_eq (tag : UInt8) : decimalBody tag = lift (Reader.decimalBody tag) :=
  bind_eq (short_eq _) fun exponent _ => by
    split
    · exact bind_eq signed_eq fun _ _ => rfl
    · refine bind_eq unsigned_eq fun length _ => ?_
      dsimp only
      split
      · rfl
      · rename_i hmost
        refine bind_eq (take_eq _) fun bytes hbytes => ?_
        have hlength := Reader.length_of_gives hbytes
        rw [widen_of_le (by omega)]
        show lift (pure (⟨BitVec.ofInt 128 (Reader.signedOfBytes _), exponent⟩ : Decimal)) = _
        rw [Reader.signedOfBytes_signExtend]

theorem decimal_eq : decimal = lift Reader.decimal :=
  bind_eq peekKind_eq fun k _ => by
    cases k with
    | int => exact bind_eq int_eq fun _ _ => rfl
    | _ => exact bind_eq (header_eq _) fun tag _ => attempt_eq (decimalBody_eq tag)

theorem character_eq : character = lift Reader.character :=
  bind_eq (header_eq _) fun _ htag => bind_eq (countBody_eq folds.1 htag) fun n _ =>
    bind_eq (take_eq n) fun bytes _ => by cases Utf8.decode bytes <;> rfl

theorem octet_eq : octet = lift Reader.octet :=
  bind_eq (header_eq _) fun _ htag => bind_eq (countBody_eq folds.2.1 htag) fun n _ => take_eq n

/-- The bytes of a bit string are as many as its bits ask for. -/
theorem bit_eq : bit = lift Reader.bit :=
  bind_eq (header_eq _) fun _ htag => bind_eq (countBody_eq folds.2.2.1 htag) fun n _ =>
    bind_eq (take_eq _) fun bytes hbytes => by
      rw [bitString, BitString.ofData?, dif_pos (Reader.length_of_gives hbytes)]
      rfl

theorem date_eq : date = lift Reader.date :=
  bind_eq (header_eq _) fun _ _ => attempt_eq signed_eq

theorem timeOfDay_eq : timeOfDay = lift Reader.timeOfDay :=
  bind_eq (header_eq _) fun _ _ => attempt_eq unsigned_eq

theorem pointBody_eq : pointBody = lift Reader.pointBody :=
  bind_eq signed_eq fun _ _ => bind_eq unsigned_eq fun _ _ => by split <;> rfl

theorem timePoint_eq : timePoint = lift Reader.timePoint :=
  bind_eq (header_eq _) fun _ _ => attempt_eq pointBody_eq

theorem zonedTimeOfDay_eq : zonedTimeOfDay = lift Reader.zonedTimeOfDay :=
  bind_eq (header_eq _) fun _ _ => attempt_eq <|
    bind_eq unsigned_eq fun _ _ => bind_eq (short_eq _) fun _ _ => rfl

theorem zonedTimePoint_eq : zonedTimePoint = lift Reader.zonedTimePoint :=
  bind_eq (header_eq _) fun _ _ => attempt_eq <|
    bind_eq pointBody_eq fun _ _ => bind_eq (short_eq _) fun _ _ => rfl

theorem interval_eq : interval = lift Reader.interval :=
  bind_eq (header_eq _) fun _ _ => attempt_eq <|
    bind_eq (short_eq _) fun _ _ => bind_eq (short_eq _) fun _ _ => bind_eq (short_eq _) fun _ _ =>
      bind_eq signed_eq fun _ _ => rfl

theorem rowBegin_eq : rowBegin = lift Reader.rowBegin :=
  bind_eq (header_eq _) fun _ htag => countBody_eq folds.2.2.2.1 htag

theorem arrayBegin_eq : arrayBegin = lift Reader.arrayBegin :=
  bind_eq (header_eq _) fun _ htag => countBody_eq folds.2.2.2.2 htag

end Checked

end QueryLink
