import Mathlib.Algebra.Order.Floor.Div
import Mathlib.Data.List.GetD
import Mathlib.Data.Nat.Bitwise
import QueryLink.Proofs.CheckedReader
import QueryLink.Proofs.ValueRoundTrip

/-!
# Bits in bytes

The bit at position `n` of packed bytes is bit `n % 8` of byte `n / 8`. Packed bytes are nothing but
their bits: bytes with the same bit at every position, padding included, are the same bytes. So
packing is known by the bits it leaves, the packed ones and then zeros, and both views of a bit
string, its list of bits and the bit at a position, are read off there.

The same can be done one bit at a time: a bit is set in the last byte, a byte of zeros is begun with
every eighth, and a bit is looked up under a mask. The `…Steps` do so, and none of them asks for a
byte that is not there.

## Key results

- `eq_of_bitAt?_eq`: packed bytes are their bits
- `bitAt?_pack`: what packing leaves
- `getElem?_toList`, `length_toList`: the list of the bits has them at their positions
- `packs_iff`: length, count of bytes, bits and zeros in the padding tell the packing
- `repacked`: only padding is lost when listed bits are packed anew
- `pushSteps_pack`, `collectSteps_pack`: setting bit after bit packs them
- `lookSteps_eq`, `listSteps_eq`: looking bit after bit up lists them
- `travels`: bytes of the right count are read back with their padding
- `packing_exact`: all of it together
-/

namespace QueryLink.BitString

/-! ## The bits of packed bytes -/

/-- The bit at position `n` of packed bytes, be it padding; `none` past the last byte. -/
def bitAt? (data : Bytes) (n : Nat) : Option Bool :=
  data[n / 8]?.map fun byte => byte.toNat.testBit (n % 8)

theorem bitAt?_eq_none_iff (data : Bytes) (n : Nat) :
    bitAt? data n = none ↔ 8 * data.length ≤ n := by
  rw [bitAt?, Option.map_eq_none_iff, List.getElem?_eq_none_iff]
  omega

/-- Positions go on behind the last bit of the first bytes. -/
theorem bitAt?_append (front back : Bytes) (n : Nat) :
    bitAt? (front ++ back) n =
      if n < 8 * front.length then bitAt? front n else bitAt? back (n - 8 * front.length) := by
  unfold bitAt?
  rw [List.getElem?_append]
  split
  · rw [if_pos (by omega)]
  · have hbyte : (n - 8 * front.length) / 8 = n / 8 - front.length := by omega
    have hbit : (n - 8 * front.length) % 8 = n % 8 := by omega
    rw [if_neg (by omega), hbyte, hbit]

/-- A byte is its eight bits. -/
theorem byte_eq_of_testBit_eq {a b : UInt8}
    (h : ∀ i < 8, a.toNat.testBit i = b.toNat.testBit i) : a = b := by
  rw [← UInt8.toNat_inj]
  refine Nat.eq_of_testBit_eq fun i => ?_
  by_cases hi : i < 8
  · exact h i hi
  · -- a byte has no higher bits
    have hwide : 2 ^ 8 ≤ 2 ^ i := Nat.pow_le_pow_right (by decide) (Nat.not_lt.1 hi)
    rw [Nat.testBit_lt_two_pow (Nat.lt_of_lt_of_le a.toNat_lt hwide),
      Nat.testBit_lt_two_pow (Nat.lt_of_lt_of_le b.toNat_lt hwide)]

/-- Packed bytes are their bits. -/
theorem eq_of_bitAt?_eq {data other : Bytes} (h : ∀ n, bitAt? data n = bitAt? other n) :
    data = other := by
  refine List.ext_getElem? fun k => ?_
  have hbits (i : Nat) (hi : i < 8) : data[k]?.map (fun byte => byte.toNat.testBit i) =
      other[k]?.map fun byte => byte.toNat.testBit i := by
    have hposition := h (8 * k + i)
    unfold bitAt? at hposition
    rwa [show (8 * k + i) / 8 = k by omega, show (8 * k + i) % 8 = i by omega] at hposition
  cases ha : data[k]? <;> cases hb : other[k]? <;> simp only [ha, hb] at hbits
  · rfl
  · cases hbits 0 (by decide)
  · cases hbits 0 (by decide)
  · rename_i a b
    exact congrArg some (byte_eq_of_testBit_eq fun i hi => Option.some.inj (hbits i hi))

/-! ## Packing -/

/-- The byte of some bits has them lowest first, and then zeros. -/
theorem testBit_byteOfBits (bits : List Bool) {i : Nat} (hi : i < 8) :
    (byteOfBits bits).toNat.testBit i = bits.getD i false := by
  have hsum (bits : List Bool) (i : Nat) :
      (bits.foldr (fun (bit : Bool) n => bit.toNat + 2 * n) 0).testBit i = bits.getD i false := by
    induction bits generalizing i with
    | nil => exact Nat.zero_testBit i
    | cons bit bits ih =>
      have hbit (n : Nat) : bit.toNat + 2 * n = Nat.bit bit n := by
        cases bit <;> simp [Nat.bit, Nat.add_comm]
      rw [List.foldr_cons, hbit]
      cases i with
      | zero => exact Nat.testBit_bit_zero bit _
      | succ i => exact (Nat.testBit_bit_succ i bit _).trans (ih i)
  rw [byteOfBits, UInt8.toNat_ofNat', Nat.testBit_mod_two_pow, hsum, decide_eq_true hi,
    Bool.true_and]

theorem length_pack (bits : List Bool) : (pack bits).length = bytesForBits bits.length := by
  rw [pack, List.length_map, List.length_range]

/-- Packed bits are followed by zeros up to the end of their bytes. -/
theorem bitAt?_pack (bits : List Bool) (n : Nat) :
    bitAt? (pack bits) n =
      if n < 8 * bytesForBits bits.length then some (bits.getD n false) else none := by
  split
  · rename_i hn
    have hbyte : n / 8 < bytesForBits bits.length := by omega
    rw [bitAt?, pack, List.getElem?_map, List.getElem?_range hbyte, Option.map_some,
      Option.map_some, testBit_byteOfBits _ (Nat.mod_lt n (by decide)),
      List.getD_eq_getElem?_getD, List.getElem?_take_of_lt (Nat.mod_lt n (by decide)),
      List.getElem?_drop, Nat.div_add_mod, ← List.getD_eq_getElem?_getD]
  · rw [bitAt?_eq_none_iff, length_pack]
    omega

/-- The bytes have room for all the bits. -/
theorem le_bytesForBits (n : Nat) : n ≤ 8 * bytesForBits n := by
  unfold bytesForBits
  omega

/-! ## Listing -/

/-- The bits of some bytes, one byte after the other, have the bits at their positions. -/
theorem getElem?_flatMap_bitsOfByte (data : Bytes) (n : Nat) :
    (data.flatMap bitsOfByte)[n]? = bitAt? data n := by
  induction data generalizing n with
  | nil => rfl
  | cons byte data ih =>
    have hlength : (bitsOfByte byte).length = 8 := rfl
    have hcons : bitAt? (byte :: data) n =
        if n < 8 then bitAt? [byte] n else bitAt? data (n - 8) := bitAt?_append [byte] data n
    rw [List.flatMap_cons, List.getElem?_append, hlength, ih, hcons]
    split
    · rename_i hn
      rw [bitsOfByte, List.getElem?_map, List.getElem?_range hn, bitAt?, Nat.div_eq_of_lt hn,
        Nat.mod_eq_of_lt hn]
      rfl
    · rfl

/-- The list of the bits has at each position the bit looked up there. -/
theorem getElem?_toList (b : BitString) (n : Nat) : b.toList[n]? = b.get? n := by
  rw [toList, List.getElem?_take, getElem?_flatMap_bitsOfByte]
  rfl

/-- There is a bit at every position before the length. -/
theorem get?_eq_none_iff (b : BitString) (n : Nat) : b.get? n = none ↔ b.length ≤ n := by
  have hbytes := le_bytesForBits b.length
  unfold get?
  split
  · rename_i hn
    have hbit := bitAt?_eq_none_iff b.data n
    rw [b.size_data] at hbit
    exact hbit.trans (by omega)
  · rename_i hn
    exact iff_of_true rfl (Nat.not_lt.1 hn)

theorem length_toList (b : BitString) : b.toList.length = b.length := by
  have hnone (n : Nat) : b.toList.length ≤ n ↔ b.length ≤ n := by
    rw [← List.getElem?_eq_none_iff, getElem?_toList, get?_eq_none_iff]
  exact Nat.le_antisymm ((hnone _).2 (Nat.le_refl _)) ((hnone _).1 (Nat.le_refl _))

/-! ## What packing makes -/

/-- All bits of the bytes past the length are zero. -/
def ZeroPadded (b : BitString) : Prop :=
  ∀ n, b.length ≤ n → n < 8 * b.data.length → bitAt? b.data n = some false

/-- The bit string is made of these bits and of zeros that fill its last byte. -/
structure Packs (bits : List Bool) (b : BitString) : Prop where
  length : b.length = bits.length
  /-- There are as many bytes as the bits take. -/
  bytes : b.data.length = bits.length ⌈/⌉ 8
  padding : b.ZeroPadded
  /-- The list of the bits. -/
  list : b.toList = bits
  /-- The bit at each position, and none past the end. -/
  lookup : ∀ n, b.get? n = bits[n]?

theorem bytesForBits_eq (n : Nat) : bytesForBits n = n ⌈/⌉ 8 :=
  (Nat.ceilDiv_eq_add_pred_div n 8).symm

theorem get?_ofList (bits : List Bool) (n : Nat) : (ofList bits).get? n = bits[n]? := by
  have hbytes := le_bytesForBits bits.length
  show (if n < bits.length then bitAt? (pack bits) n else none) = _
  split
  · rename_i hn
    rw [bitAt?_pack, if_pos (by omega), List.getD_eq_getElem _ _ hn, List.getElem?_eq_getElem hn]
  · rename_i hn
    exact (List.getElem?_eq_none (Nat.not_lt.1 hn)).symm

theorem zeroPadded_ofList (bits : List Bool) : (ofList bits).ZeroPadded := by
  intro n hpadding hn
  change bits.length ≤ n at hpadding
  change n < 8 * (pack bits).length at hn
  show bitAt? (pack bits) n = some false
  rw [length_pack] at hn
  rw [bitAt?_pack, if_pos hn, List.getD_eq_default _ _ hpadding]

theorem packs_ofList (bits : List Bool) : Packs bits (ofList bits) where
  length := rfl
  bytes := (length_pack bits).trans (bytesForBits_eq _)
  padding := zeroPadded_ofList bits
  list := List.ext_getElem? fun n => by rw [getElem?_toList, get?_ofList]
  lookup := get?_ofList bits

/-- No other bit string is made of these bits and zeros. -/
theorem Packs.eq {bits : List Bool} {b : BitString} (h : Packs bits b) : b = ofList bits := by
  have hdata : b.data = pack bits := by
    refine eq_of_bitAt?_eq fun n => ?_
    have hsize : b.data.length = bytesForBits bits.length := h.bytes.trans (bytesForBits_eq _).symm
    have hend := bitAt?_eq_none_iff b.data n
    rw [hsize] at hend
    rw [bitAt?_pack]
    split
    · rename_i hn
      by_cases hbit : n < bits.length
      · -- one of the bits
        have hlookup := h.lookup n
        rw [get?, if_pos (h.length ▸ hbit), List.getElem?_eq_getElem hbit] at hlookup
        rw [List.getD_eq_getElem _ _ hbit]
        exact hlookup
      · -- padding
        have hpast := Nat.not_lt.1 hbit
        rw [h.padding n (h.length ▸ hpast) (hsize ▸ hn), List.getD_eq_default _ _ hpast]
    · rename_i hn
      exact hend.2 (Nat.not_lt.1 hn)
  obtain ⟨length, data, size⟩ := b
  obtain rfl : length = bits.length := h.length
  obtain rfl : data = pack bits := hdata
  rfl

theorem packs_iff {bits : List Bool} {b : BitString} : Packs bits b ↔ b = ofList bits :=
  ⟨Packs.eq, fun h => h ▸ packs_ofList bits⟩

/-- A bit string whose padding is zero is made of its own bits. -/
theorem ZeroPadded.packs {b : BitString} (h : b.ZeroPadded) : Packs b.toList b where
  length := b.length_toList.symm
  bytes := by rw [b.size_data, bytesForBits_eq, length_toList]
  padding := h
  list := rfl
  lookup n := (b.getElem?_toList n).symm

/-- What is left of a bit string when its bits are listed and packed anew. -/
structure Repacked (b : BitString) : Prop where
  length : (ofList b.toList).length = b.length
  list : (ofList b.toList).toList = b.toList
  lookup : ∀ n, (ofList b.toList).get? n = b.get? n
  padding : (ofList b.toList).ZeroPadded
  /-- Only padding is lost. -/
  same_iff : ofList b.toList = b ↔ b.ZeroPadded

theorem repacked (b : BitString) : b.Repacked where
  length := b.length_toList
  list := (packs_ofList b.toList).list
  lookup n := by rw [get?_ofList, getElem?_toList]
  padding := zeroPadded_ofList b.toList
  same_iff := ⟨fun h => h ▸ zeroPadded_ofList b.toList, fun h => h.packs.eq.symm⟩

/-! ## One bit at a time -/

/-- The byte with one bit. -/
def mask (i : Nat) : UInt8 := 1 <<< UInt8.ofNat i

theorem toNat_mask {i : Nat} (hi : i < 8) : (mask i).toNat = 2 ^ i := by
  have hpow : 2 ^ i < 2 ^ 8 := Nat.pow_lt_pow_right (by decide) hi
  rw [mask, UInt8.toNat_shiftLeft, UInt8.toNat_ofNat', Nat.mod_eq_of_lt (show i < 2 ^ 8 by omega),
    Nat.mod_eq_of_lt hi, UInt8.toNat_one, Nat.one_shiftLeft, Nat.mod_eq_of_lt hpow]

/-- Looks the bit at position `n` of packed bytes up; `none` where there is no such byte. -/
def lookSteps (data : Bytes) (n : Nat) : Option Bool :=
  data[n / 8]?.map fun byte => byte &&& mask (n % 8) != 0

/-- The bit of a bit string at position `n`, `some none` past the end. -/
def getSteps (b : BitString) (n : Nat) : Option (Option Bool) :=
  if b.length ≤ n then some none else (lookSteps b.data n).map some

/-- The `count` bits of packed bytes from position `n` on. -/
def listSteps (data : Bytes) : (count n : Nat) → Option (List Bool)
  | 0, _ => some []
  | count + 1, n => do
    let bit ← lookSteps data n
    return bit :: (← listSteps data count (n + 1))

/-- The bytes with room for one more bit behind `length` of them. Where these fill their bytes, a
byte of zeros is begun. -/
def extend (data : Bytes) (length : Nat) : Bytes :=
  if length % 8 = 0 then data ++ [0] else data

/-- Packs one more bit behind `length` packed ones; `none` where there is no byte to set it in. -/
def pushSteps (data : Bytes) (length : Nat) (bit : Bool) : Option Bytes :=
  let data := extend data length
  if bit then
    data[length / 8]?.map fun byte => data.set (length / 8) (byte ||| mask (length % 8))
  else some data

/-- Packs bits behind `length` packed ones, and counts them. -/
def collectSteps : (data : Bytes) → (length : Nat) → List Bool → Option (Nat × Bytes)
  | data, length, [] => some (length, data)
  | data, length, bit :: bits => do
    collectSteps (← pushSteps data length bit) (length + 1) bits

/-- A mask tells the bit it has. -/
theorem and_mask_ne_zero (byte : UInt8) {i : Nat} (hi : i < 8) :
    (byte &&& mask i != 0) = byte.toNat.testBit i := by
  have hzero : byte &&& mask i = 0 ↔ byte.toNat.testBit i = false := by
    rw [← UInt8.toNat_inj, UInt8.toNat_and, toNat_mask hi, Nat.and_two_pow, UInt8.toNat_zero,
      Nat.mul_eq_zero]
    simp
  rw [Bool.eq_iff_iff, bne_iff_ne, ne_eq, hzero, Bool.not_eq_false]

theorem lookSteps_eq (data : Bytes) (n : Nat) : lookSteps data n = bitAt? data n := by
  unfold lookSteps bitAt?
  simp only [and_mask_ne_zero _ (Nat.mod_lt n (show 0 < 8 by decide))]

theorem getSteps_eq (b : BitString) (n : Nat) : getSteps b n = some (b.get? n) := by
  have hnone := b.get?_eq_none_iff n
  unfold getSteps
  split
  · rename_i hn
    rw [hnone.2 hn]
  · rename_i hn
    obtain ⟨bit, hbit⟩ := Option.ne_none_iff_exists'.1 (mt hnone.1 hn)
    rw [hbit]
    rw [get?, if_pos (Nat.not_le.1 hn)] at hbit
    rw [lookSteps_eq, bitAt?, hbit, Option.map_some]

/-- All bits that the bytes have can be looked up. -/
theorem listSteps_eq {data : Bytes} {count n : Nat} (h : n + count ≤ 8 * data.length) :
    listSteps data count n = some (((data.flatMap bitsOfByte).drop n).take count) := by
  induction count generalizing n with
  | zero => rfl
  | succ count ih =>
    have hthere : bitAt? data n ≠ none := mt (bitAt?_eq_none_iff data n).1 (by omega)
    obtain ⟨bit, hbit⟩ := Option.ne_none_iff_exists'.1 hthere
    have hhead := getElem?_flatMap_bitsOfByte data n
    rw [hbit, List.getElem?_eq_some_iff] at hhead
    obtain ⟨hn, hhead⟩ := hhead
    rw [listSteps, lookSteps_eq, hbit, ih (by omega), List.drop_eq_getElem_cons hn, hhead]
    rfl

/-- The room for one more bit is filled with zeros. -/
theorem bitAt?_extend (bits : List Bool) (n : Nat) :
    bitAt? (extend (pack bits) bits.length) n =
      if n < 8 * bytesForBits (bits.length + 1) then some (bits.getD n false) else none := by
  unfold extend
  split
  · rename_i hfull
    have hbytes : 8 * bytesForBits bits.length = bits.length ∧
        8 * bytesForBits (bits.length + 1) = bits.length + 8 := by
      unfold bytesForBits
      omega
    rw [bitAt?_append, length_pack, bitAt?_pack, hbytes.1, hbytes.2]
    split
    · rw [if_pos (by omega)]
    · rename_i hn
      -- in the new byte, or past it
      rw [List.getD_eq_default _ _ (Nat.not_lt.1 hn)]
      split
      · have hfirst : (n - bits.length) / 8 = 0 := by omega
        rw [bitAt?, hfirst, List.getElem?_cons_zero, Option.map_some]
        exact congrArg some (Nat.zero_testBit _)
      · rw [bitAt?_eq_none_iff, List.length_singleton]
        omega
  · rename_i hroom
    have hbytes : bytesForBits (bits.length + 1) = bytesForBits bits.length := by
      unfold bytesForBits
      omega
    rw [hbytes, bitAt?_pack]

/-- Setting a bit of a byte leaves all other bits. -/
theorem bitAt?_set {data : Bytes} {n : Nat} {byte : UInt8} (hbyte : data[n / 8]? = some byte)
    (k : Nat) :
    bitAt? (data.set (n / 8) (byte ||| mask (n % 8))) k =
      if k = n then some true else bitAt? data k := by
  have hthere : n / 8 < data.length := (List.getElem?_eq_some_iff.1 hbyte).1
  unfold bitAt?
  rw [List.getElem?_set, if_pos hthere]
  by_cases hsame : n / 8 = k / 8
  · rw [if_pos hsame, ← hsame, hbyte, Option.map_some, Option.map_some, UInt8.toNat_or,
      toNat_mask (Nat.mod_lt n (by decide)), Nat.testBit_or, Nat.testBit_two_pow]
    split
    · rename_i hk
      rw [hk, decide_eq_true rfl, Bool.or_true]
    · rw [decide_eq_false (by omega), Bool.or_false]
  · rw [if_neg hsame, if_neg (by rintro rfl; exact hsame rfl)]

/-- Only the bit at the old length differs when one more is put behind. -/
theorem getD_concat (bits : List Bool) (bit : Bool) (n : Nat) :
    (bits ++ [bit]).getD n false = if n = bits.length then bit else bits.getD n false := by
  rcases Nat.lt_trichotomy n bits.length with hn | hn | hn
  · rw [List.getD_append _ _ _ _ hn, if_neg (Nat.ne_of_lt hn)]
  · rw [List.getD_append_right _ _ _ _ (Nat.le_of_eq hn.symm), if_pos hn, hn, Nat.sub_self]
    rfl
  · rw [if_neg (Nat.ne_of_gt hn), List.getD_eq_default _ _ (Nat.le_of_lt hn)]
    exact List.getD_eq_default _ _ (List.length_append ▸ hn)

/-- One more bit is packed behind those before it. -/
theorem pushSteps_pack (bits : List Bool) (bit : Bool) :
    pushSteps (pack bits) bits.length bit = some (pack (bits ++ [bit])) := by
  unfold pushSteps
  dsimp only
  have hextend := bitAt?_extend bits
  generalize extend (pack bits) bits.length = room at hextend
  have hlength : (bits ++ [bit]).length = bits.length + 1 := List.length_append
  have hlast := le_bytesForBits (bits.length + 1)
  cases bit with
  | false =>
    -- the bit is a zero there already
    rw [if_neg (by decide)]
    refine congrArg some (eq_of_bitAt?_eq fun n => ?_)
    rw [hextend, bitAt?_pack, hlength, getD_concat]
    split
    · split
      · rename_i heq
        rw [List.getD_eq_default _ _ (Nat.le_of_eq heq.symm)]
      · rfl
    · rfl
  | true =>
    obtain ⟨byte, hbyte⟩ : ∃ byte, room[bits.length / 8]? = some byte := by
      have hthere := hextend bits.length
      rw [if_pos (by omega)] at hthere
      obtain ⟨byte, hbyte, -⟩ := Option.map_eq_some_iff.1 hthere
      exact ⟨byte, hbyte⟩
    rw [if_pos rfl, hbyte, Option.map_some]
    refine congrArg some (eq_of_bitAt?_eq fun n => ?_)
    rw [bitAt?_set hbyte, hextend, bitAt?_pack, hlength, getD_concat]
    split
    · rw [if_pos (by omega)]
    · rfl

/-- Bit after bit is packed, and counted. -/
theorem collectSteps_pack (before bits : List Bool) :
    collectSteps (pack before) before.length bits =
      some ((before ++ bits).length, pack (before ++ bits)) := by
  -- the bytes so far are always the packing of the bits so far
  induction bits generalizing before with
  | nil => rw [collectSteps, List.append_nil]
  | cons bit bits ih =>
    have hlength : (before ++ [bit]).length = before.length + 1 := List.length_append
    have hrest := ih (before ++ [bit])
    rw [hlength, List.append_assoc, List.singleton_append] at hrest
    rw [collectSteps, pushSteps_pack]
    exact hrest

/-- What is done one bit at a time finds its bytes and comes to the same. -/
structure Stepwise : Prop where
  collect : ∀ bits, collectSteps [] 0 bits = some ((ofList bits).length, (ofList bits).data)
  list : ∀ b : BitString, listSteps b.data b.length 0 = some b.toList
  lookup : ∀ (b : BitString) n, getSteps b n = some (b.get? n)

theorem stepwise : Stepwise where
  collect := collectSteps_pack []
  list b := by
    have hbytes := le_bytesForBits b.length
    rw [listSteps_eq (by rw [b.size_data]; omega)]
    rfl
  lookup := getSteps_eq

/-! ## On the wire -/

/-- What becomes of `n` bits in some bytes. -/
structure Travels (n : UInt64) (data : Bytes) : Prop where
  /-- They are a bit string where the bytes are as many as the bits take. -/
  admitted_iff : (ofData? n.toNat data).isSome ↔ data.length = n.toNat ⌈/⌉ 8
  /-- Padding is no matter, and it stays. -/
  kept : ∀ b, ofData? n.toNat data = some b → b.length = n.toNat ∧ b.data = data
  /-- What is written is read back, and what follows it is left. -/
  read_write : ∀ b, ofData? n.toNat data = some b → ∀ rest,
    Reader.bit ((Value.bit b).encode ++ rest) = (.ok b, rest)
  /-- On the way no byte is missing, and those taken are as many as the bits ask for. -/
  checked : ∀ b, ofData? n.toNat data = some b → ∀ rest entries,
    Checked.bit ⟨(Value.bit b).encode ++ rest, entries⟩ = some (.ok b, ⟨rest, entries⟩)

theorem ofData?_eq_some_iff {n : Nat} {data : Bytes} {b : BitString} :
    ofData? n data = some b ↔ b.length = n ∧ b.data = data := by
  obtain ⟨length, bytes, size⟩ := b
  unfold ofData?
  constructor
  · intro h
    split at h
    · cases h
      exact ⟨rfl, rfl⟩
    · cases h
  · rintro ⟨rfl, rfl⟩
    exact dif_pos size

theorem isSome_ofData?_iff (n : Nat) (data : Bytes) :
    (ofData? n data).isSome ↔ data.length = bytesForBits n := by
  unfold ofData?
  split
  · rename_i h
    exact iff_of_true rfl h
  · rename_i h
    exact iff_of_false Bool.false_ne_true h

theorem travels (n : UInt64) (data : Bytes) : Travels n data := by
  have hread (b : BitString) (h : ofData? n.toNat data = some b) (rest : Bytes) :
      Reader.bit ((Value.bit b).encode ++ rest) = (.ok b, rest) :=
    Reader.reads_bit ((ofData?_eq_some_iff.1 h).1 ▸ n.toNat_lt) rest
  exact {
    admitted_iff := bytesForBits_eq n.toNat ▸ isSome_ofData?_iff n.toNat data
    kept := fun b h => ofData?_eq_some_iff.1 h
    read_write := hread
    checked := fun b h rest entries => by rw [Checked.bit_eq, Checked.lift, hread b h] }

/-- Bits are packed into as few bytes as can be, with zeros behind them, and are listed and looked
up where they were packed; packed anew, the bits of a bit string lose its padding only; in any bytes
that are as many as the bits take they are read back, padding and all; and all of this comes to the
same one bit at a time. -/
theorem packing_exact :
    (∀ (bits : List Bool) (b : BitString), Packs bits b ↔ b = ofList bits) ∧
    (∀ b : BitString, b.Repacked) ∧ (∀ (n : UInt64) (data : Bytes), Travels n data) ∧ Stepwise :=
  ⟨fun _ _ => packs_iff, repacked, travels, stepwise⟩

/-- `packing_exact` at nine bits with ones in their padding, which are read back and lost only when
the bits are packed anew. -/
theorem packing_exact_padded :
    let b : BitString := ⟨9, [0x0d, 0xff], rfl⟩
    let bits := [true, false, true, true, false, false, false, false, true]
    b.toList = bits ∧ Packs bits ⟨9, [0x0d, 0x01], rfl⟩ ∧ ¬b.ZeroPadded ∧
      Reader.bit (0xf2 :: 0x09 :: 0x0d :: 0xff :: [0xe8]) = (.ok b, [0xe8]) := by
  intro b bits
  obtain ⟨hpacks, hrepacked, htravels, -⟩ := packing_exact
  have hbits : b.toList = bits := by decide
  have hlost : ofList bits ≠ b := by decide
  refine ⟨hbits, (hpacks bits _).2 (by decide), fun hzero => hlost ?_, ?_⟩
  · exact hbits ▸ (hrepacked b).same_iff.2 hzero
  · exact (htravels 9 [0x0d, 0xff]).read_write b rfl [0xe8]

end QueryLink.BitString
