import QueryLink.Proofs.CheckedReader
import QueryLink.Proofs.VarintCodec

/-!
# Variable length integers are short

A number takes as many bytes as it has groups of seven bits, and no other bytes that are read as
the number are fewer. How far a number goes shows in its bytes: it ends with the first byte that
has no mark, or with the ninth.

Numbers are written and read in `Nat` here. The same can be done in words, with shifts and masks;
the `…Steps` do, and come to the same.

## Key results

- `length_encodeGroups`, `shortest_encodeGroups`: how many bytes a number takes
- `decodeGroups_eq_none_iff`, `rest_of_decodeGroups`: where it ends
- `encodeSteps_eq`, `sizeSteps_eq`, `foldSteps_eq`, `unfoldSteps_eq`: the same in words
- `words_lawful`: both codecs of words keep these laws
-/

namespace QueryLink.Varint

/-! ## How many bytes -/

theorem bitLength_le_iff (n b : Nat) : bitLength n ≤ b ↔ n < 2 ^ b := by
  unfold bitLength
  split
  · rename_i hzero
    subst hzero
    exact iff_of_true (Nat.zero_le b) (Nat.two_pow_pos b)
  · rename_i hne
    rw [Nat.add_one_le_iff, Nat.log2_lt hne]

/-- A number without its lowest group is seven bits shorter. -/
theorem bitLength_div (n : Nat) : bitLength (n / 128) = bitLength n - 7 := by
  have hbound (b : Nat) : bitLength (n / 128) ≤ b ↔ bitLength n - 7 ≤ b := by
    rw [bitLength_le_iff, Nat.div_lt_iff_lt_mul (by decide), show 128 = 2 ^ 7 from rfl,
      ← Nat.pow_add, ← bitLength_le_iff, Nat.sub_le_iff_le_add]
  exact Nat.le_antisymm ((hbound _).2 (Nat.le_refl _)) ((hbound _).1 (Nat.le_refl _))

/-- A number takes a byte for each seven bits begun, up to the last byte. -/
theorem length_encodeGroups (k n : Nat) :
    (encodeGroups k n).length =
      if bitLength n > 7 * k then k + 1
      else if bitLength n = 0 then 1 else (bitLength n + 6) / 7 := by
  induction k generalizing n with
  | zero =>
    rw [encodeGroups, List.length_singleton]
    split
    · rfl
    · rw [if_pos (by omega)]
  | succ k ih =>
    have hsmall := bitLength_le_iff n 7
    rw [encodeGroups]
    split
    · -- a group below 128 is the only one
      have hbits : bitLength n ≤ 7 := hsmall.2 ‹_›
      rw [List.length_singleton, if_neg (by omega)]
      split <;> omega
    · have hbits : ¬bitLength n ≤ 7 := mt hsmall.1 ‹_›
      rw [List.length_cons, ih, bitLength_div, if_neg (show ¬bitLength n - 7 = 0 by omega),
        if_neg (show ¬bitLength n = 0 by omega)]
      split <;> split <;> omega

/-- No fewer bytes are read as the number. -/
theorem shortest_encodeGroups {k n : Nat} {bs : Bytes} (h : decodeGroups k bs = some (n, [])) :
    (encodeGroups k n).length ≤ bs.length := by
  induction k generalizing n bs with
  | zero =>
    cases bs with
    | nil => cases h
    | cons b rest => exact Nat.succ_le_succ (Nat.zero_le _)
  | succ k ih =>
    cases bs with
    | nil => cases h
    | cons b rest =>
      rw [decodeGroups] at h
      split at h
      · -- one byte was read, and one is written
        cases h
        rw [encodeGroups, if_pos ‹_›]
        exact Nat.succ_le_succ (Nat.zero_le _)
      · obtain ⟨⟨m, rest'⟩, hmore, heq⟩ := Option.map_eq_some_iff.1 h
        cases heq
        rw [encodeGroups]
        split
        · -- more was read than would be written
          exact Nat.succ_le_succ (Nat.zero_le _)
        · have hdiv : (b.toNat % 128 + 128 * m) / 128 = m := by omega
          rw [hdiv]
          exact Nat.succ_le_succ (ih hmore)

/-- What is read fits `k` groups of seven bits and one byte. -/
theorem decodeGroups_lt {k n : Nat} {bs rest : Bytes} (h : decodeGroups k bs = some (n, rest)) :
    n < 128 ^ k * 256 := by
  induction k generalizing n bs with
  | zero =>
    cases bs with
    | nil => cases h
    | cons b rest =>
      cases h
      simpa using b.toNat_lt
  | succ k ih =>
    cases bs with
    | nil => cases h
    | cons b rest =>
      rw [decodeGroups] at h
      have hpow : 128 ^ (k + 1) * 256 = 128 * (128 ^ k * 256) := by ring
      rw [hpow]
      split at h
      · cases h
        have hpos : 0 < 128 ^ k := Nat.pow_pos (by decide)
        omega
      · obtain ⟨⟨m, rest'⟩, hmore, heq⟩ := Option.map_eq_some_iff.1 h
        cases heq
        have hlt := ih hmore
        omega

/-! ## Where a number ends -/

/-- Whether a byte says that no other group follows. -/
def endsNumber (b : UInt8) : Bool := b &&& 0x80 = 0

theorem endsNumber_iff (b : UInt8) : endsNumber b = true ↔ b.toNat < 128 := by
  rw [endsNumber, decide_eq_true_eq, Checked.high_bit_eq_zero]

/-- How many bytes a number of at most `k` continued groups takes: up to the first byte that says
so, or one more than `k`. -/
def extent (k : Nat) (bs : Bytes) : Nat :=
  match (bs.take k).findIdx? endsNumber with
  | some i => i + 1
  | none => k + 1

theorem extent_cons (k : Nat) (b : UInt8) (bs : Bytes) :
    extent (k + 1) (b :: bs) = if endsNumber b then 1 else extent k bs + 1 := by
  unfold extent
  rw [List.take_succ_cons, List.findIdx?_cons]
  cases endsNumber b with
  | true => rfl
  | false => cases h : (bs.take k).findIdx? endsNumber <;> simp

/-- Nothing is read when no byte says that the number ends and there is no last byte. -/
theorem decodeGroups_eq_none_iff (k : Nat) (bs : Bytes) :
    decodeGroups k bs = none ↔
      (∀ b ∈ bs.take k, endsNumber b = false) ∧ bs.length < k + 1 := by
  induction k generalizing bs with
  | zero =>
    cases bs with
    | nil => simp [decodeGroups]
    | cons b rest => simp [decodeGroups]
  | succ k ih =>
    cases bs with
    | nil => simp [decodeGroups]
    | cons b rest =>
      have hends := endsNumber_iff b
      rw [decodeGroups, List.take_succ_cons, List.forall_mem_cons, List.length_cons,
        Nat.succ_lt_succ_iff]
      split
      · rename_i hlast
        simp [hends.2 hlast]
      · rename_i hcontinued
        rw [Option.map_eq_none_iff, ih, eq_false_of_ne_true (mt hends.1 hcontinued), and_assoc]
        exact (and_iff_right rfl).symm

/-- What is read is taken, and no more. -/
theorem rest_of_decodeGroups {k n : Nat} {bs rest : Bytes}
    (h : decodeGroups k bs = some (n, rest)) :
    extent k bs ≤ bs.length ∧ rest = bs.drop (extent k bs) := by
  induction k generalizing n bs with
  | zero =>
    cases bs with
    | nil => cases h
    | cons b rest =>
      cases h
      exact ⟨Nat.succ_le_succ (Nat.zero_le _), rfl⟩
  | succ k ih =>
    cases bs with
    | nil => cases h
    | cons b rest =>
      have hends := endsNumber_iff b
      rw [decodeGroups] at h
      rw [extent_cons]
      split at h
      · rename_i hlast
        cases h
        rw [if_pos (hends.2 hlast)]
        exact ⟨Nat.succ_le_succ (Nat.zero_le _), rfl⟩
      · rename_i hcontinued
        obtain ⟨⟨m, rest'⟩, hmore, heq⟩ := Option.map_eq_some_iff.1 h
        cases heq
        obtain ⟨hle, hrest⟩ := ih hmore
        rw [if_neg (mt hends.1 hcontinued)]
        exact ⟨Nat.succ_le_succ hle, hrest⟩

/-! ## In words -/

/-- The bytes of a word, when at most `k` continued groups may still be written. -/
def encodeSteps : (k : Nat) → UInt64 → Bytes
  | 0, n => [n.toUInt8]
  | k + 1, n =>
    if n < 0x80 then [n.toUInt8]
    else (n.toUInt8 ||| 0x80) :: encodeSteps k (n >>> 7)

/-- How many bytes a word takes, from its leading zeros. -/
def sizeSteps (n : UInt64) : Nat :=
  let bits := 64 - n.toBitVec.clz.toNat
  if bits > 7 * groups then groups + 1 else if bits = 0 then 1 else (bits + 6) / 7

/-- Moves the sign of a word to its lowest bit. -/
def foldSteps (n : Int64) : UInt64 :=
  ((n <<< 1) ^^^ (n >>> 63)).toUInt64

/-- Moves the lowest bit of a word to its sign. -/
def unfoldSteps (n : UInt64) : Int64 :=
  if n &&& 1 = 0 then (n >>> 1).toInt64 else (~~~(n >>> 1)).toInt64

theorem marked_eq (b : UInt8) : b ||| 0x80 = UInt8.ofNat (b.toNat % 128 + 128) := by
  have hall : ∀ n < 256, UInt8.ofNat n ||| 0x80 = UInt8.ofNat (n % 128 + 128) := by
    decide +kernel
  have hbyte := hall b.toNat b.toNat_lt
  rwa [UInt8.ofNat_toNat] at hbyte

theorem encodeSteps_eq (k : Nat) (n : UInt64) : encodeSteps k n = encodeGroups k n.toNat := by
  induction k generalizing n with
  | zero => rfl
  | succ k ih =>
    have hsmall : n < 0x80 ↔ n.toNat < 128 := UInt64.lt_iff_toNat_lt
    have hshift : (n >>> 7).toNat = n.toNat / 128 := by
      rw [UInt64.toNat_shiftRight]
      exact Nat.shiftRight_eq_div_pow n.toNat 7
    have hgroup : n.toUInt8 ||| 0x80 = UInt8.ofNat (n.toNat % 128 + 128) := by
      rw [marked_eq, UInt64.toNat_toUInt8]
      congr 2
      omega
    simp only [encodeSteps, encodeGroups, hsmall, ih, hshift, hgroup]
    rfl

theorem bitLength_eq (n : UInt64) : bitLength n.toNat = 64 - n.toBitVec.clz.toNat := by
  apply Nat.le_antisymm
  · rw [bitLength_le_iff]
    exact BitVec.toNat_lt_two_pow_sub_clz
  · by_cases hzero : n.toBitVec = 0#64
    · rw [hzero]
      exact Nat.zero_le _
    · have hlow := BitVec.two_pow_sub_clz_le_toNat_of_ne_zero (by decide) hzero
      rw [Nat.sub_right_comm] at hlow
      have hbits := mt (bitLength_le_iff n.toNat (64 - n.toBitVec.clz.toNat - 1)).1
        (Nat.not_lt.2 hlow)
      omega

theorem sizeSteps_eq (n : UInt64) : sizeSteps n = size n := by
  rw [sizeSteps, size, bitLength_eq]

/-- The sign of a word, in all its bits. -/
theorem sign_eq (n : Int64) : n >>> 63 = if n.toInt < 0 then -1 else 0 := by
  have hlow := n.le_toInt
  have hhigh := n.toInt_lt
  have hshift : (n >>> 63).toInt = n.toInt / 2 ^ 63 := by
    show (n.toBitVec.sshiftRight 63).toInt = _
    rw [BitVec.toInt_sshiftRight, Int.shiftRight_eq_div_pow]
    rfl
  rw [← Int64.toInt_inj, hshift]
  split
  · rw [show (-1 : Int64).toInt = -1 from rfl]
    omega
  · rw [Int64.toInt_zero]
    omega

theorem foldSteps_eq (n : Int64) : foldSteps n = UInt64.ofNat (fold n.toInt) := by
  have hlow := n.le_toInt
  have hhigh := n.toInt_lt
  have hword : n.toInt = if 2 * n.toBitVec.toNat < 2 ^ 64 then (n.toBitVec.toNat : Int)
      else n.toBitVec.toNat - (2 ^ 64 : Nat) := BitVec.toInt_eq_toNat_cond _
  have hlt := n.toBitVec.isLt
  have htwice : (n <<< 1).toBitVec.toNat = 2 * n.toBitVec.toNat % 2 ^ 64 := by
    show (n.toBitVec <<< 1).toNat = _
    rw [BitVec.toNat_shiftLeft, Nat.shiftLeft_eq, Nat.mul_comm]
  rw [foldSteps, sign_eq, ← UInt64.toNat_inj, UInt64.toNat_ofNat', fold]
  split
  · rename_i hneg
    -- all bits turned over
    rw [Int64.xor_neg_one]
    show (~~~(n <<< 1).toBitVec).toNat = _
    rw [BitVec.toNat_not, htwice]
    split at hword <;> split <;> omega
  · rename_i hnonneg
    rw [Int64.xor_zero]
    show (n <<< 1).toBitVec.toNat = _
    rw [htwice]
    split at hword <;> split <;> omega

theorem unfoldSteps_eq (n : UInt64) : unfoldSteps n = Int64.ofInt (unfold n.toNat) := by
  have hlt := n.toNat_lt
  have hparity : n &&& 1 = 0 ↔ n.toNat % 2 = 0 := by
    rw [← UInt64.toNat_inj, UInt64.toNat_and]
    exact Iff.of_eq (congrArg (· = 0) (Nat.and_one_is_mod n.toNat))
  have hhalf : (n >>> 1).toNat = n.toNat / 2 := by
    rw [UInt64.toNat_shiftRight]
    exact Nat.shiftRight_eq_div_pow n.toNat 1
  have hsigned : (n >>> 1).toInt64.toInt = ((n.toNat / 2 : Nat) : Int) := by
    show (n >>> 1).toBitVec.toInt = _
    rw [BitVec.toInt_eq_toNat_of_lt]
    · exact congrArg Nat.cast hhalf
    · show 2 * (n >>> 1).toNat < _
      omega
  rw [unfoldSteps, unfold, ← Int64.toInt_inj]
  simp only [hparity]
  split
  · rw [hsigned, Int64.toInt_ofInt_of_le] <;> omega
  · rw [UInt64.toInt64_not, Int64.toInt_not, hsigned, Int64.toInt_ofInt]

/-! ## Laws of the codecs -/

/-- The laws of numbers that are written, read and measured. -/
structure Lawful {α : Type} (write : α → Bytes) (read? : Bytes → Option (α × Bytes))
    (length : α → Nat) : Prop where
  /-- What is written is read back, and what follows it is left. -/
  read_write : ∀ n rest, read? (write n ++ rest) = some (n, rest)
  /-- How many bytes are written is told beforehand, and no more than nine are. -/
  length_write : ∀ n, (write n).length = length n ∧ length n ≤ groups + 1
  /-- No fewer bytes are read as the number. -/
  shortest : ∀ n bs, read? bs = some (n, []) → (write n).length ≤ bs.length
  /-- Nothing is read when none of the first eight bytes ends the number and there is no ninth. -/
  none_iff : ∀ bs, read? bs = none ↔
    (∀ b ∈ bs.take groups, endsNumber b = false) ∧ bs.length < groups + 1
  /-- What is read is taken up to the byte that ends the number, or the ninth. -/
  rest : ∀ bs n rest, read? bs = some (n, rest) →
    extent groups bs ≤ bs.length ∧ rest = bs.drop (extent groups bs)

/-- The laws hold of whatever stands for the numbers one to one. -/
theorem Lawful.through {α β : Type} {write : α → Bytes} {read? : Bytes → Option (α × Bytes)}
    {length : α → Nat} (h : Lawful write read? length) {f : β → α} {g : α → β}
    (hgf : ∀ b, g (f b) = b) (hfg : ∀ a, f (g a) = a) :
    Lawful (fun b => write (f b)) (fun bs => (read? bs).map fun (a, rest) => (g a, rest))
      (fun b => length (f b)) where
  read_write b rest := by simp only [h.read_write, Option.map_some, hgf]
  length_write b := h.length_write (f b)
  shortest b bs hread := by
    obtain ⟨⟨a, rest⟩, hfound, heq⟩ := Option.map_eq_some_iff.1 hread
    cases heq
    rw [hfg]
    exact h.shortest a bs hfound
  none_iff bs := by rw [Option.map_eq_none_iff, h.none_iff]
  rest bs b rest hread := by
    obtain ⟨⟨a, rest'⟩, hfound, heq⟩ := Option.map_eq_some_iff.1 hread
    cases heq
    exact h.rest bs a rest hfound

theorem lawful_unsigned : Lawful encode decode? size where
  read_write := decode?_encode
  length_write n := by
    refine ⟨length_encodeGroups groups n.toNat, ?_⟩
    unfold size groups
    dsimp only
    split
    · exact Nat.le_refl _
    · split <;> omega
  shortest n bs h := by
    obtain ⟨⟨m, rest⟩, hfound, heq⟩ := Option.map_eq_some_iff.1 h
    cases heq
    -- eight groups of seven bits and a byte are no more than a word
    have hword : (UInt64.ofNat m).toNat = m := by
      rw [UInt64.toNat_ofNat']
      exact Nat.mod_eq_of_lt (decodeGroups_lt hfound)
    rw [encode, hword]
    exact shortest_encodeGroups hfound
  none_iff bs := by rw [decode?, Option.map_eq_none_iff, decodeGroups_eq_none_iff]
  rest bs n rest h := by
    obtain ⟨⟨m, rest'⟩, hfound, heq⟩ := Option.map_eq_some_iff.1 h
    cases heq
    exact rest_of_decodeGroups hfound

theorem fold_unfold (n : Nat) : fold (unfold n) = n := by
  unfold unfold fold
  split <;> split <;> omega

theorem lawful_signed : Lawful encodeSigned decodeSigned? sizeSigned := by
  refine lawful_unsigned.through (f := fun n : Int64 => UInt64.ofNat (fold n.toInt))
    (g := fun n => Int64.ofInt (unfold n.toNat)) (fun n => ?_) fun n => ?_
  · rw [UInt64.toNat_ofNat', Nat.mod_eq_of_lt (fold_lt n), unfold_fold, Int64.ofInt_toInt]
  · have hlt := n.toNat_lt
    have hword : (Int64.ofInt (unfold n.toNat)).toInt = unfold n.toNat := by
      unfold unfold
      rw [Int64.toInt_ofInt_of_le] <;> split <;> omega
    rw [hword, fold_unfold, UInt64.ofNat_toNat]

/-- What is done in words comes to the same as in `Nat`. -/
structure Stepwise : Prop where
  write : ∀ n, encodeSteps groups n = encode n
  writeSigned : ∀ n, encodeSteps groups (foldSteps n) = encodeSigned n
  size : ∀ n, sizeSteps n = size n
  sizeSigned : ∀ n, sizeSteps (foldSteps n) = sizeSigned n
  /-- A reader that the bytes run out for reports a broken encoding. -/
  read : ∀ bs entries, Checked.unsigned ⟨bs, entries⟩ =
    match decode? bs with
    | some (n, rest) => some (.ok n, ⟨rest, entries⟩)
    | none => some (.error .brokenEncoding, ⟨[], entries⟩)
  readSigned : ∀ bs, decodeSigned? bs =
    (decode? bs).map fun (n, rest) => (unfoldSteps n, rest)

theorem stepwise : Stepwise where
  write n := encodeSteps_eq groups n
  writeSigned n := by rw [encodeSteps_eq, foldSteps_eq, encodeSigned, encode]
  size := sizeSteps_eq
  sizeSigned n := by rw [sizeSteps_eq, foldSteps_eq, sizeSigned]
  read bs entries := by
    rw [Checked.unsigned_eq]
    unfold Checked.lift Reader.unsigned
    dsimp only
    cases decode? bs <;> rfl
  readSigned bs := by simp only [unfoldSteps_eq, decodeSigned?]

/-- Unsigned and signed words are written in as few bytes as can be, read back from them, and read
up to the byte that ends them; and shifts and masks of words do all of it. -/
theorem words_lawful :
    Lawful encode decode? size ∧ Lawful encodeSigned decodeSigned? sizeSigned ∧ Stepwise :=
  ⟨lawful_unsigned, lawful_signed, stepwise⟩

end QueryLink.Varint
