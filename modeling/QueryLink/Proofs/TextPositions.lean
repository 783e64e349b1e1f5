import QueryLink.Address
import QueryLink.Text.Utf8

/-!
# Positions in a text

A text can be searched by its bytes. A mark of ASCII characters is found there where it stands among
the characters, since every byte of another character is 128 or more, the first one as well as those
that continue it. So a text may be cut at a place that was found in its bytes.

## Key results

- `encode_append`, `encode_eq_bytes`: the bytes of a text, character by character
- `bytes_prefix_iff`: a mark is at the front of a text when its bytes are
- `position?_bytes`: the first place of a mark in a text
- `slice?_append`: a text is cut between characters
-/

namespace QueryLink.Utf8

/-! ## Bytes of a text -/

theorem encode_append (s t : String) : encode (s ++ t) = encode s ++ encode t := by
  rw [encode, String.toByteArray_append, ByteArray.data_append, Array.toList_append, encode, encode]

theorem length_encode (s : String) : (encode s).length = s.utf8ByteSize := by
  rw [encode, Array.length_toList]
  rfl

/-- The bytes of some characters. -/
def bytes (cs : List Char) : Bytes :=
  cs.flatMap String.utf8EncodeChar

theorem bytes_cons (c : Char) (cs : List Char) :
    bytes (c :: cs) = String.utf8EncodeChar c ++ bytes cs := List.flatMap_cons

theorem encode_eq_bytes (s : String) : encode s = bytes s.toList := by
  rw [← String.ofList_toList (s := s), encode, String.toByteArray_ofList, List.utf8Encode]
  simp [bytes]

/-- An ASCII character is one byte. -/
theorem utf8EncodeChar_of_lt {c : Char} (h : c.toNat < 128) :
    String.utf8EncodeChar c = [UInt8.ofNat c.toNat] :=
  if_pos (Nat.le_of_lt_succ h)

/-- All bytes of any other character are 128 or more. -/
theorem le_of_mem_utf8EncodeChar {c : Char} (h : ¬c.toNat < 128) {b : UInt8}
    (hb : b ∈ String.utf8EncodeChar c) : 128 ≤ b.toNat := by
  have hbyte {n : Nat} (hlow : 128 ≤ n) (hhigh : n < 256) : 128 ≤ (UInt8.ofNat n).toNat := by
    rwa [UInt8.toNat_ofNat_of_lt' hhigh]
  have hlong : ¬c.val.toNat ≤ 0x7f := fun hle => h (Nat.lt_succ_of_le hle)
  unfold String.utf8EncodeChar at hb
  dsimp only at hb
  -- two, three or four bytes; the high bits of each are fixed
  rw [if_neg hlong] at hb
  split at hb
  · simp only [List.mem_cons, List.not_mem_nil, or_false] at hb
    obtain rfl | rfl := hb <;> exact hbyte (by omega) (by omega)
  · split at hb
    · simp only [List.mem_cons, List.not_mem_nil, or_false] at hb
      obtain rfl | rfl | rfl := hb <;> exact hbyte (by omega) (by omega)
    · simp only [List.mem_cons, List.not_mem_nil, or_false] at hb
      obtain rfl | rfl | rfl | rfl := hb <;> exact hbyte (by omega) (by omega)

/-! ## Finding a mark -/

/-- The place of the first `mark` in some bytes. -/
def position? (mark : Bytes) : Bytes → Option Nat
  | [] => if mark.isEmpty then some 0 else none
  | b :: bs => if mark.isPrefixOf (b :: bs) then some 0 else (position? mark bs).map (· + 1)

/-- A mark of ASCII characters is at the front of a text when its bytes are. -/
theorem bytes_prefix_iff {mark : List Char} (h : ∀ c ∈ mark, c.toNat < 128) (cs : List Char) :
    bytes mark <+: bytes cs ↔ mark <+: cs := by
  induction mark generalizing cs with
  | nil => exact iff_of_true List.nil_prefix List.nil_prefix
  | cons m mark ih =>
    obtain ⟨hm, hmark⟩ := List.forall_mem_cons.1 h
    have hbyte {c : Char} (hc : c.toNat < 128) : (UInt8.ofNat c.toNat).toNat = c.toNat :=
      UInt8.toNat_ofNat_of_lt' (Nat.lt_trans hc (by decide))
    rw [bytes_cons, utf8EncodeChar_of_lt hm, List.singleton_append]
    cases cs with
    | nil => exact iff_of_false (by simp [bytes]) (by simp)
    | cons c cs =>
      by_cases hc : c.toNat < 128
      · -- one byte for one byte
        rw [bytes_cons, utf8EncodeChar_of_lt hc, List.singleton_append, List.cons_prefix_cons,
          List.cons_prefix_cons, ih hmark, ← UInt8.toNat_inj, hbyte hm, hbyte hc, Char.toNat_inj]
      · -- the first byte of the character is none of a mark
        obtain ⟨b, more, hmore⟩ := List.exists_cons_of_ne_nil
          (String.utf8EncodeChar_ne_nil (c := c))
        have hb : 128 ≤ b.toNat := le_of_mem_utf8EncodeChar hc (hmore ▸ List.mem_cons_self)
        rw [bytes_cons, hmore, List.cons_append, List.cons_prefix_cons, List.cons_prefix_cons]
        refine iff_of_false (fun hand => ?_) fun hand => hc (hand.1 ▸ hm)
        have hsame := congrArg UInt8.toNat hand.1
        rw [hbyte hm] at hsame
        omega

/-- Bytes that no mark starts with are passed over. -/
theorem position?_append {m : UInt8} (hm : m.toNat < 128) (mark : Bytes) {front : Bytes}
    (hfront : ∀ b ∈ front, 128 ≤ b.toNat) (rest : Bytes) :
    position? (m :: mark) (front ++ rest) =
      (position? (m :: mark) rest).map (· + front.length) := by
  induction front with
  | nil => simp
  | cons b front ih =>
    obtain ⟨hb, hfront⟩ := List.forall_mem_cons.1 hfront
    have hne : m ≠ b := by
      rintro rfl
      omega
    rw [List.cons_append, position?, List.isPrefixOf, beq_false_of_ne hne, Bool.false_and,
      if_neg Bool.false_ne_true, ih hfront, Option.map_map]
    rfl

/-- The first place of a mark of ASCII characters in the bytes of a text is the one where it stands
among the characters. -/
theorem position?_bytes {m : Char} {mark : List Char} (h : ∀ c ∈ m :: mark, c.toNat < 128)
    (cs : List Char) :
    position? (bytes (m :: mark)) (bytes cs) =
      (splitAtMark? (m :: mark) cs).map fun (before, _) => (bytes before).length := by
  have hm : m.toNat < 128 := h m List.mem_cons_self
  have hfirst : bytes (m :: mark) = UInt8.ofNat m.toNat :: bytes mark := by
    rw [bytes_cons, utf8EncodeChar_of_lt hm, List.singleton_append]
  have hbyte : (UInt8.ofNat m.toNat).toNat < 128 := by
    rwa [UInt8.toNat_ofNat_of_lt' (Nat.lt_trans hm (by decide))]
  induction cs with
  | nil =>
    rw [hfirst]
    rfl
  | cons c cs ih =>
    have hprefix := bytes_prefix_iff h (c :: cs)
    obtain ⟨b, more, hmore⟩ := List.exists_cons_of_ne_nil (String.utf8EncodeChar_ne_nil (c := c))
    -- the bytes that continue a character are passed over
    have hhigh : ∀ b ∈ more, 128 ≤ b.toNat := by
      intro b' hb'
      by_cases hc : c.toNat < 128
      · rw [utf8EncodeChar_of_lt hc] at hmore
        cases hmore
        cases hb'
      · exact le_of_mem_utf8EncodeChar hc (hmore ▸ List.mem_cons_of_mem _ hb')
    rw [bytes_cons c, hmore, List.cons_append] at hprefix ⊢
    rw [position?, splitAtMark?]
    simp only [List.isPrefixOf_iff_prefix, hprefix]
    split
    · rfl
    · rw [hfirst, position?_append hbyte _ hhigh, ← hfirst, ih]
      simp only [Option.map_map]
      congr 1
      funext p
      simp only [Function.comp_apply, bytes_cons, hmore, List.length_append, List.length_cons]
      omega

/-! ## Cutting -/

/-- A text is cut between characters. -/
theorem slice?_append (before part after : String) :
    slice? (before ++ part ++ after) before.utf8ByteSize
      (before.utf8ByteSize + part.utf8ByteSize) = some part := by
  have hinside : (before.utf8ByteSize ≤ before.utf8ByteSize + part.utf8ByteSize &&
      before.utf8ByteSize + part.utf8ByteSize ≤ (before ++ part ++ after).utf8ByteSize) = true := by
    rw [Bool.and_eq_true, decide_eq_true_eq, decide_eq_true_eq, String.utf8ByteSize_append,
      String.utf8ByteSize_append]
    omega
  have hfront : (encode (before ++ part ++ after)).take before.utf8ByteSize = encode before := by
    rw [encode_append, encode_append, List.append_assoc, List.take_left' (length_encode before)]
  have hpart : ((encode (before ++ part ++ after)).drop before.utf8ByteSize).take
      (before.utf8ByteSize + part.utf8ByteSize - before.utf8ByteSize) = encode part := by
    rw [encode_append, encode_append, List.append_assoc, List.drop_left' (length_encode before),
      Nat.add_sub_cancel_left, List.take_left' (length_encode part)]
  rw [slice?, if_pos hinside, hfront, hpart, decode_encode, decode_encode]

end QueryLink.Utf8
