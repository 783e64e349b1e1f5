/-! # Byte strings

Everything that travels on a link is a list of bytes. This file fixes how whole numbers are
laid out in a given count of bytes, most or least significant byte first, and reads them back.

Main statements:

* `cut?_eq`                                    cutting a string is taking and dropping
* `cut?_append`                                cutting finds the seam of two strings
* `length_bigEndian`, `length_littleEndian`    the layout has the asked length -/

namespace QueryLink

/-- A string of bytes, first byte first. -/
abbrev Bytes := List UInt8

namespace Bytes

/-- The first `n` bytes and the ones after them; `none` when there are fewer than `n`. It looks at
no more than `n + 1` bytes, however long the string is. -/
def cut? (n : Nat) (bs : Bytes) : Option (Bytes × Bytes) :=
  if n = 0 then some ([], bs)
  else match bs.drop (n - 1) with
    | [] => none
    | [_] => some (bs, [])
    | _ :: rest => some (bs.take n, rest)

theorem cut?_eq (n : Nat) (bs : Bytes) :
    cut? n bs = if bs.length < n then none else some (bs.take n, bs.drop n) := by
  unfold cut?
  by_cases zero : n = 0
  · simp [zero]
  have size : (bs.drop (n - 1)).length = bs.length - (n - 1) := List.length_drop
  have tail : bs.drop n = (bs.drop (n - 1)).tail := by
    rw [List.tail_drop, Nat.sub_add_cancel (Nat.pos_of_ne_zero zero)]
  rw [if_neg zero]
  cases found : bs.drop (n - 1) with
  | nil =>
    rw [found, List.length_nil] at size
    rw [if_pos (by omega)]
  | cons b rest =>
    rw [found, List.length_cons] at size
    rw [found, List.tail_cons] at tail
    rw [if_neg (by omega), tail]
    cases rest with
    | nil => rw [List.take_of_length_le (by simp at size; omega)]
    | cons => rfl

theorem cut?_append {front rest : Bytes} {n : Nat} (width : front.length = n) :
    cut? n (front ++ rest) = some (front, rest) := by
  subst width
  simp [cut?_eq]

/-! ## Numbers -/

/-- The low `width` bytes of `n`, least significant byte first. -/
def littleEndian : (width n : Nat) → Bytes
  | 0, _ => []
  | width + 1, n => UInt8.ofNat n :: littleEndian width (n / 256)

/-- The low `width` bytes of `n`, most significant byte first. -/
def bigEndian (width n : Nat) : Bytes :=
  (littleEndian width n).reverse

/-- The number whose bytes are `bs`, least significant byte first. -/
def ofLittleEndian : Bytes → Nat
  | [] => 0
  | b :: bs => b.toNat + 256 * ofLittleEndian bs

/-- The number whose bytes are `bs`, most significant byte first. -/
def ofBigEndian (bs : Bytes) : Nat :=
  ofLittleEndian bs.reverse

@[simp] theorem length_littleEndian (width n : Nat) : (littleEndian width n).length = width := by
  induction width generalizing n with
  | zero => rfl
  | succ width ih => simp [littleEndian, ih]

@[simp] theorem length_bigEndian (width n : Nat) : (bigEndian width n).length = width := by
  simp [bigEndian]

end Bytes

end QueryLink
