import Mathlib.Algebra.Group.Int.Defs
import Mathlib.Algebra.Group.Nat.Defs
import QueryLink.Varint

/-!
# Variable length integers are read back

The encoder stops after a group below `128` or after `groups` continued ones, and the decoder
stops at the same byte. Both work on `Nat`; the words come in only at the end.

## Key results

- `decodeGroups_encodeGroups`: the groups of a number are read back in front of anything
- `decode?_encode`, `decodeSigned?_encodeSigned`: so are unsigned and signed words
-/

namespace QueryLink.Varint

/-- The groups of a number that fits `k` groups of seven bits and one byte are read back. -/
theorem decodeGroups_encodeGroups (k n : Nat) (rest : Bytes) (h : n < 128 ^ k * 256) :
    decodeGroups k (encodeGroups k n ++ rest) = some (n, rest) := by
  induction k generalizing n with
  | zero =>
    -- the last byte has no mark, so it may hold eight bits
    have hbyte : (UInt8.ofNat n).toNat = n := by
      rw [UInt8.toNat_ofNat']
      exact Nat.mod_eq_of_lt (by simpa using h)
    simp only [encodeGroups, List.singleton_append, decodeGroups, hbyte]
  | succ k ih =>
    rw [encodeGroups]
    split
    · -- a group below 128 is the last one, for both
      rename_i hsmall
      have hbyte : (UInt8.ofNat n).toNat = n := by
        rw [UInt8.toNat_ofNat']
        omega
      simp only [List.singleton_append, decodeGroups, hbyte, hsmall, if_true]
    · -- any other group is continued, and what is left fits one group less
      have hbyte : (UInt8.ofNat (n % 128 + 128)).toNat = n % 128 + 128 := by
        rw [UInt8.toNat_ofNat']
        omega
      have hrest : n / 128 < 128 ^ k * 256 := by
        rw [Nat.div_lt_iff_lt_mul (by decide)]
        calc n < 128 ^ (k + 1) * 256 := h
          _ = 128 ^ k * 256 * 128 := by rw [Nat.pow_succ]; omega
      have hcontinued : ¬n % 128 + 128 < 128 := by omega
      have hgroup : (n % 128 + 128) % 128 + 128 * (n / 128) = n := by omega
      simp only [List.cons_append, decodeGroups, hbyte, hcontinued, if_false, ih _ hrest,
        Option.map_some, hgroup]

/-- An unsigned word is read back, whatever follows it. -/
theorem decode?_encode (n : UInt64) (rest : Bytes) :
    decode? (encode n ++ rest) = some (n, rest) := by
  have hfits : n.toNat < 128 ^ groups * 256 := n.toNat_lt
  simp only [decode?, encode, decodeGroups_encodeGroups _ _ _ hfits, Option.map_some,
    UInt64.ofNat_toNat]

/-- Folding a signed word gives an unsigned one. -/
theorem fold_lt (n : Int64) : fold n.toInt < 2 ^ 64 := by
  have hlow := n.le_toInt
  have hhigh := n.toInt_lt
  unfold fold
  split <;> omega

/-- A signed word is read back, whatever follows it. -/
theorem decodeSigned?_encodeSigned (n : Int64) (rest : Bytes) :
    decodeSigned? (encodeSigned n ++ rest) = some (n, rest) := by
  have hfolded : (UInt64.ofNat (fold n.toInt)).toNat = fold n.toInt := by
    rw [UInt64.toNat_ofNat']
    exact Nat.mod_eq_of_lt (fold_lt n)
  simp only [decodeSigned?, encodeSigned, decode?_encode, Option.map_some, hfolded, unfold_fold,
    Int64.ofInt_toInt]

end QueryLink.Varint
