import QueryLink.Proofs.DecimalInteger
import QueryLink.Proofs.SignBytes

/-!
# Decimals on the wire

A decimal is written as an integer, with a coefficient of 64 bits, or with the bytes of a wider
one. Each form is read back as a decimal of the same number, though not always as the same decimal:
an integer comes without a scale, any other decimal reduced. Either is its own form on the wire, so
writing it again gives the same bytes.

## Key results

- `reads_written`: the decimal that comes back
- `value_written`, `encode_written`: it has the number and the bytes of the one that was written
- `decimal_encode_append`: so it is with every decimal, and wide coefficients are the shortest
-/

namespace QueryLink

namespace Decimal

/-- The decimal that comes back when one is written and read. -/
def written (d : Decimal) : Decimal :=
  match d.toInt64? with
  | some n => ofInt64 n
  | none => d.reduce

/-! ## Integers as decimals -/

/-- The coefficient of an integer is the integer. -/
theorem toInt_ofInt64 (n : Int64) : (ofInt64 n).coefficient.toInt = n.toInt := by
  have hlow := n.le_toInt
  have hhigh := n.toInt_lt
  rw [ofInt64, BitVec.toInt_ofInt, Int.bmod_eq_of_le] <;> omega

/-- An integer denotes itself. -/
theorem value_ofInt64 (n : Int64) : (ofInt64 n).value = n.toInt := by
  have hscale : (ofInt64 n).exponent.toInt = 0 := rfl
  rw [value, toInt_ofInt64, hscale, zpow_zero, mul_one]

/-- An integer is taken for one. -/
theorem toInt64?_ofInt64 (n : Int64) : (ofInt64 n).toInt64? = some n := by
  refine (toInt64?_eq_some _ n).2 ⟨value_ofInt64 n, fun hover => ?_⟩
  have hscale : (ofInt64 n).exponent.toInt = 0 := rfl
  have hhigh := hover.2
  rw [hscale] at hhigh
  exact absurd hhigh (by decide)

/-! ## What comes back -/

/-- What comes back denotes the same number. -/
theorem value_written (d : Decimal) : d.written.value = d.value := by
  unfold written
  split
  · rename_i n h
    rw [value_ofInt64, ((toInt64?_eq_some d n).1 h).1]
  · exact value_reduce d

/-- What comes back has the same bytes. -/
theorem encode_written (d : Decimal) : Encode.decimal d.written = Encode.decimal d := by
  unfold written
  split
  · rename_i n h
    simp only [Encode.decimal, toInt64?_ofInt64, h]
  · simp only [Encode.decimal, toInt64?_reduce, reduce_reduce]

end Decimal

namespace Reader

/-- Each form of a decimal is read back. -/
theorem reads_written (d : Decimal) : decimal.Reads (Encode.decimal d) d.written := by
  unfold Decimal.written
  split
  · rename_i n h
    have hbytes : Encode.decimal d = Encode.int n := by simp only [Encode.decimal, h]
    rw [hbytes]
    exact (leads_int n).reads ((reads_int n).map Decimal.ofInt64)
  · rename_i h
    exact reads_decimal h

/-! ## The wide form -/

/-- The wide form is for decimals that are no integers, with a coefficient of more than 64 bits. -/
theorem encode_wide {d : Decimal} {tail : Bytes} (h : Encode.decimal d = Tag.wideDecimal :: tail) :
    Decimal.fits64 d.reduce.coefficient.toInt = false ∧
      tail = Encode.short d.reduce.exponent ++
        Varint.encode (UInt64.ofNat (Encode.shortestSigned d.reduce.coefficient).length) ++
        Encode.shortestSigned d.reduce.coefficient := by
  cases hint : d.toInt64? with
  | some n =>
    -- the bytes of an integer start with another tag
    have hbytes : Encode.decimal d = Encode.int n := by simp only [Encode.decimal, hint]
    have hlead := (leads_int n).peekKind []
    rw [← hbytes, h] at hlead
    cases hlead
  | none =>
    simp only [Encode.decimal, hint] at h
    split at h
    · cases h
    · rename_i hwide
      cases h
      exact ⟨Bool.not_eq_true _ ▸ hwide, rfl⟩

/-- The number that a decimal denotes crosses the wire, and the bytes are minimal. -/
structure Crosses (d : Decimal) (rest : Bytes) : Prop where
  /-- What comes back denotes the same number and has the same bytes. -/
  reads : ∃ d', decimal (Encode.decimal d ++ rest) = (.ok d', rest) ∧ d'.value = d.value ∧
    Encode.decimal d' = Encode.decimal d
  /-- In the wide form the bytes of the coefficient are the shortest that widen to the sixteen of
  the reduced coefficient. -/
  wide : ∀ tail, Encode.decimal d = Tag.wideDecimal :: tail → ∃ field : Bytes,
    tail = Encode.short d.reduce.exponent ++ Varint.encode (UInt64.ofNat field.length) ++ field ∧
      field.IsShortest (Bytes.bigEndian 16 d.reduce.coefficient.toNat) ∧
      9 ≤ field.length ∧ field.length ≤ 16

/-- Every decimal is read back as one of the same number, whatever follows it, and wide coefficients
take no byte too many. -/
theorem decimal_encode_append (d : Decimal) (rest : Bytes) : Crosses d rest where
  reads := ⟨d.written, reads_written d rest, d.value_written, d.encode_written⟩
  wide tail h := by
    obtain ⟨hwide, htail⟩ := encode_wide h
    obtain ⟨hvalue, hmost⟩ := signedOfBytes_shortestSigned d.reduce.coefficient
    refine ⟨_, htail, shortest_shortestSigned ?_, ?_, hmost⟩
    · -- zero fits 64 bits
      intro hzero
      rw [hzero] at hwide
      exact absurd hwide (by decide)
    · exact nine_le_of_not_fits64 (by rw [hvalue]; exact hwide)

/-- `decimal_encode_append` at a tenth of the lowest coefficient, which takes all sixteen bytes, and
at a tenth of `2 ^ 64 + 2`, which takes nine. -/
theorem decimal_encode_append_wide :
    Crosses ⟨BitVec.ofInt 128 (-2 ^ 127), -1⟩ [0xff] ∧
    Encode.decimal ⟨BitVec.ofInt 128 (-2 ^ 127), -1⟩ =
      Tag.wideDecimal :: (0x01 :: 0x10 :: 0x80 :: List.replicate 15 0x00) ∧
    Crosses ⟨BitVec.ofInt 128 (2 ^ 64 + 2), -1⟩ [] ∧
    Encode.decimal ⟨BitVec.ofInt 128 (2 ^ 64 + 2), -1⟩ =
      Tag.wideDecimal :: [0x01, 0x09, 0x01, 0, 0, 0, 0, 0, 0, 0, 0x02] :=
  ⟨decimal_encode_append _ _, by decide +kernel, decimal_encode_append _ _, by decide +kernel⟩

end Reader

end QueryLink
