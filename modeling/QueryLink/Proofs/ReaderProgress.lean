import QueryLink.Proofs.ReaderLaws

/-!
# Readers make progress

Whatever a reader answers, the bytes it leaves are the end of the bytes it was given; and an entry
that is read has cost at least its tag. Both properties go through `bind`, as readers are built.

## Key results

- `Sheds.bind`, `Advances.bind`: how the two properties go through a reader
- `advances_header`: so every reader that starts with a tag advances
- `scalar_of_ne`: entries that hold no others are read alike at every depth, and cost a byte
-/

namespace QueryLink

variable {α β : Type}

namespace Varint

/-- What is left of a number is the end of the bytes. -/
theorem decodeGroups_suffix {k n : Nat} {bs rest : Bytes}
    (h : decodeGroups k bs = some (n, rest)) : rest <:+ bs := by
  induction k generalizing n bs with
  | zero =>
    cases bs with
    | nil => cases h
    | cons b tail =>
      cases h
      exact List.suffix_cons b rest
  | succ k ih =>
    cases bs with
    | nil => cases h
    | cons b tail =>
      simp only [decodeGroups] at h
      split at h
      · cases h
        exact List.suffix_cons b rest
      · -- a byte that announces more is followed by a shorter number
        obtain ⟨⟨m, rest'⟩, hmore, heq⟩ := Option.map_eq_some_iff.1 h
        cases heq
        exact (ih hmore).trans (List.suffix_cons b tail)

end Varint

namespace Reader

/-- Whatever the answer is, the bytes left are the end of the bytes given. -/
def Sheds (r : Reader α) : Prop := ∀ bs, (r bs).2 <:+ bs

/-- An answer that is no failure has cost `n` bytes or more. -/
def Costs (n : Nat) (r : Reader α) : Prop :=
  ∀ bs a rest, r bs = (.ok a, rest) → n + rest.length ≤ bs.length

/-- The reader leaves the end of the bytes, and what it reads has cost a byte or more. -/
structure Advances (r : Reader α) : Prop where
  sheds : r.Sheds
  costs : r.Costs 1

/-! ## Building readers -/

theorem sheds_pure (a : α) : (pure a : Reader α).Sheds := fun bs => List.suffix_refl bs

theorem sheds_fail (e : ValueError) : (fail e : Reader α).Sheds := fun bs => List.suffix_refl bs

theorem Sheds.bind {r : Reader α} {f : α → Reader β} (hr : r.Sheds) (hf : ∀ a, (f a).Sheds) :
    (r >>= f).Sheds := by
  intro bs
  have hleft := hr bs
  rcases h : r bs with ⟨answer, rest⟩
  rw [h] at hleft
  cases answer with
  | error e =>
    rw [bind_of_error h]
    exact hleft
  | ok a =>
    rw [bind_of_ok h]
    exact (hf a rest).trans hleft

theorem Sheds.attempt {r : Reader α} (hr : r.Sheds) : r.attempt.Sheds := by
  intro bs
  have hleft := hr bs
  unfold Reader.attempt
  rcases h : r bs with ⟨answer, rest⟩
  rw [h] at hleft
  cases answer with
  | error e => exact List.suffix_refl bs
  | ok a => exact hleft

/-- A reader that leaves the end of the bytes costs nothing or more. -/
theorem Sheds.costs {r : Reader α} (hr : r.Sheds) : r.Costs 0 := by
  intro bs a rest h
  have hleft := hr bs
  rw [h] at hleft
  rw [Nat.zero_add]
  exact hleft.length_le

/-- Costs add up. -/
theorem Costs.bind {r : Reader α} {f : α → Reader β} {m n : Nat} (hr : r.Costs m)
    (hf : ∀ a, (f a).Costs n) : (r >>= f).Costs (m + n) := by
  intro bs b rest h
  rcases hfirst : r bs with ⟨answer, middle⟩
  cases answer with
  | error e =>
    rw [bind_of_error hfirst] at h
    cases h
  | ok a =>
    rw [bind_of_ok hfirst] at h
    have hbefore := hr bs a middle hfirst
    have hafter := hf a middle b rest h
    omega

/-- A reader that has advanced may go on as it likes. -/
theorem Advances.bind {r : Reader α} {f : α → Reader β} (hr : r.Advances)
    (hf : ∀ a, (f a).Sheds) : (r >>= f).Advances :=
  ⟨hr.sheds.bind hf, hr.costs.bind fun a => (hf a).costs⟩

/-- A reader that is sure to advance may first do what it likes. -/
theorem Sheds.advances {r : Reader α} {f : α → Reader β} (hr : r.Sheds)
    (hf : ∀ a, (f a).Advances) : (r >>= f).Advances := by
  refine ⟨hr.bind fun a => (hf a).sheds, ?_⟩
  have hcosts := hr.costs.bind fun a => (hf a).costs
  rwa [Nat.zero_add] at hcosts

/-! ## Pieces -/

theorem sheds_peekKind : peekKind.Sheds := by
  intro bs
  unfold peekKind
  split
  · exact List.suffix_refl _
  · split <;> exact List.suffix_refl _

/-- A tag that is taken is one byte. -/
theorem advances_header (k : Kind) : (header k).Advances := by
  constructor
  · intro bs
    unfold header
    split
    · exact List.suffix_refl _
    · rename_i tag rest
      split
      · exact List.suffix_refl _
      · split
        · exact List.suffix_cons tag rest
        · exact List.suffix_refl _
  · intro bs tag rest h
    unfold header at h
    split at h
    · cases h
    · split at h
      · cases h
      · split at h
        · cases h
          rw [List.length_cons]
          omega
        · cases h

theorem sheds_take (n : Nat) : (take n).Sheds := by
  intro bs
  unfold take
  rw [Bytes.cut?_eq]
  split
  · rename_i taken rest h
    split at h
    · cases h
    · cases h
      exact List.drop_suffix n bs
  · exact List.suffix_refl bs

theorem sheds_unsigned : unsigned.Sheds := by
  intro bs
  unfold unsigned
  split
  · rename_i n rest h
    obtain ⟨⟨m, rest'⟩, hgroups, heq⟩ := Option.map_eq_some_iff.1 h
    cases heq
    exact Varint.decodeGroups_suffix hgroups
  · exact List.nil_suffix

theorem sheds_signed : signed.Sheds := by
  intro bs
  unfold signed
  split
  · rename_i n rest h
    obtain ⟨⟨m, rest'⟩, hnumber, heq⟩ := Option.map_eq_some_iff.1 h
    cases heq
    obtain ⟨⟨m', rest'⟩, hgroups, heq⟩ := Option.map_eq_some_iff.1 hnumber
    cases heq
    exact Varint.decodeGroups_suffix hgroups
  · exact List.nil_suffix

theorem sheds_short (what : Quantity) : (short what).Sheds := by
  refine sheds_signed.bind fun n => ?_
  split
  · exact sheds_pure _
  · exact sheds_fail _

theorem sheds_countBody (c : Counted) (tag : UInt8) : (countBody c tag).Sheds := by
  unfold countBody
  split
  · exact sheds_unsigned.attempt.bind fun n => sheds_pure _
  · exact sheds_pure _

/-! ## Entries of one kind -/

theorem advances_null : null.Advances :=
  (advances_header _).bind fun _ => sheds_pure _

theorem sheds_endOfContents : endOfContents.Sheds := by
  intro bs
  unfold endOfContents
  split
  · exact List.suffix_refl _
  · exact ((advances_header _).bind fun _ => sheds_pure _).sheds _

theorem advances_int : int.Advances := by
  refine (advances_header _).bind fun tag => ?_
  unfold intBody
  split
  · exact sheds_pure _
  · split
    · exact sheds_pure _
    · exact sheds_signed.attempt

theorem advances_float4 : float4.Advances :=
  (advances_header _).bind fun _ => (sheds_take 4).bind fun _ => sheds_pure _

theorem advances_float8 : float8.Advances :=
  (advances_header _).bind fun _ => (sheds_take 8).bind fun _ => sheds_pure _

theorem sheds_decimalBody (tag : UInt8) : (decimalBody tag).Sheds := by
  refine (sheds_short _).bind fun exponent => ?_
  split
  · exact sheds_signed.bind fun _ => sheds_pure _
  · refine sheds_unsigned.bind fun length => ?_
    dsimp only
    split
    · exact sheds_fail _
    · exact (sheds_take _).bind fun _ => sheds_pure _

theorem advances_decimal : decimal.Advances := by
  refine sheds_peekKind.advances fun k => ?_
  split
  · exact advances_int.bind fun _ => sheds_pure _
  · exact (advances_header _).bind fun tag => (sheds_decimalBody tag).attempt

theorem advances_character : character.Advances := by
  refine (advances_header _).bind fun tag => (sheds_countBody _ tag).bind fun n => ?_
  refine (sheds_take n).bind fun bytes => ?_
  split
  · exact sheds_pure _
  · exact sheds_fail _

theorem advances_octet : octet.Advances :=
  (advances_header _).bind fun tag => (sheds_countBody _ tag).bind fun n => sheds_take n

theorem advances_bit : bit.Advances := by
  refine (advances_header _).bind fun tag => (sheds_countBody _ tag).bind fun n => ?_
  refine (sheds_take _).bind fun bytes => ?_
  split
  · exact sheds_pure _
  · exact sheds_fail _

theorem advances_date : date.Advances :=
  (advances_header _).bind fun _ => sheds_signed.attempt

theorem advances_timeOfDay : timeOfDay.Advances :=
  (advances_header _).bind fun _ => sheds_unsigned.attempt

theorem sheds_pointBody : pointBody.Sheds := by
  refine sheds_signed.bind fun seconds => sheds_unsigned.bind fun nanos => ?_
  split
  · exact sheds_pure _
  · exact sheds_fail _

theorem advances_timePoint : timePoint.Advances :=
  (advances_header _).bind fun _ => sheds_pointBody.attempt

theorem advances_zonedTimeOfDay : zonedTimeOfDay.Advances :=
  (advances_header _).bind fun _ =>
    (sheds_unsigned.bind fun _ => (sheds_short _).bind fun _ => sheds_pure _).attempt

theorem advances_zonedTimePoint : zonedTimePoint.Advances :=
  (advances_header _).bind fun _ =>
    (sheds_pointBody.bind fun _ => (sheds_short _).bind fun _ => sheds_pure _).attempt

theorem advances_interval : interval.Advances :=
  (advances_header _).bind fun _ =>
    ((sheds_short _).bind fun _ => (sheds_short _).bind fun _ => (sheds_short _).bind fun _ =>
      sheds_signed.bind fun _ => sheds_pure _).attempt

theorem advances_rowBegin : rowBegin.Advances :=
  (advances_header _).bind fun tag => sheds_countBody _ tag

theorem advances_arrayBegin : arrayBegin.Advances :=
  (advances_header _).bind fun tag => sheds_countBody _ tag

/-! ## Entries of any kind -/

/-- Looking at the next kind takes nothing. -/
theorem peekKind_cases (bs : Bytes) :
    (∃ e, peekKind bs = (.error e, bs)) ∨ ∃ k, peekKind bs = (.ok k, bs) := by
  unfold peekKind
  split
  · exact .inr ⟨_, rfl⟩
  · split
    · exact .inr ⟨_, rfl⟩
    · exact .inl ⟨_, rfl⟩

/-- Entries of the kind hold no others: they are read alike at every depth, cost a byte or more,
and are values. -/
def Scalar (k : Kind) : Prop :=
  ∃ r : Reader (Option Value), r.Advances ∧ (∀ bs v rest, r bs = (.ok v, rest) → v ≠ none) ∧
    ∀ rows arrays bs, peekKind bs = (.ok k, bs) → entry rows arrays bs = r bs

/-- A kind whose entries are read by a reader of their own is scalar. -/
private theorem scalar_of_advances {k : Kind} {r : Reader α} (hr : r.Advances) (g : α → Value)
    (hentry : ∀ rows arrays bs, peekKind bs = (.ok k, bs) →
      entry rows arrays bs = (r >>= fun a => pure (some (g a))) bs) : Scalar k := by
  refine ⟨_, hr.bind fun a => sheds_pure (some (g a)), fun bs v rest h => ?_, hentry⟩
  rcases hfirst : r bs with ⟨answer, middle⟩
  cases answer with
  | error e =>
    rw [bind_of_error hfirst] at h
    cases h
  | ok a =>
    rw [bind_of_ok hfirst] at h
    cases h
    exact Option.some_ne_none _

/-- All entries but the end of contents, rows and arrays are scalar. -/
theorem scalar_of_ne {k : Kind} (hend : k ≠ .endOfContents) (hrow : k ≠ .row)
    (harray : k ≠ .array) : Scalar k := by
  cases k with
  | endOfContents => exact absurd rfl hend
  | row => exact absurd rfl hrow
  | array => exact absurd rfl harray
  | null => exact scalar_of_advances advances_null (fun _ => .null) fun _ _ _ h => bind_of_ok h
  | int => exact scalar_of_advances advances_int .int fun _ _ _ h => bind_of_ok h
  | float4 => exact scalar_of_advances advances_float4 .float4 fun _ _ _ h => bind_of_ok h
  | float8 => exact scalar_of_advances advances_float8 .float8 fun _ _ _ h => bind_of_ok h
  | decimal => exact scalar_of_advances advances_decimal .decimal fun _ _ _ h => bind_of_ok h
  | character => exact scalar_of_advances advances_character .character fun _ _ _ h => bind_of_ok h
  | octet => exact scalar_of_advances advances_octet .octet fun _ _ _ h => bind_of_ok h
  | bit => exact scalar_of_advances advances_bit .bit fun _ _ _ h => bind_of_ok h
  | date => exact scalar_of_advances advances_date .date fun _ _ _ h => bind_of_ok h
  | timeOfDay => exact scalar_of_advances advances_timeOfDay .timeOfDay fun _ _ _ h => bind_of_ok h
  | timePoint => exact scalar_of_advances advances_timePoint .timePoint fun _ _ _ h => bind_of_ok h
  | zonedTimeOfDay =>
    exact scalar_of_advances advances_zonedTimeOfDay .zonedTimeOfDay fun _ _ _ h => bind_of_ok h
  | zonedTimePoint =>
    exact scalar_of_advances advances_zonedTimePoint .zonedTimePoint fun _ _ _ h => bind_of_ok h
  | interval => exact scalar_of_advances advances_interval .interval fun _ _ _ h => bind_of_ok h

end Reader

end QueryLink
