import QueryLink.Proofs.ReaderProgress

/-!
# Refused readers take nothing

A reader that finds an entry of another kind than the asked one, or a tag that means nothing,
refuses. It does so at the tag, before anything is taken; what is behind a tag of the right kind may
be broken, but it is not refused.

## Key results

- `RefusesIntact.bind`: a refusal takes nothing as long as only the tag can be refused
- `refusesIntact_int`, `refusesIntact_decimal`, …: so it is with entries of every kind
-/

namespace QueryLink

variable {α β : Type}

/-- Whether an error says that the next entry is not what was asked for, or nothing known. -/
def ValueError.IsRefusal : ValueError → Prop
  | .typeMismatch .. => True
  | .unknownTag _ => True
  | _ => False

namespace Reader

/-- Where the reader refuses it takes nothing. -/
def RefusesIntact (r : Reader α) : Prop :=
  ∀ bs e rest, r bs = (.error e, rest) → e.IsRefusal → rest = bs

/-- The reader may fail but does not refuse. -/
def NeverRefuses (r : Reader α) : Prop :=
  ∀ bs e rest, r bs = (.error e, rest) → ¬ e.IsRefusal

variable {r : Reader α} {f : α → Reader β}

theorem neverRefuses_pure (a : α) : (pure a : Reader α).NeverRefuses := nofun

theorem neverRefuses_fail {e : ValueError} (he : ¬ e.IsRefusal) :
    (fail e : Reader α).NeverRefuses := by
  intro bs e' rest h
  cases h
  exact he

theorem NeverRefuses.bind (hr : r.NeverRefuses) (hf : ∀ a, (f a).NeverRefuses) :
    (r >>= f).NeverRefuses := by
  intro bs e rest h
  rcases hfirst : r bs with ⟨e' | a, middle⟩
  · rw [bind_of_error hfirst] at h
    cases h
    exact hr bs e rest hfirst
  · rw [bind_of_ok hfirst] at h
    exact hf a middle e rest h

theorem NeverRefuses.attempt (hr : r.NeverRefuses) : r.attempt.NeverRefuses := by
  intro bs e rest h
  unfold Reader.attempt at h
  split at h
  · cases h
  · rename_i e' rest' hfirst
    cases h
    exact hr bs e rest' hfirst

theorem NeverRefuses.refusesIntact (hr : r.NeverRefuses) : r.RefusesIntact :=
  fun bs e rest h he => absurd he (hr bs e rest h)

/-- An attempt takes nothing where it fails. -/
theorem refusesIntact_attempt (r : Reader α) : r.attempt.RefusesIntact := by
  intro bs e rest h _
  unfold Reader.attempt at h
  split at h
  · cases h
  · cases h
    rfl

/-- A reader that was not refused goes on and may fail, but not refuse. -/
theorem RefusesIntact.bind (hr : r.RefusesIntact) (hf : ∀ a, (f a).NeverRefuses) :
    (r >>= f).RefusesIntact := by
  intro bs e rest h he
  rcases hfirst : r bs with ⟨e' | a, middle⟩
  · rw [bind_of_error hfirst] at h
    cases h
    exact hr bs e rest hfirst he
  · rw [bind_of_ok hfirst] at h
    exact absurd he (hf a middle e rest h)

theorem refusesIntact_peekKind : peekKind.RefusesIntact := by
  intro bs e rest h _
  obtain ⟨e', hpeek⟩ | ⟨k, hpeek⟩ := peekKind_cases bs
  · rw [hpeek] at h
    cases h
    rfl
  · rw [hpeek] at h
    cases h

/-- Looking at the next kind takes nothing. -/
theorem refusesIntact_peekKind_bind {f : Kind → Reader β} (hf : ∀ k, (f k).RefusesIntact) :
    (peekKind >>= f).RefusesIntact := by
  intro bs e rest h he
  obtain ⟨e', hpeek⟩ | ⟨k, hpeek⟩ := peekKind_cases bs
  · rw [bind_of_error hpeek] at h
    cases h
    rfl
  · rw [bind_of_ok hpeek] at h
    exact hf k bs e rest h he

theorem refusesIntact_header (k : Kind) : (header k).RefusesIntact := by
  intro bs e rest h _
  unfold header at h
  split at h
  · cases h
    rfl
  · split at h
    · cases h
      rfl
    · split at h
      · cases h
      · cases h
        rfl

/-! ### Behind the tag -/

theorem neverRefuses_take (n : Nat) : (take n).NeverRefuses := by
  intro bs e rest h
  unfold take at h
  split at h
  · cases h
  · cases h
    exact id

theorem neverRefuses_unsigned : unsigned.NeverRefuses := by
  intro bs e rest h
  unfold unsigned at h
  split at h
  · cases h
  · cases h
    exact id

theorem neverRefuses_signed : signed.NeverRefuses := by
  intro bs e rest h
  unfold signed at h
  split at h
  · cases h
  · cases h
    exact id

theorem neverRefuses_short (what : Quantity) : (short what).NeverRefuses :=
  neverRefuses_signed.bind fun n => by
    split
    · exact neverRefuses_pure _
    · exact neverRefuses_fail id

theorem neverRefuses_countBody (c : Counted) (tag : UInt8) : (countBody c tag).NeverRefuses := by
  unfold countBody
  split
  · exact neverRefuses_unsigned.attempt.bind fun _ => neverRefuses_pure _
  · exact neverRefuses_pure _

theorem neverRefuses_intBody (tag : UInt8) : (intBody tag).NeverRefuses := by
  unfold intBody
  split
  · exact neverRefuses_pure _
  · split
    · exact neverRefuses_pure _
    · exact neverRefuses_signed.attempt

theorem neverRefuses_decimalBody (tag : UInt8) : (decimalBody tag).NeverRefuses :=
  (neverRefuses_short _).bind fun exponent => by
    split
    · exact neverRefuses_signed.bind fun _ => neverRefuses_pure _
    · refine neverRefuses_unsigned.bind fun length => ?_
      dsimp only
      split
      · exact neverRefuses_fail id
      · exact (neverRefuses_take _).bind fun _ => neverRefuses_pure _

theorem neverRefuses_pointBody : pointBody.NeverRefuses :=
  neverRefuses_signed.bind fun _ => neverRefuses_unsigned.bind fun _ => by
    split
    · exact neverRefuses_pure _
    · exact neverRefuses_fail id

/-! ### Entries of one kind -/

theorem refusesIntact_null : null.RefusesIntact :=
  (refusesIntact_header _).bind fun _ => neverRefuses_pure _

theorem refusesIntact_null? : null?.RefusesIntact :=
  refusesIntact_peekKind_bind fun k => by
    split
    · exact refusesIntact_null.bind fun _ => neverRefuses_pure _
    · exact (neverRefuses_pure false).refusesIntact

theorem refusesIntact_endOfContents : endOfContents.RefusesIntact := by
  intro bs e rest h he
  unfold endOfContents at h
  split at h
  · cases h
  · exact (refusesIntact_header _).bind (fun _ => neverRefuses_pure ()) bs e rest h he

theorem refusesIntact_int : int.RefusesIntact :=
  (refusesIntact_header _).bind neverRefuses_intBody

theorem refusesIntact_float4 : float4.RefusesIntact :=
  (refusesIntact_header _).bind fun _ => (neverRefuses_take 4).bind fun _ => neverRefuses_pure _

theorem refusesIntact_float8 : float8.RefusesIntact :=
  (refusesIntact_header _).bind fun _ => (neverRefuses_take 8).bind fun _ => neverRefuses_pure _

theorem refusesIntact_decimal : decimal.RefusesIntact :=
  refusesIntact_peekKind_bind fun k => by
    split
    · exact refusesIntact_int.bind fun _ => neverRefuses_pure _
    · exact (refusesIntact_header _).bind fun tag => (neverRefuses_decimalBody tag).attempt

theorem refusesIntact_character : character.RefusesIntact :=
  (refusesIntact_header _).bind fun tag => (neverRefuses_countBody _ tag).bind fun n =>
    (neverRefuses_take n).bind fun bytes => by
      split
      · exact neverRefuses_pure _
      · exact neverRefuses_fail id

theorem refusesIntact_octet : octet.RefusesIntact :=
  (refusesIntact_header _).bind fun tag => (neverRefuses_countBody _ tag).bind neverRefuses_take

theorem refusesIntact_bit : bit.RefusesIntact :=
  (refusesIntact_header _).bind fun tag => (neverRefuses_countBody _ tag).bind fun n =>
    (neverRefuses_take _).bind fun bytes => by
      split
      · exact neverRefuses_pure _
      · exact neverRefuses_fail id

theorem refusesIntact_date : date.RefusesIntact :=
  (refusesIntact_header _).bind fun _ => neverRefuses_signed.attempt

theorem refusesIntact_timeOfDay : timeOfDay.RefusesIntact :=
  (refusesIntact_header _).bind fun _ => neverRefuses_unsigned.attempt

theorem refusesIntact_timePoint : timePoint.RefusesIntact :=
  (refusesIntact_header _).bind fun _ => neverRefuses_pointBody.attempt

theorem refusesIntact_zonedTimeOfDay : zonedTimeOfDay.RefusesIntact :=
  (refusesIntact_header _).bind fun _ =>
    (neverRefuses_unsigned.bind fun _ => (neverRefuses_short _).bind fun _ =>
      neverRefuses_pure _).attempt

theorem refusesIntact_zonedTimePoint : zonedTimePoint.RefusesIntact :=
  (refusesIntact_header _).bind fun _ =>
    (neverRefuses_pointBody.bind fun _ => (neverRefuses_short _).bind fun _ =>
      neverRefuses_pure _).attempt

theorem refusesIntact_interval : interval.RefusesIntact :=
  (refusesIntact_header _).bind fun _ =>
    ((neverRefuses_short _).bind fun _ => (neverRefuses_short _).bind fun _ =>
      (neverRefuses_short _).bind fun _ => neverRefuses_signed.bind fun _ =>
        neverRefuses_pure _).attempt

theorem refusesIntact_rowBegin : rowBegin.RefusesIntact :=
  (refusesIntact_header _).bind fun tag => neverRefuses_countBody _ tag

theorem refusesIntact_arrayBegin : arrayBegin.RefusesIntact :=
  (refusesIntact_header _).bind fun tag => neverRefuses_countBody _ tag

/-! ### Entries of any kind -/

/-- Stepping over a value takes nothing where it fails. -/
theorem refusesIntact_skip (deep : Bool) : (skip deep).RefusesIntact := by
  intro bs e rest h _
  unfold skip at h
  split at h
  · cases h
  · cases h
  · cases h
  · cases h
    rfl

end Reader

end QueryLink
