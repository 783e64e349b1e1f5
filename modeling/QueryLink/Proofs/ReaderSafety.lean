import QueryLink.Proofs.EntryCount
import QueryLink.Proofs.ReaderRefusals

/-!
# Calls of a reader are safe

Whatever bytes a reader is given and whatever is asked of it one call after the other, no step of a
call is impossible. A call leaves the end of the bytes it found; all of them if it is refused for
the kind of the next entry; and fewer if it answers with a value. Reading a value and stepping over
one look at no more entries than there are bytes, and one more, whatever counts the bytes announce.

## Key results

- `Reader.nested_length`, `Reader.skip_length`: a value costs a byte or more
- `Call.safe`: what holds of every call at any bytes
- `transcript_sound`: what holds of every call of any sequence
-/

namespace QueryLink

variable {α β : Type}

namespace Reader

/-! ## Progress -/

theorem sheds_null? : null?.Sheds :=
  sheds_peekKind.bind fun k => by
    split
    · exact advances_null.sheds.bind fun _ => sheds_pure _
    · exact sheds_pure _

/-- A null that was there has cost a byte. -/
theorem null?_length {bs rest : Bytes} (h : null? bs = (.ok true, rest)) :
    rest.length < bs.length := by
  obtain ⟨e, hpeek⟩ | ⟨k, hpeek⟩ := peekKind_cases bs
  · rw [null?, bind_of_error hpeek] at h
    cases h
  · rw [null?, bind_of_ok hpeek] at h
    split at h
    · have hcost := (advances_null.bind fun _ => sheds_pure true).costs bs true rest h
      omega
    · cases h

theorem sheds_nested (levels : Nat) : (nested levels).Sheds := by
  intro bs
  obtain ⟨-, -, hleft, -⟩ := Checked.pays_nested levels bs
  exact hleft

/-- A value has cost a byte or more, also one that holds others. -/
theorem nested_length {levels : Nat} {bs rest : Bytes} {v : Option Value}
    (h : nested levels bs = (.ok v, rest)) (hv : v ≠ none) : rest.length < bs.length := by
  obtain ⟨looks, -, -, -, hwhole⟩ := Checked.pays_nested levels bs
  simp only [h] at hwhole
  have hless := hwhole v rfl hv
  omega

theorem value_length {bs rest : Bytes} {v : Option Value} (h : value bs = (.ok v, rest))
    (hv : v ≠ none) : rest.length < bs.length := by
  unfold value Reader.attempt at h
  split at h
  · rename_i hnested
    cases h
    exact nested_length hnested hv
  · cases h

theorem sheds_skipEntry (k : Kind) : (skipEntry k).Sheds := by
  cases k with
  | row => exact advances_rowBegin.sheds
  | array => exact advances_arrayBegin.sheds
  | _ => exact (sheds_nested 0).bind fun _ => sheds_pure _

theorem sheds_skipEntries (deep : Bool) (fuel left : Nat) : (skipEntries deep fuel left).Sheds := by
  induction fuel generalizing left with
  | zero => cases left <;> exact sheds_pure _
  | succ fuel ih =>
    cases left with
    | zero => exact sheds_pure _
    | succ left =>
      refine sheds_peekKind.bind fun k => ?_
      split
      · exact sheds_pure _
      · refine (sheds_skipEntry _).bind fun n => ?_
        dsimp only
        generalize (if deep then left + n else left) = total
        split
        · exact sheds_fail _
        · exact ih total

/-- Stepping over one entry or more costs a byte or more. -/
theorem skipEntries_length {deep : Bool} {fuel left : Nat} {bs rest : Bytes}
    (h : skipEntries deep fuel (left + 1) bs = (.ok true, rest)) : rest.length < bs.length := by
  cases fuel with
  | zero => cases h
  | succ fuel =>
    obtain ⟨e, hpeek⟩ | ⟨k, hpeek⟩ := peekKind_cases bs
    · rw [skipEntries_of_error hpeek] at h
      cases h
    by_cases hend : k = .endOfContents
    · subst hend
      rw [skipEntries_of_end hpeek] at h
      cases h
    rcases hskip : skipEntry k bs with ⟨e | n, middle⟩
    · rw [skipEntries_of_entry_error hpeek hend hskip] at h
      cases h
    · rw [skipEntries_of_entry hpeek hend hskip] at h
      have hfirst := skipEntry_length hpeek hend hskip
      generalize (if deep then left + n else left) = total at h
      by_cases hover : UInt64.size ≤ total
      · rw [if_pos hover] at h
        cases h
      · rw [if_neg hover] at h
        have hleft := sheds_skipEntries deep fuel total middle
        rw [h] at hleft
        exact Nat.lt_of_le_of_lt hleft.length_le hfirst

theorem sheds_skip (deep : Bool) : (skip deep).Sheds := by
  intro bs
  have hleft := sheds_skipEntries deep (bs.length + 1) 1 bs
  unfold skip
  split
  · rename_i hentries
    rwa [hentries] at hleft
  · exact List.suffix_refl bs
  · exact List.suffix_refl bs
  · exact List.suffix_refl bs

/-- A value that was stepped over has cost a byte or more. -/
theorem skip_length {deep : Bool} {bs rest : Bytes} (h : skip deep bs = (.ok true, rest)) :
    rest.length < bs.length := by
  unfold skip at h
  split at h
  · rename_i hentries
    cases h
    exact skipEntries_length hentries
  · cases h
  · cases h
  · cases h

end Reader

/-! ## Calls -/

/-- What can be asked of a reader. -/
inductive Call where
  | peekKind
  | null
  | null?
  | endOfContents
  | int
  | float4
  | float8
  | decimal
  | character
  | octet
  | bit
  | date
  | timeOfDay
  | timePoint
  | zonedTimeOfDay
  | zonedTimePoint
  | interval
  | rowBegin
  | arrayBegin
  | value
  | skip (deep : Bool)
  deriving Repr, DecidableEq

namespace Call

/-- What a call answers if it does not fail. -/
def Answer : Call → Type
  | peekKind => Kind
  | null => Unit
  | null? => Bool
  | endOfContents => Unit
  | int => Int64
  | float4 => UInt32
  | float8 => UInt64
  | decimal => Decimal
  | character => String
  | octet => Bytes
  | bit => BitString
  | date => Int64
  | timeOfDay => UInt64
  | timePoint => TimePoint
  | zonedTimeOfDay => ZonedTimeOfDay
  | zonedTimePoint => ZonedTimePoint
  | interval => Interval
  | rowBegin => Nat
  | arrayBegin => Nat
  | value => Option Value
  | skip _ => Bool

/-- The reader that a call runs. -/
def reader : (c : Call) → Reader c.Answer
  | peekKind => Reader.peekKind
  | null => Reader.null
  | null? => Reader.null?
  | endOfContents => Reader.endOfContents
  | int => Reader.int
  | float4 => Reader.float4
  | float8 => Reader.float8
  | decimal => Reader.decimal
  | character => Reader.character
  | octet => Reader.octet
  | bit => Reader.bit
  | date => Reader.date
  | timeOfDay => Reader.timeOfDay
  | timePoint => Reader.timePoint
  | zonedTimeOfDay => Reader.zonedTimeOfDay
  | zonedTimePoint => Reader.zonedTimePoint
  | interval => Reader.interval
  | rowBegin => Reader.rowBegin
  | arrayBegin => Reader.arrayBegin
  | value => Reader.value
  | skip deep => Reader.skip deep

/-- The same reader with every step checked. -/
def checked : (c : Call) → Checked c.Answer
  | peekKind => Checked.peekKind
  | null => Checked.null
  | null? => Checked.null?
  | endOfContents => Checked.endOfContents
  | int => Checked.int
  | float4 => Checked.float4
  | float8 => Checked.float8
  | decimal => Checked.decimal
  | character => Checked.character
  | octet => Checked.octet
  | bit => Checked.bit
  | date => Checked.date
  | timeOfDay => Checked.timeOfDay
  | timePoint => Checked.timePoint
  | zonedTimeOfDay => Checked.zonedTimeOfDay
  | zonedTimePoint => Checked.zonedTimePoint
  | interval => Checked.interval
  | rowBegin => Checked.rowBegin
  | arrayBegin => Checked.arrayBegin
  | value => Checked.value
  | skip deep => Checked.skip deep

/-- Whether an answer says that a value was taken, or the header of one. The kind of the next entry
and the end of contents are none. -/
def IsValue : (c : Call) → c.Answer → Prop
  | peekKind, _ => False
  | endOfContents, _ => False
  | null?, found => found = true
  | value, v => v ≠ none
  | skip _, passed => passed = true
  | _, _ => True

/-- What holds of a call at some bytes. -/
structure Safe (c : Call) (bs : Bytes) : Prop where
  /-- No step is impossible, and no more entries are looked at than there are bytes, and one. -/
  runs : Checked.Runs bs c.checked c.reader
  suffix : (c.reader bs).2 <:+ bs
  /-- A refusal takes nothing. -/
  refuses : ∀ e, (c.reader bs).1 = .error e → e.IsRefusal → (c.reader bs).2 = bs
  /-- A value costs a byte or more. -/
  progress : ∀ a, (c.reader bs).1 = .ok a → c.IsValue a → (c.reader bs).2.length < bs.length

theorem safe_of (c : Call) (hruns : ∀ bs, Checked.Runs bs c.checked c.reader)
    (hsheds : c.reader.Sheds) (hrefuses : c.reader.RefusesIntact)
    (hlength : ∀ bs a rest, c.reader bs = (.ok a, rest) → c.IsValue a → rest.length < bs.length)
    (bs : Bytes) : c.Safe bs where
  runs := hruns bs
  suffix := hsheds bs
  refuses e he := hrefuses bs e _ (Prod.ext he rfl)
  progress a ha hvalue := hlength bs a _ (Prod.ext ha rfl) hvalue

/-- A call that reads an entry of one kind is safe. -/
theorem safe_of_advances (c : Call) (hchecked : c.checked = Checked.lift c.reader)
    (hr : c.reader.Advances) (hrefuses : c.reader.RefusesIntact) (bs : Bytes) : c.Safe bs := by
  refine c.safe_of (Checked.runs_of_eq hchecked) hr.sheds hrefuses (fun bs a rest h _ => ?_) bs
  have hcost := hr.costs bs a rest h
  omega

/-- Every call is safe at any bytes. -/
theorem safe (c : Call) (bs : Bytes) : c.Safe bs := by
  cases c with
  | peekKind =>
    exact safe_of .peekKind (Checked.runs_of_eq Checked.peekKind_eq) Reader.sheds_peekKind
      Reader.refusesIntact_peekKind (fun _ _ _ _ => False.elim) bs
  | null? =>
    exact safe_of .null? (Checked.runs_of_eq Checked.null?_eq) Reader.sheds_null?
      Reader.refusesIntact_null? (fun _ _ _ h htrue => Reader.null?_length (htrue ▸ h)) bs
  | endOfContents =>
    exact safe_of .endOfContents (Checked.runs_of_eq Checked.endOfContents_eq)
      Reader.sheds_endOfContents Reader.refusesIntact_endOfContents (fun _ _ _ _ => False.elim) bs
  | value =>
    exact safe_of .value Checked.value_runs (Reader.sheds_nested _).attempt
      (Reader.refusesIntact_attempt _) (fun _ _ _ => Reader.value_length) bs
  | skip deep =>
    exact safe_of (.skip deep) (Checked.skip_runs deep) (Reader.sheds_skip deep)
      (Reader.refusesIntact_skip deep) (fun _ _ _ h htrue => Reader.skip_length (htrue ▸ h)) bs
  | null =>
    exact safe_of_advances .null Checked.null_eq Reader.advances_null Reader.refusesIntact_null bs
  | int =>
    exact safe_of_advances .int Checked.int_eq Reader.advances_int Reader.refusesIntact_int bs
  | float4 =>
    exact safe_of_advances .float4 Checked.float4_eq Reader.advances_float4
      Reader.refusesIntact_float4 bs
  | float8 =>
    exact safe_of_advances .float8 Checked.float8_eq Reader.advances_float8
      Reader.refusesIntact_float8 bs
  | decimal =>
    exact safe_of_advances .decimal Checked.decimal_eq Reader.advances_decimal
      Reader.refusesIntact_decimal bs
  | character =>
    exact safe_of_advances .character Checked.character_eq Reader.advances_character
      Reader.refusesIntact_character bs
  | octet =>
    exact safe_of_advances .octet Checked.octet_eq Reader.advances_octet
      Reader.refusesIntact_octet bs
  | bit =>
    exact safe_of_advances .bit Checked.bit_eq Reader.advances_bit Reader.refusesIntact_bit bs
  | date =>
    exact safe_of_advances .date Checked.date_eq Reader.advances_date Reader.refusesIntact_date bs
  | timeOfDay =>
    exact safe_of_advances .timeOfDay Checked.timeOfDay_eq Reader.advances_timeOfDay
      Reader.refusesIntact_timeOfDay bs
  | timePoint =>
    exact safe_of_advances .timePoint Checked.timePoint_eq Reader.advances_timePoint
      Reader.refusesIntact_timePoint bs
  | zonedTimeOfDay =>
    exact safe_of_advances .zonedTimeOfDay Checked.zonedTimeOfDay_eq Reader.advances_zonedTimeOfDay
      Reader.refusesIntact_zonedTimeOfDay bs
  | zonedTimePoint =>
    exact safe_of_advances .zonedTimePoint Checked.zonedTimePoint_eq Reader.advances_zonedTimePoint
      Reader.refusesIntact_zonedTimePoint bs
  | interval =>
    exact safe_of_advances .interval Checked.interval_eq Reader.advances_interval
      Reader.refusesIntact_interval bs
  | rowBegin =>
    exact safe_of_advances .rowBegin Checked.rowBegin_eq Reader.advances_rowBegin
      Reader.refusesIntact_rowBegin bs
  | arrayBegin =>
    exact safe_of_advances .arrayBegin Checked.arrayBegin_eq Reader.advances_arrayBegin
      Reader.refusesIntact_arrayBegin bs

end Call

/-! ## Sequences of calls -/

/-- A call with the bytes before and after it, its answer, and how many entries it looked at. -/
structure Turn where
  call : Call
  before : Bytes
  answer : Except ValueError call.Answer
  after : Bytes
  entries : Nat

/-- What holds of a call that was made. -/
structure Turn.Sound (t : Turn) : Prop where
  answers : t.call.reader t.before = (t.answer, t.after)
  suffix : t.after <:+ t.before
  refuses : ∀ e, t.answer = .error e → e.IsRefusal → t.after = t.before
  progress : ∀ a, t.answer = .ok a → t.call.IsValue a → t.after.length < t.before.length
  entries_le : t.entries ≤ t.before.length + 1

/-- The calls made one after the other, each with all steps checked; `none` if one of them stops. A
failure does not keep the next call from being made. -/
def transcript? : List Call → Bytes → Option (List Turn)
  | [], _ => some []
  | call :: calls, bs => do
    let (answer, m) ← call.checked ⟨bs, 0⟩
    let turns ← transcript? calls m.left
    return ⟨call, bs, answer, m.left, m.entries⟩ :: turns

/-- Each call finds the bytes that the one before it left, and the first one finds `bs`. -/
def Linked : Bytes → List Turn → Prop
  | _, [] => True
  | bs, t :: turns => t.before = bs ∧ Linked t.after turns

/-- The value reader is safe: whatever the bytes are and whatever calls are made one after the
other, none of them stops, and all are sound. -/
theorem transcript_sound (calls : List Call) (bs : Bytes) :
    ∃ turns, transcript? calls bs = some turns ∧ turns.map Turn.call = calls ∧ Linked bs turns ∧
      ∀ t ∈ turns, t.Sound := by
  induction calls generalizing bs with
  | nil => exact ⟨[], rfl, rfl, trivial, fun t ht => absurd ht List.not_mem_nil⟩
  | cons call calls ih =>
    have hsafe := call.safe bs
    obtain ⟨looks, hmost, hruns⟩ := hsafe.runs
    obtain ⟨turns, hturns, hcalls, hlinked, hsound⟩ := ih (call.reader bs).2
    have hentries : 0 + looks ≤ bs.length + 1 := by rwa [Nat.zero_add]
    let turn : Turn := ⟨call, bs, (call.reader bs).1, (call.reader bs).2, 0 + looks⟩
    refine ⟨turn :: turns, ?_, ?_, ⟨rfl, hlinked⟩, ?_⟩
    · rw [transcript?, hruns 0]
      show (transcript? calls (call.reader bs).2).bind _ = _
      rw [hturns]
      rfl
    · rw [List.map_cons, hcalls]
    · intro t ht
      obtain rfl | ht := List.mem_cons.1 ht
      · exact ⟨rfl, hsafe.suffix, hsafe.refuses, hsafe.progress, hentries⟩
      · exact hsound t ht

/-- An array that announces `2 ^ 64 - 1` elements and holds one: the array, the one and the end of
the bytes are looked at, and nothing is taken. -/
example : (transcript? [.value, .skip true, .arrayBegin]
    ([0xf9] ++ List.replicate 9 0xff ++ [0x05])).map (·.map fun t => (t.entries, t.after.length)) =
      some [(3, 11), (3, 11), (0, 1)] := by decide +kernel

end QueryLink
