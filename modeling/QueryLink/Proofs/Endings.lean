import Mathlib.Data.List.TakeWhile
import QueryLink.Proofs.Consumption

/-!
# How a result set ends for its consumer

A result set is some records and then its end, or the news that the session ended before it did,
or nothing more because nobody is left who could tell. Every call gives the records that are ahead
and after them that one outcome: it depends on what came only, not on how it was read, and a
result set that was cut off never looks like one that ended.

## Key results

- `Position.next_ahead`, `Position.fill_ahead`, `Position.drain_ahead`: what the calls answer
- `Settled.reports`: a cursor at the end gives its outcome again and again
- `Reading.account_later`: what a consumer is given and told, whatever it did before
-/

namespace QueryLink.Cursor

open Feed (recordsOf)

variable {c : Cursor} {x : Exchange} {id : FeedId} {came past : List Feed.Event} {handed : Bytes}

/-! ## The outcome of a result set -/

/-- What a consumer learns after all records: what the last event says, or that nothing more can
come. Without an answer it has to wait. -/
def outcome (ending : Option Feed.Event) (isFed : Bool) : Option (Except Cause (Option Bytes)) :=
  match ending with
  | some e => some (answerTo e)
  | none => if isFed then none else some (.error .alreadyClosed)

/-- Each outcome has its one cause. -/
theorem outcome_iff (ending : Option Feed.Event) (isFed : Bool) :
    (outcome ending isFed = some (.ok none) ↔ ending = some .endOfRecords) ∧
    (outcome ending isFed = some (.error .serverCrashed) ↔ ending = some (.cutOff .crashed)) ∧
    (outcome ending isFed = some (.error .alreadyClosed) ↔
      ending = some (.cutOff .closed) ∨ ending = none ∧ isFed = false) ∧
    (outcome ending isFed = none ↔ ending = none ∧ isFed = true) := by
  rcases ending with _ | _ | _ | _ | _ <;> cases isFed <;> simp [outcome, answerTo]

/-- Events that are some records and then, maybe, how the result set ended. -/
structure History (came : List Feed.Event) (records : List Bytes) (ending : Option Feed.Event) :
    Prop where
  events : came = records.map .record ++ ending.toList
  ending (e : Feed.Event) (h : ending = some e) : e.isRecord = false

variable {records : List Bytes} {ending : Option Feed.Event}

/-- A history that starts with a record goes on as one. -/
theorem History.tail_record {bytes : Bytes} (h : History (.record bytes :: came) records ending) :
    ∃ later, records = bytes :: later ∧ History came later ending := by
  have hevents := h.events
  cases records with
  | nil =>
    -- the ending would be a record
    cases ending with
    | none => cases hevents
    | some e =>
      cases hevents
      cases h.ending _ rfl
  | cons record records =>
    cases hevents
    exact ⟨records, rfl, rfl, h.ending⟩

/-- A history that starts with no record is over with it. -/
theorem History.tail_other {e : Feed.Event} (h : History (e :: came) records ending)
    (he : e.isRecord = false) : records = [] ∧ ending = some e ∧ came = [] := by
  have hevents := h.events
  cases records with
  | nil =>
    cases ending with
    | none => cases hevents
    | some e =>
      cases hevents
      exact ⟨rfl, rfl, rfl⟩
  | cons record records =>
    cases hevents
    cases he

/-- A history of nothing has no records and no ending. -/
theorem History.of_nil (h : History [] records ending) : records = [] ∧ ending = none := by
  obtain ⟨hrecords, hending⟩ := List.append_eq_nil_iff.1 h.events.symm
  cases ending with
  | none => exact ⟨List.map_eq_nil_iff.1 hrecords, rfl⟩
  | some e => cases hending

/-- The records of a history are its records. -/
theorem History.recordsOf_eq (h : History came records ending) : recordsOf came = records := by
  induction came generalizing records with
  | nil => exact h.of_nil.1.symm
  | cons e came ih =>
    cases he : e.isRecord with
    | true =>
      cases e with
      | record bytes =>
        obtain ⟨later, rfl, hlater⟩ := h.tail_record
        rw [Feed.recordsOf_cons_record, ih hlater]
      | _ => cases he
    | false =>
      obtain ⟨rfl, -, rfl⟩ := h.tail_other he
      rw [Feed.recordsOf_cons_other he]
      rfl

/-- Behind records that were taken there is a history again. -/
theorem History.behind_records {queue : List Feed.Event}
    (h : History (past ++ queue) records ending) (hpast : ∀ e ∈ past, e.isRecord = true) :
    ∃ waiting, History queue waiting ending := by
  induction past generalizing records with
  | nil => exact ⟨records, h⟩
  | cons e past ih =>
    rw [List.forall_mem_cons] at hpast
    cases e with
    | record bytes =>
      obtain ⟨later, -, hlater⟩ := h.tail_record
      exact ih hlater hpast.2
    | _ => cases hpast.1

/-- Behind the ending there is nothing. -/
theorem History.behind_ending {before queue : List Feed.Event} {e : Feed.Event}
    (h : History (before ++ [e] ++ queue) records ending) (he : e.isRecord = false) :
    ending = some e ∧ queue = [] := by
  induction before generalizing records with
  | nil => exact (h.tail_other he).2
  | cons first before ih =>
    cases hfirst : first.isRecord with
    | true =>
      cases first with
      | record bytes =>
        obtain ⟨later, -, hlater⟩ := h.tail_record
        exact ih hlater
      | _ => cases hfirst
    | false =>
      have hnil := (h.tail_other hfirst).2.2
      simp at hnil

/-! ## What the calls answer -/

/-- The records a consumer can have without anybody's help, first one first. -/
def ahead (c : Cursor) (x : Exchange) (id : FeedId) : List Bytes :=
  (if c.current = [] then [] else [c.current]) ++ recordsOf (x.catalog.feed id).queue

theorem ahead_of_nil (h : c.current = []) (x : Exchange) (id : FeedId) :
    ahead c x id = recordsOf (x.catalog.feed id).queue := by
  rw [ahead, if_pos h, List.nil_append]

theorem ahead_of_ne (h : c.current ≠ []) (x : Exchange) (id : FeedId) :
    ahead c x id = c.current :: recordsOf (x.catalog.feed id).queue := by
  rw [ahead, if_neg h, List.singleton_append]

/-- The bytes that are ahead are what is left of a record and the records that wait. -/
theorem flatten_ahead (c : Cursor) (x : Exchange) (id : FeedId) :
    (ahead c x id).flatten = c.current ++ (recordsOf (x.catalog.feed id).queue).flatten := by
  by_cases hcurrent : c.current = []
  · rw [ahead_of_nil hcurrent, hcurrent, List.nil_append]
  · rw [ahead_of_ne hcurrent, List.flatten_cons]

/-- The first record, or without one the outcome. -/
def firstOr (records : List Bytes) (outcome : Option (Except Cause (Option Bytes))) :
    Option (Except Cause (Option Bytes)) :=
  match records with
  | record :: _ => some (.ok (some record))
  | [] => outcome

/-- The outcome of a history is no record. -/
theorem History.outcome_ne (h : History came records ending) (isFed : Bool) (bytes : Bytes) :
    outcome ending isFed ≠ some (.ok (some bytes)) := by
  cases ending with
  | none => cases isFed <;> simp [outcome]
  | some e =>
    have he := h.ending e rfl
    cases e with
    | record bytes => cases he
    | endOfRecords => simp [outcome, answerTo]
    | cutOff outage => cases outage <;> simp [outcome, answerTo]

/-- The first event tells the first record, or without one the outcome. -/
theorem History.firstOr_cons {e : Feed.Event} (h : History (e :: came) records ending)
    (isFed : Bool) :
    some (answerTo e) = firstOr (recordsOf (e :: came)) (outcome ending isFed) ∧
      recordsOf came = (recordsOf (e :: came)).tail := by
  cases he : e.isRecord with
  | true =>
    cases e with
    | record bytes => exact ⟨rfl, rfl⟩
    | _ => cases he
  | false =>
    -- an event that is no record is the last one
    obtain ⟨-, rfl, rfl⟩ := h.tail_other he
    rw [Feed.recordsOf_cons_other he]
    exact ⟨rfl, rfl⟩

/-- A settled answer is the outcome, and nothing waits then. -/
theorem Position.outcome_of_settled (h : Position id came past handed c x)
    (hhistory : History came records ending) {answer : Except Cause (Option Bytes)}
    (hsettled : settled? c.state = some answer) :
    (x.catalog.feed id).queue = [] ∧ outcome ending (x.catalog.isFed id) = some answer := by
  have hstate := h.state
  have hbehind := hhistory
  rw [← h.came] at hbehind
  cases hc : c.state with
  | connecting =>
    rw [hc] at hsettled
    cases hsettled
  | streaming =>
    rw [hc] at hsettled
    cases hsettled
  | created =>
    rw [hc] at hstate
    exact hstate.elim
  | endOfRecords =>
    rw [hc] at hstate hsettled
    obtain ⟨before, rfl⟩ := hstate
    obtain ⟨rfl, hqueue⟩ := hbehind.behind_ending rfl
    exact ⟨hqueue, hsettled⟩
  | crashed =>
    rw [hc] at hstate hsettled
    obtain ⟨before, rfl⟩ := hstate
    obtain ⟨rfl, hqueue⟩ := hbehind.behind_ending rfl
    exact ⟨hqueue, hsettled⟩
  | closed =>
    rw [hc] at hstate hsettled
    obtain ⟨before, rfl⟩ | ⟨⟨hqueue, hunfed⟩, hrecords⟩ := hstate
    · obtain ⟨rfl, hqueue⟩ := hbehind.behind_ending rfl
      exact ⟨hqueue, hsettled⟩
    · -- only records came, and nobody is left who could add to them
      obtain ⟨waiting, hwaiting⟩ := hbehind.behind_records hrecords
      rw [hqueue] at hwaiting
      rw [hwaiting.of_nil.2, hunfed]
      exact ⟨hqueue, hsettled⟩

/-- The next call gives the first record that is ahead, or without one the outcome. -/
theorem Position.next_ahead (h : Position id came past handed c x)
    (hhistory : History came records ending) :
    (c.next x).1 = firstOr (ahead c x id) (outcome ending (x.catalog.isFed id)) ∧
      ahead (c.next x).2.1 (c.next x).2.2 id = (ahead c x id).tail ∧
      (c.next x).2.2.catalog.isFed id = x.catalog.isFed id := by
  have hbehind := hhistory
  rw [← h.came] at hbehind
  have hcase := next_cases h.feed x
  generalize c.next x = result at hcase ⊢
  cases hcase with
  | current hcurrent =>
    rw [ahead_of_ne hcurrent, ahead_of_nil rfl]
    exact ⟨rfl, rfl, rfl⟩
  | settled hcurrent hsettled =>
    obtain ⟨hqueue, houtcome⟩ := h.outcome_of_settled hhistory hsettled
    rw [ahead_of_nil hcurrent, hqueue, houtcome]
    exact ⟨rfl, rfl, rfl⟩
  | event hcurrent hsettled hqueue =>
    obtain ⟨waiting, hwaiting⟩ := hbehind.behind_records (h.state.records hsettled)
    rw [hqueue] at hwaiting
    obtain ⟨hfirst, htail⟩ := hwaiting.firstOr_cons (x.catalog.isFed id)
    rw [ahead_of_nil hcurrent, hqueue]
    refine ⟨hfirst, (ahead_of_nil hcurrent _ _).trans ?_, isFed_takeEvent x id⟩
    rw [queue_takeEvent, hqueue]
    exact htail
  | waits hcurrent hsettled hqueue hfed =>
    obtain ⟨waiting, hwaiting⟩ := hbehind.behind_records (h.state.records hsettled)
    rw [hqueue] at hwaiting
    rw [ahead_of_nil hcurrent, ahead_of_nil hcurrent, queue_takeEvent, hqueue, hwaiting.of_nil.2,
      hfed]
    exact ⟨rfl, rfl, (isFed_takeEvent x id).trans hfed⟩
  | deserted hcurrent hsettled hqueue hunfed =>
    obtain ⟨waiting, hwaiting⟩ := hbehind.behind_records (h.state.records hsettled)
    rw [hqueue] at hwaiting
    rw [ahead_of_nil hcurrent, hqueue, hwaiting.of_nil.2, hunfed]
    refine ⟨rfl, (ahead_of_nil hcurrent _ _).trans ?_, (isFed_takeEvent x id).trans hunfed⟩
    rw [queue_takeEvent, hqueue]
    rfl

/-- Looking for a record gives the first one ahead that is not empty. -/
theorem Position.fill_ahead (h : Position id came past handed c x)
    (hhistory : History came records ending) {fuel : Nat}
    (hfuel : (ahead c x id).length < fuel) :
    (Cursor.fill fuel c x).1 = firstOr ((ahead c x id).dropWhile List.isEmpty)
      (outcome ending (x.catalog.isFed id)) := by
  induction fuel generalizing past handed c x with
  | zero => exact absurd hfuel (Nat.not_lt_zero _)
  | succ fuel ih =>
    obtain ⟨past', hnext⟩ := h.next
    obtain ⟨hanswer, htail, hfed⟩ := h.next_ahead hhistory
    have hne := hhistory.outcome_ne (x.catalog.isFed id)
    cases hahead : ahead c x id with
    | nil =>
      rw [hahead] at hanswer
      have hother : (c.next x).1 ≠ some (.ok (some [])) := by
        rw [hanswer]
        exact hne []
      rw [fill_other hother, hanswer]
      rfl
    | cons record later =>
      rw [hahead] at hanswer htail hfuel
      cases record with
      | nil =>
        rw [fill_empty hanswer]
        have hlater := ih hnext (by rw [htail]; simpa using hfuel)
        rw [htail, hfed] at hlater
        exact hlater
      | cons byte bytes =>
        have hother : (c.next x).1 ≠ some (.ok (some [])) := by simp [hanswer, firstOr]
        rw [fill_other hother, hanswer]
        rfl

/-- Reading to the end gives all records ahead and then the outcome. -/
theorem Position.drain_ahead (h : Position id came past handed c x)
    (hhistory : History came records ending) {fuel : Nat}
    (hfuel : (ahead c x id).length < fuel) :
    (Cursor.drain fuel c x).1 = (ahead c x id).flatten ∧
      (Cursor.drain fuel c x).2.1 =
        (outcome ending (x.catalog.isFed id)).map (Except.map fun _ => ()) := by
  induction fuel generalizing past handed c x with
  | zero => exact absurd hfuel (Nat.not_lt_zero _)
  | succ fuel ih =>
    obtain ⟨past', hnext⟩ := h.next
    obtain ⟨hanswer, htail, hfed⟩ := h.next_ahead hhistory
    have hne := hhistory.outcome_ne (x.catalog.isFed id)
    cases hahead : ahead c x id with
    | nil =>
      rw [hahead, firstOr] at hanswer
      rw [← hanswer] at hne
      rw [drain_other hne, hanswer]
      exact ⟨rfl, rfl⟩
    | cons record later =>
      rw [hahead] at hanswer htail hfuel
      obtain ⟨hbytes, hending⟩ := ih hnext (by rw [htail]; simpa using hfuel)
      rw [drain_record hanswer, hbytes, hending, htail, hfed]
      exact ⟨rfl, rfl⟩

/-- What can be had without anybody's help is had. -/
theorem Position.length_ahead_lt (h : Position id came past handed c x) :
    (ahead c x id).length < c.backlog x := by
  have hrecords : (recordsOf (x.catalog.feed id).queue).length ≤ (x.catalog.feed id).queue.length :=
    List.length_filterMap_le _ _
  have hcurrent : (if c.current = [] then [] else [c.current]).length ≤ 1 := by
    split <;> simp
  rw [ahead, List.length_append, backlog, h.feed]
  show _ < (x.catalog.feed id).queue.length + 2
  omega

/-- A read that asks for bytes answers with a part of the record that was found. -/
theorem read_answer (c : Cursor) (x : Exchange) {n : Nat} (hn : n ≠ 0) :
    (c.read x n).1 =
      (fill (c.backlog x) c x).1.map (Except.map fun record => (record.getD []).take n) := by
  rw [read_eq c x hn]
  rcases fill (c.backlog x) c x with ⟨_ | _ | _ | record, c', x'⟩
  · rfl
  · rfl
  · simp [Except.map]
  · rfl

/-- What the calls answer where some records are ahead and that is the outcome. -/
structure Answers (c : Cursor) (x : Exchange) (ahead : List Bytes)
    (outcome : Option (Except Cause (Option Bytes))) : Prop where
  next : (c.next x).1 = firstOr ahead outcome
  nextItem (h : ¬ c.state.IsOver) : (c.nextItem x).1 = (firstOr ahead outcome).map itemOf
  /-- A stream that told its outcome has no more items. -/
  noItem (h : c.state.IsOver) : (c.nextItem x).1 = some none
  /-- Empty records are nothing to read. -/
  read (n : Nat) (hn : n ≠ 0) : (c.read x n).1 =
    (firstOr (ahead.dropWhile List.isEmpty) outcome).map
      (Except.map fun record => (record.getD []).take n)
  /-- Who asks for nothing gets nothing, without more ado. -/
  readNothing : c.read x 0 = (some (.ok []), c, x)
  readToEnd : (c.readToEnd x).1 = ahead.flatten ∧
    (c.readToEnd x).2.1 = outcome.map (Except.map fun _ => ())

/-- From its place a consumer gets what is ahead, and then the outcome. -/
theorem Position.answers (h : Position id came past handed c x)
    (hhistory : History came records ending) :
    Answers c x (ahead c x id) (outcome ending (x.catalog.isFed id)) where
  next := (h.next_ahead hhistory).1
  nextItem hover := by
    rw [nextItem_open fun hboth => hover hboth.1, (h.next_ahead hhistory).1]
  noItem hover := by rw [nextItem_over hover (h.whole hover)]
  read n hn := by rw [read_answer c x hn, h.fill_ahead hhistory h.length_ahead_lt]
  readNothing := rfl
  readToEnd := h.drain_ahead hhistory h.length_ahead_lt

/-- A read that asks for bytes and gets none is at the end of all records. -/
theorem Position.read_nil (h : Position id came past handed c x)
    (hhistory : History came records ending) {n : Nat} (hn : n ≠ 0)
    (hread : (c.read x n).1 = some (.ok [])) :
    ending = some .endOfRecords ∧ handed = records.flatten := by
  have hfill := h.fill_ahead hhistory h.length_ahead_lt
  -- what was found was the end, since a record that is found is not empty
  have hend : (Cursor.fill (c.backlog x) c x).1 = some (.ok none) := by
    rw [read_answer c x hn] at hread
    cases hfound : (Cursor.fill (c.backlog x) c x).1 with
    | none => simp [hfound] at hread
    | some found =>
      rw [hfound] at hread
      rcases found with e | _ | record
      · cases hread
      · rfl
      · obtain ⟨byte, bytes, rfl⟩ := List.exists_cons_of_ne_nil (h.fill_record hfound).1
        obtain ⟨n, rfl⟩ := Nat.exists_eq_succ_of_ne_zero hn
        simp [Except.map] at hread
  rw [hend] at hfill
  cases hfirst : (ahead c x id).dropWhile List.isEmpty with
  | cons record later =>
    rw [hfirst] at hfill
    cases hfill
  | nil =>
    rw [hfirst] at hfill
    have hnothing : (ahead c x id).flatten = [] := by
      rw [List.flatten_eq_nil_iff]
      simpa using List.dropWhile_eq_nil_iff.1 hfirst
    have hconserved := h.conserved
    rw [← flatten_ahead, hnothing, List.append_nil, hhistory.recordsOf_eq] at hconserved
    exact ⟨(outcome_iff ending (x.catalog.isFed id)).1.1 hfill.symm, hconserved⟩

/-! ## An outcome that was told -/

/-- A cursor at the end of its result set, with the outcome it goes on telling. -/
structure Settled (answer : Except Cause (Option Bytes)) (c : Cursor) : Prop where
  current : c.current = []
  isOver : c.state.IsOver
  told : settled? c.state = some answer

/-- Every call tells the outcome, a stream has no more items, and everything stays as it is,
whatever became of the exchange. -/
structure Reports (answer : Except Cause (Option Bytes)) (c : Cursor) : Prop where
  next (x : Exchange) : c.next x = (some answer, c, x)
  nextItem (x : Exchange) : c.nextItem x = (some none, c, x)
  read (x : Exchange) (n : Nat) (hn : n ≠ 0) :
    c.read x n = (some (answer.map fun record => record.getD []), c, x)
  readNothing (x : Exchange) : c.read x 0 = (some (.ok []), c, x)
  readToEnd (x : Exchange) : c.readToEnd x = ([], some (answer.map fun _ => ()), c, x)

variable {answer : Except Cause (Option Bytes)}

/-- A cursor at the end tells its outcome. -/
theorem Settled.reports (h : Settled answer c) : Reports answer c := by
  have hnext : ∀ x, c.next x = (some answer, c, x) := fun x => next_settled h.current h.told
  have hne := settled?_ne_record h.told
  have hbacklog : ∀ x, ∃ fuel, c.backlog x = fuel + 1 := by
    intro x
    unfold backlog
    split <;> exact ⟨_, rfl⟩
  refine ⟨hnext, nextItem_over h.isOver h.current, fun x n hn => ?_, fun x => rfl, fun x => ?_⟩
  · obtain ⟨fuel, hfuel⟩ := hbacklog x
    have hother : (c.next x).1 ≠ some (.ok (some [])) := by
      rw [hnext]
      simpa using hne []
    rw [read_eq c x hn, hfuel, fill_other hother, hnext]
    rcases answer with e | _ | record
    · rfl
    · rfl
    · exact absurd rfl (hne record)
  · obtain ⟨fuel, hfuel⟩ := hbacklog x
    have hother : ∀ record, (c.next x).1 ≠ some (.ok (some record)) := by
      rw [hnext]
      simpa using hne
    rw [readToEnd, hfuel, drain_other hother, hnext]
    rfl

/-- A state that tells the answer and fits what was taken is one at the end. -/
theorem State.Fits.isOver {s : State} {drained : Prop} (h : s.Fits past drained)
    (hsettled : settled? s = some answer) : s.IsOver := by
  cases s with
  | created => exact h.elim
  | connecting => cases hsettled
  | streaming => cases hsettled
  | endOfRecords => exact .inl rfl
  | closed => exact .inr (.inl rfl)
  | crashed => exact .inr (.inr rfl)

/-- After an event that is no record the state tells the same answer. -/
theorem settled?_stateAfter {e : Feed.Event} (h : ∀ bytes, answerTo e ≠ .ok (some bytes)) :
    (stateAfter e).IsOver ∧ settled? (stateAfter e) = some (answerTo e) := by
  cases e with
  | record bytes => exact absurd rfl (h bytes)
  | endOfRecords => exact ⟨.inl rfl, rfl⟩
  | cutOff outage =>
    cases outage with
    | crashed => exact ⟨.inr (.inr rfl), rfl⟩
    | closed => exact ⟨.inr (.inl rfl), rfl⟩

/-- The next call that tells the outcome leaves the cursor at the end. -/
theorem Position.next_settles (h : Position id came past handed c x)
    (htold : (c.next x).1 = some answer) (hne : ∀ bytes, answer ≠ .ok (some bytes)) :
    Settled answer (c.next x).2.1 := by
  have hcase := next_cases h.feed x
  generalize c.next x = result at hcase htold ⊢
  cases hcase with
  | current hcurrent => exact absurd (Option.some.inj htold).symm (hne c.current)
  | settled hcurrent hsettled =>
    obtain rfl := Option.some.inj htold
    exact ⟨hcurrent, h.state.isOver hsettled, hsettled⟩
  | event hcurrent hsettled hqueue =>
    obtain rfl := Option.some.inj htold
    obtain ⟨hover, hsettles⟩ := settled?_stateAfter hne
    exact ⟨hcurrent, hover, hsettles⟩
  | waits hcurrent hsettled hqueue hfed => cases htold
  | deserted hcurrent hsettled hqueue hunfed =>
    obtain rfl := Option.some.inj htold
    exact ⟨hcurrent, .inr (.inl rfl), rfl⟩

/-- So does looking for a record. -/
theorem Position.fill_settles (h : Position id came past handed c x) {fuel : Nat}
    (htold : (Cursor.fill fuel c x).1 = some answer) (hne : ∀ bytes, answer ≠ .ok (some bytes)) :
    Settled answer (Cursor.fill fuel c x).2.1 := by
  induction fuel generalizing past handed c x with
  | zero => cases htold
  | succ fuel ih =>
    by_cases hempty : (c.next x).1 = some (.ok (some []))
    · obtain ⟨past', hnext⟩ := h.next
      rw [fill_empty hempty] at htold ⊢
      exact ih hnext htold
    · rw [fill_other hempty] at htold ⊢
      exact h.next_settles htold hne

/-- So does a read that asks for bytes. -/
theorem Position.read_settles (h : Position id came past handed c x) {n : Nat} (hn : n ≠ 0)
    (htold : (c.read x n).1 = some (answer.map fun record => record.getD []))
    (hne : ∀ bytes, answer ≠ .ok (some bytes)) : Settled answer (c.read x n).2.1 := by
  have hrecord : ∀ bytes, (Cursor.fill (c.backlog x) c x).1 = some (.ok (some bytes)) →
      bytes ≠ [] := fun bytes hfound => (h.fill_record hfound).1
  have hsettles : (Cursor.fill (c.backlog x) c x).1 = some answer →
      Settled answer (Cursor.fill (c.backlog x) c x).2.1 :=
    fun hfound => h.fill_settles hfound hne
  rw [read_eq c x hn] at htold ⊢
  generalize Cursor.fill (c.backlog x) c x = found at *
  rcases found with ⟨_ | e | _ | record, c', x'⟩
  · cases htold
  · rcases answer with e' | told
    · exact hsettles (by simpa [Except.map] using htold)
    · cases htold
  · rcases answer with e' | _ | bytes
    · cases htold
    · exact hsettles rfl
    · exact absurd rfl (hne bytes)
  · -- a record that is found is not empty, so some of it is read
    rcases answer with e' | _ | bytes
    · cases htold
    · obtain ⟨byte, bytes, rfl⟩ := List.exists_cons_of_ne_nil (hrecord record rfl)
      obtain ⟨n, rfl⟩ := Nat.exists_eq_succ_of_ne_zero hn
      simp [Except.map] at htold
    · exact absurd rfl (hne bytes)

/-- Two answers that are no records and look the same to one who reads to the end are the same. -/
theorem eq_of_map_unit {found : Option (Except Cause (Option Bytes))}
    (hfound : ∀ bytes, found ≠ some (.ok (some bytes))) (hne : ∀ bytes, answer ≠ .ok (some bytes))
    (h : found.map (Except.map fun _ => ()) = some (answer.map fun _ => ())) :
    found = some answer := by
  rcases found with _ | _ | _ | record
  · cases h
  · rcases answer with e | record
    · simpa [Except.map] using h
    · cases h
  · rcases answer with e | _ | record
    · cases h
    · rfl
    · exact absurd rfl (hne record)
  · exact absurd rfl (hfound record)

/-- So does reading to the end. -/
theorem Position.drain_settles (h : Position id came past handed c x) {fuel : Nat}
    (htold : (Cursor.drain fuel c x).2.1 = some (answer.map fun _ => ()))
    (hne : ∀ bytes, answer ≠ .ok (some bytes)) :
    Settled answer (Cursor.drain fuel c x).2.2.1 := by
  induction fuel generalizing past handed c x with
  | zero => cases htold
  | succ fuel ih =>
    by_cases hrecord : ∃ record, (c.next x).1 = some (.ok (some record))
    · obtain ⟨record, hanswer⟩ := hrecord
      obtain ⟨past', hnext⟩ := h.next
      rw [drain_record hanswer] at htold ⊢
      exact ih hnext htold
    · rw [not_exists] at hrecord
      rw [drain_other hrecord] at htold ⊢
      exact h.next_settles (eq_of_map_unit hrecord hne htold) hne

/-- No two answers are the same item. -/
theorem itemOf_injective : Function.Injective itemOf := by
  rintro (e | _ | record) (e' | _ | record') h <;> simp_all [itemOf]

/-- What a call answers when it tells this outcome. A stream tells it once, with its last item or
by having none. -/
def Call.Tells (answer : Except Cause (Option Bytes)) (c : Cursor) (x : Exchange) : Call → Prop
  | next => (c.next x).1 = some answer
  | nextItem => (c.nextItem x).1 = some (itemOf answer) ∧ ¬ c.state.IsOver
  | read n => (c.read x n).1 = some (answer.map fun record => record.getD []) ∧ n ≠ 0
  | readToEnd => (c.readToEnd x).2.1 = some (answer.map fun _ => ())

/-- A call that tells the outcome leaves the cursor at the end. -/
theorem Position.play_settles (h : Position id came past handed c x) {call : Call}
    (htold : call.Tells answer c x) (hne : ∀ bytes, answer ≠ .ok (some bytes)) :
    Settled answer (call.play c x).2.1 := by
  cases call with
  | next => exact h.next_settles htold hne
  | nextItem =>
    obtain ⟨hitem, hover⟩ := htold
    simp only [Call.play, nextItem_open fun hboth => hover hboth.1] at hitem ⊢
    rw [Option.map_eq_some_iff] at hitem
    obtain ⟨told, hnext, hitem⟩ := hitem
    rw [itemOf_injective hitem] at hnext
    exact h.next_settles hnext hne
  | read n =>
    exact h.read_settles htold.2 htold.1 hne
  | readToEnd => exact h.drain_settles htold hne

/-- A cursor whose state is one at the end has an outcome to tell. -/
theorem Position.settled (h : Position id came past handed c x) (hover : c.state.IsOver) :
    ∃ answer, Settled answer c := by
  have hcurrent := h.whole hover
  obtain hstate | hstate | hstate := hover
  · exact ⟨.ok none, hcurrent, .inl hstate, by rw [hstate]; rfl⟩
  · exact ⟨.error .alreadyClosed, hcurrent, .inr (.inl hstate), by rw [hstate]; rfl⟩
  · exact ⟨.error .serverCrashed, hcurrent, .inr (.inr hstate), by rw [hstate]; rfl⟩

/-- Closing leaves the cursor at the end, whatever was ahead. -/
theorem Position.close_settles (h : Position id came past handed c x) :
    Settled (.error .alreadyClosed) (c.close x).1 := by
  obtain ⟨hstate, heq⟩ | ⟨-, _, _, heq⟩ := c.close_cases x
  · rw [heq]
    have hover : c.state.IsOver := .inr (.inl hstate)
    exact ⟨h.whole hover, hover, by rw [hstate]; rfl⟩
  · rw [heq]
    exact ⟨rfl, .inr (.inl rfl), rfl⟩

/-- No call moves a cursor that is at the end. -/
theorem Reports.play (h : Reports answer c) (x : Exchange) (call : Call) :
    (call.play c x).2.1 = c := by
  cases call with
  | next => rw [Call.play, h.next]
  | nextItem => rw [Call.play, h.nextItem]
  | read n =>
    rw [Call.play]
    by_cases hn : n = 0
    · rw [hn, h.readNothing]
    · rw [h.read x n hn]
  | readToEnd => rw [Call.play, h.readToEnd]

namespace Reading

variable {r r' : Reading}

/-- So it tells the same outcome at any later time. -/
theorem reports_later (h : Reports answer r.cursor) (hlater : r.Later r') :
    Reports answer r'.cursor := by
  induction hlater with
  | refl => exact h
  | tail _ hstep ih =>
    cases hstep with
    | call call =>
      show Reports answer (call.play _ _).2.1
      rw [ih.play]
      exact ih
    | news _ => exact ih

/-- What a consumer is given and told, wherever it is in its result set. -/
structure Account (r : Reading) : Prop where
  /-- The bytes that were handed out, what is left of a record and the records that wait are the
  records that came. -/
  conserved : r.handed ++ (r.cursor.current ++ (recordsOf r.waiting).flatten) =
    (recordsOf r.came).flatten
  /-- Every call gives the records that are ahead, and behind them the outcome. -/
  answers {records : List Bytes} {ending : Option Feed.Event}
    (h : History r.came records ending) :
    Answers r.cursor r.exchange (ahead r.cursor r.exchange r.feed) (outcome ending r.isFed)
  /-- No bytes for one who asks for some mean that the result set ended and all of it was read. -/
  readNil {records : List Bytes} {ending : Option Feed.Event} {n : Nat}
    (h : History r.came records ending) (hn : n ≠ 0)
    (hread : (r.cursor.read r.exchange n).1 = some (.ok [])) :
    ending = some .endOfRecords ∧ r.handed = records.flatten
  /-- The end, a crash, and a session that was closed or that nobody speaks for any more: each is
  told exactly when it is the case. -/
  outcomes (ending : Option Feed.Event) :
    (outcome ending r.isFed = some (.ok none) ↔ ending = some .endOfRecords) ∧
    (outcome ending r.isFed = some (.error .serverCrashed) ↔
      ending = some (.cutOff .crashed)) ∧
    (outcome ending r.isFed = some (.error .alreadyClosed) ↔
      ending = some (.cutOff .closed) ∨ ending = none ∧ r.isFed = false) ∧
    (outcome ending r.isFed = none ↔ ending = none ∧ r.isFed = true)
  /-- An outcome that one call told is told by every later one, and a stream has no more items. -/
  lasting {answer : Except Cause (Option Bytes)} {call : Call} {r' : Reading}
    (htold : call.Tells answer r.cursor r.exchange) (hne : ∀ bytes, answer ≠ .ok (some bytes))
    (hlater : (r.after call).Later r') : Reports answer r'.cursor
  /-- A stream without a next item never has one again. -/
  noItem {r' : Reading} (h : (r.cursor.nextItem r.exchange).1 = some none)
    (hlater : (r.after .nextItem).Later r') :
    (r'.cursor.nextItem r'.exchange).1 = some none
  /-- A consumer that closes is told nothing else any more. -/
  closed : Reports (.error .alreadyClosed) (r.cursor.close r.exchange).1

/-- A stream that has no next item stays at its end. -/
theorem IsPlaced.noItem (h : r.IsPlaced)
    (hitem : (r.cursor.nextItem r.exchange).1 = some none) :
    ∃ answer, Settled answer (r.after .nextItem).cursor := by
  obtain ⟨past, hplace⟩ := h
  by_cases hover : r.cursor.state.IsOver
  · -- it told its outcome before, and stays as it is
    obtain ⟨answer, hsettled⟩ := hplace.settled hover
    refine ⟨answer, ?_⟩
    have hcursor : (r.after .nextItem).cursor = r.cursor :=
      hsettled.reports.play r.exchange .nextItem
    rw [hcursor]
    exact hsettled
  · have htold : Call.nextItem.Tells (.ok none) r.cursor r.exchange := ⟨hitem, hover⟩
    exact ⟨.ok none, hplace.play_settles htold (by simp)⟩

theorem IsPlaced.account (h : r.IsPlaced) : Account r where
  conserved := by
    obtain ⟨past, hplace⟩ := h
    exact hplace.conserved
  answers hhistory := by
    obtain ⟨past, hplace⟩ := h
    exact hplace.answers hhistory
  readNil hhistory hn hread := by
    obtain ⟨past, hplace⟩ := h
    exact hplace.read_nil hhistory hn hread
  outcomes ending := outcome_iff ending r.isFed
  lasting htold hne hlater := by
    obtain ⟨past, hplace⟩ := h
    exact reports_later (hplace.play_settles htold hne).reports hlater
  noItem hitem hlater := by
    obtain ⟨answer, hsettled⟩ := h.noItem hitem
    have hreports := reports_later hsettled.reports hlater
    rw [hreports.nextItem]
  closed := by
    obtain ⟨past, hplace⟩ := h
    exact hplace.close_settles.reports

/-- Whatever a consumer does with its result set, and whatever comes when: no byte of a record is
lost or given twice, every call gives what is ahead and then the one outcome that fits what came,
an outcome that was told stays, and after closing there is nothing more. -/
theorem account_later {r₀ r : Reading} (hstart : r₀.Starts) (hlater : r₀.Later r) : Account r :=
  (hstart.isPlaced.later hlater).account

/-- A consumer that connected before anything came. -/
def connected : Reading :=
  let answer := ({} : Cursor).connect (.ofSettings ({} : Environment).settings) "rs"
  ⟨answer.2.1, answer.2.2, 0, [], []⟩

/-- What the server sent then: one record, and the end. -/
def heard : Exchange :=
  [.plain .resultSetHello 1 (Utf8.encode "rs"), .piece 1 0 [1, 2, 3], .piece 1 0 [],
    .plain .resultSetBye 1 []].foldl afterReply connected.exchange

/-- The consumer after it read two bytes of the record and then the rest of it. -/
def finished : Reading :=
  (({ connected with
    exchange := heard, came := [.record [1, 2, 3], .endOfRecords] } : Reading).after
      (.read 2)).after .next

/-- `account_later` at a record that is read in two parts. -/
theorem account_later_finished :
    connected.Starts ∧ connected.Later finished ∧ Account finished ∧
      finished.handed = [1, 2, 3] := by
  have hstart : connected.Starts :=
    ⟨.ofSettings ({} : Environment).settings, "rs", by rfl, by decide, by decide, rfl⟩
  have hnews : connected.exchange.catalog.Supplies 0 [.record [1, 2, 3], .endOfRecords]
      heard.catalog := ⟨by decide +kernel, by decide⟩
  have hlater : connected.Later finished :=
    ((Relation.ReflTransGen.single (.news hnews)).tail (.call _ (.read 2))).tail (.call _ .next)
  exact ⟨hstart, hlater, account_later hstart hlater, by decide +kernel⟩

end Reading

end QueryLink.Cursor
