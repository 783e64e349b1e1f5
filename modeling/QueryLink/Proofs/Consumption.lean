import Mathlib.Logic.Relation
import QueryLink.Proofs.CursorSteps
import QueryLink.Proofs.FeedGrowth

/-!
# What a consumer is given

A consumer may read its result set record by record, by pieces of any size, to the end or as a
stream, and mix all that, while records come and the one who sends them may go away. Whatever it
does, a record is handed out once, in order and whole, and a part of it that was not asked for
comes first in what is read next.

## Key results

- `Catalog.OwnFeeds.supplies`: what else happens to a catalog only adds to a feed
- `next_cases`: everything the next call can do
- `Position.play`: every call keeps the consumer's place in what came
- `Position.conserved`: no byte of a record is lost, and none is handed out twice
- `Reading.IsPlaced.later`: a consumer has its place whatever happens
-/

namespace QueryLink

/-! ## What comes to a feed -/

namespace Feed

/-- The records among some events. -/
def recordsOf (events : List Event) : List Bytes :=
  events.filterMap fun
    | .record bytes => some bytes
    | _ => none

theorem recordsOf_append (events later : List Event) :
    recordsOf (events ++ later) = recordsOf events ++ recordsOf later :=
  List.filterMap_append

theorem recordsOf_cons_record (bytes : Bytes) (events : List Event) :
    recordsOf (.record bytes :: events) = bytes :: recordsOf events := rfl

/-- An event that is no record does not count among the records. -/
theorem recordsOf_cons_other {e : Event} (h : e.isRecord = false) (events : List Event) :
    recordsOf (e :: events) = recordsOf events := by
  cases e with
  | record bytes => cases h
  | endOfRecords => rfl
  | cutOff outage => rfl

end Feed

/-- The second catalog is the first one after some events came to a feed, and maybe something
happened that does not concern it. When nobody adds to the feed any more, nothing comes. -/
structure Catalog.Supplies (c : Catalog) (id : FeedId) (events : List Feed.Event) (c' : Catalog) :
    Prop where
  queue : (c'.feed id).queue = (c.feed id).queue ++ events
  unfed (h : c.isFed id = false) : events = [] ∧ c'.isFed id = false

/-- What callers, the server and other consumers do to a catalog does nothing else to the feed of
a consumer. -/
theorem Catalog.OwnFeeds.supplies {c : Catalog} (hc : c.OwnFeeds) {a : Action} {id : FeedId}
    (hid : id < c.feeds.size) (hopen : (c.feed id).isOpen = true) (htake : a ≠ .take id)
    (hleave : a ≠ .leave id) : ∃ events, c.Supplies id events (c.act a) := by
  -- a result set that is new has a new feed, so nobody comes to add to a feed nobody adds to
  have hunfed : c.isFed id = false → (c.act a).isFed id = false := by
    intro h
    apply List.any_eq_false.2
    intro e hmem
    obtain ⟨name, he⟩ := Dict.mem_values_iff.1 hmem
    simp only [beq_iff_eq]
    obtain ⟨old, hold, hfeed, -⟩ | ⟨⟨-, -, hfeed⟩, -⟩ := (c.act_origin a).2 name e he
    · rw [hfeed]
      exact feed_ne_of_isFed_eq_false h hold
    · rw [hfeed]
      exact Nat.ne_of_gt hid
  obtain hsame | ⟨name, e, events, he, rfl, -, hgot⟩ | ⟨rfl, -⟩ | ⟨rfl, -⟩ := hc.feed_cases a id
  · refine ⟨[], ?_, fun h => ⟨rfl, hunfed h⟩⟩
    rw [hsame, List.append_nil]
  · refine ⟨events, ?_, fun h => absurd rfl (feed_ne_of_isFed_eq_false h he)⟩
    rw [hgot, foldl_deliver hopen]
  · exact absurd rfl htake
  · exact absurd rfl hleave

namespace Cursor

/-! ## The next call -/

/-- What the next call is answered when it meets an event. -/
def answerTo : Feed.Event → Except Cause (Option Bytes)
  | .record bytes => .ok (some bytes)
  | .endOfRecords => .ok none
  | .cutOff .crashed => .error .serverCrashed
  | .cutOff .closed => .error .alreadyClosed

/-- The state of a cursor that met an event. -/
def stateAfter : Feed.Event → State
  | .record _ => .streaming
  | .endOfRecords => .endOfRecords
  | .cutOff .crashed => .crashed
  | .cutOff .closed => .closed

variable {c : Cursor} {x : Exchange} {id : FeedId}

/-- Taking an event changes the catalog by it, and nothing else there. -/
theorem catalog_takeEvent (x : Exchange) (id : FeedId) :
    (takeEvent x id).2.catalog =
      x.catalog.modifyFeed id fun _ => (x.catalog.feed id).take.2 := by
  have hwake : ∀ y : Exchange, y.wakeReader.catalog = y.catalog := by
    intro y
    obtain ⟨parked, roused, heq⟩ := y.alike_wakeReader
    rw [heq]
  unfold takeEvent
  dsimp only
  split
  · split
    · exact hwake _
    · rfl
  · rfl

/-- The event that is taken is the first one that waits. -/
theorem takeEvent_event (x : Exchange) (id : FeedId) :
    (takeEvent x id).1 = (x.catalog.feed id).queue.head? := by
  have htake : (x.catalog.feed id).take.1 = (x.catalog.feed id).queue.head? := by
    unfold Feed.take
    split
    · rename_i hnil
      rw [hnil]
      rfl
    · rename_i hcons
      rw [hcons]
      rfl
  rw [← htake]
  unfold takeEvent
  dsimp only
  split
  · rfl
  · rfl

/-- The events behind it go on waiting. -/
theorem queue_takeEvent (x : Exchange) (id : FeedId) :
    ((takeEvent x id).2.catalog.feed id).queue = (x.catalog.feed id).queue.tail := by
  rw [catalog_takeEvent, Catalog.feed_modifyFeed]
  split
  · rw [(x.catalog.feed id).take_keeps.2, List.drop_one]
  · rename_i hand
    -- a feed that is not there holds nothing
    rw [Catalog.feed_of_le (Nat.le_of_not_lt fun hlt => hand ⟨rfl, hlt⟩)]
    rfl

/-- Who adds to a feed does not depend on who takes from it. -/
theorem isFed_takeEvent (x : Exchange) (id : FeedId) :
    (takeEvent x id).2.catalog.isFed id = x.catalog.isFed id := by
  rw [catalog_takeEvent]
  rfl

/-- What is left of a record comes first. -/
theorem next_current (h : c.current ≠ []) :
    c.next x = (some (.ok (some c.current)), { c with current := [] }, x) := by
  rw [next, if_pos h]

/-- A cursor whose state tells the answer gives it again and again. -/
theorem next_settled (h : c.current = []) {answer : Except Cause (Option Bytes)}
    (hsettled : settled? c.state = some answer) : c.next x = (some answer, c, x) := by
  rw [next, if_neg (not_not_intro h), hsettled]

/-- A cursor that meets an event tells it. -/
theorem next_event (h : c.current = []) (hsettled : settled? c.state = none)
    (hfeed : c.feed = some id) {e : Feed.Event} {queue : List Feed.Event}
    (hqueue : (x.catalog.feed id).queue = e :: queue) :
    c.next x = (some (answerTo e), { c with state := stateAfter e }, (takeEvent x id).2) := by
  have hevent := takeEvent_event x id
  rw [hqueue] at hevent
  rw [next, if_neg (not_not_intro h), hsettled, hfeed]
  rcases htaken : takeEvent x id with ⟨event, x'⟩
  rw [htaken] at hevent
  obtain rfl : event = some e := hevent
  cases e with
  | record bytes => simp only [htaken]; rfl
  | endOfRecords => simp only [htaken]; rfl
  | cutOff outage => cases outage <;> (simp only [htaken]; rfl)

/-- A cursor that meets no event waits for one, unless none can come. -/
theorem next_empty (h : c.current = []) (hsettled : settled? c.state = none)
    (hfeed : c.feed = some id) (hqueue : (x.catalog.feed id).queue = []) :
    c.next x =
      if x.catalog.isFed id then (none, c, (takeEvent x id).2)
      else (some (.error .alreadyClosed), { c with state := .closed }, (takeEvent x id).2) := by
  have hevent := takeEvent_event x id
  have hfed := isFed_takeEvent x id
  rw [hqueue] at hevent
  rw [next, if_neg (not_not_intro h), hsettled, hfeed]
  rcases htaken : takeEvent x id with ⟨event, x'⟩
  rw [htaken] at hevent hfed
  obtain rfl : event = none := hevent
  simp only [htaken, hfed]

/-- Everything the next call of a cursor at a feed can do: its answer, and the cursor and the
exchange after it. -/
inductive Nexts (c : Cursor) (x : Exchange) (id : FeedId) :
    Option (Except Cause (Option Bytes)) × Cursor × Exchange → Prop
  | current (hcurrent : c.current ≠ []) :
      Nexts c x id (some (.ok (some c.current)), { c with current := [] }, x)
  | settled {answer : Except Cause (Option Bytes)} (hcurrent : c.current = [])
      (hsettled : settled? c.state = some answer) : Nexts c x id (some answer, c, x)
  | event {e : Feed.Event} {queue : List Feed.Event} (hcurrent : c.current = [])
      (hsettled : settled? c.state = none) (hqueue : (x.catalog.feed id).queue = e :: queue) :
      Nexts c x id
        (some (answerTo e), { c with state := stateAfter e }, (takeEvent x id).2)
  | waits (hcurrent : c.current = []) (hsettled : settled? c.state = none)
      (hqueue : (x.catalog.feed id).queue = []) (hfed : x.catalog.isFed id = true) :
      Nexts c x id (none, c, (takeEvent x id).2)
  | deserted (hcurrent : c.current = []) (hsettled : settled? c.state = none)
      (hqueue : (x.catalog.feed id).queue = []) (hunfed : x.catalog.isFed id = false) :
      Nexts c x id (some (.error .alreadyClosed), { c with state := .closed }, (takeEvent x id).2)

theorem next_cases (hfeed : c.feed = some id) (x : Exchange) : c.Nexts x id (c.next x) := by
  by_cases hcurrent : c.current = []
  · cases hsettled : settled? c.state with
    | some answer =>
      rw [next_settled hcurrent hsettled]
      exact .settled hcurrent hsettled
    | none =>
      cases hqueue : (x.catalog.feed id).queue with
      | cons e queue =>
        rw [next_event hcurrent hsettled hfeed hqueue]
        exact .event hcurrent hsettled hqueue
      | nil =>
        rw [next_empty hcurrent hsettled hfeed hqueue]
        cases hfed : x.catalog.isFed id with
        | true => exact .waits hcurrent hsettled hqueue hfed
        | false => exact .deserted hcurrent hsettled hqueue hfed
  · rw [next_current hcurrent]
    exact .current hcurrent

/-! ## The place of a consumer -/

/-- Whether a state fits the events that were taken; `drained` says that none wait and none can
come. -/
def State.Fits (s : State) (past : List Feed.Event) (drained : Prop) : Prop :=
  match s with
  | .created => False
  | .connecting | .streaming => ∀ e ∈ past, e.isRecord = true
  | .endOfRecords => ∃ before, past = before ++ [.endOfRecords]
  | .crashed => ∃ before, past = before ++ [.cutOff .crashed]
  | .closed => (∃ before, past = before ++ [.cutOff .closed]) ∨
      drained ∧ ∀ e ∈ past, e.isRecord = true

/-- A state in which an event can still come fits records only. -/
theorem State.Fits.records {s : State} {past : List Feed.Event} {drained : Prop}
    (h : s.Fits past drained) (hsettled : settled? s = none) : ∀ e ∈ past, e.isRecord = true := by
  cases s with
  | connecting => exact h
  | streaming => exact h
  | _ => cases hsettled

/-- The state of a cursor that met an event fits it. -/
theorem fits_stateAfter {past : List Feed.Event} (h : ∀ e ∈ past, e.isRecord = true)
    (e : Feed.Event) (drained : Prop) : (stateAfter e).Fits (past ++ [e]) drained := by
  cases e with
  | record bytes =>
    intro e he
    obtain he | he := List.mem_append.1 he
    · exact h e he
    · rw [List.mem_singleton.1 he]
      rfl
  | endOfRecords => exact ⟨past, rfl⟩
  | cutOff outage =>
    cases outage with
    | crashed => exact ⟨past, rfl⟩
    | closed => exact .inl ⟨past, rfl⟩

/-- Where a consumer is in all that came to its feed: it took the events of `past` and handed out
their records but for what is left of the last one. -/
structure Position (id : FeedId) (came past : List Feed.Event) (handed : Bytes) (c : Cursor)
    (x : Exchange) : Prop where
  feed : c.feed = some id
  came : past ++ (x.catalog.feed id).queue = came
  handed : handed ++ c.current = (Feed.recordsOf past).flatten
  state : c.state.Fits past ((x.catalog.feed id).queue = [] ∧ x.catalog.isFed id = false)
  /-- At the end nothing is left of a record. -/
  whole (h : c.state.IsOver) : c.current = []

/-- The bytes of a record, if the answer is one. -/
def bytesOf : Option (Except Cause (Option Bytes)) → Bytes
  | some (.ok (some bytes)) => bytes
  | _ => []

/-- An answer of the next call as an item of the stream. -/
def itemOf : Except Cause (Option Bytes) → Option (Except Cause Bytes)
  | .ok bytes => bytes.map .ok
  | .error e => some (.error e)

/-- A settled answer is no record. -/
theorem settled?_ne_record {s : State} {answer : Except Cause (Option Bytes)}
    (h : settled? s = some answer) (bytes : Bytes) : answer ≠ .ok (some bytes) := by
  cases s <;> cases h <;> simp

/-- An answer that is no record has no bytes. -/
theorem bytesOf_of_ne {answer : Option (Except Cause (Option Bytes))}
    (h : ∀ bytes, answer ≠ some (.ok (some bytes))) : bytesOf answer = [] := by
  unfold bytesOf
  split
  · exact absurd rfl (h _)
  · rfl

/-- The bytes of the records that were taken grow by those of the answer. -/
theorem flatten_recordsOf_concat (past : List Feed.Event) (e : Feed.Event) :
    (Feed.recordsOf (past ++ [e])).flatten =
      (Feed.recordsOf past).flatten ++ bytesOf (some (answerTo e)) := by
  rw [Feed.recordsOf_append, List.flatten_append]
  cases e with
  | record bytes => simp [Feed.recordsOf, answerTo, bytesOf]
  | endOfRecords => rfl
  | cutOff outage => cases outage <;> rfl

variable {came past : List Feed.Event} {handed : Bytes}

/-- Meeting an event moves the place behind it. -/
theorem Position.meet (h : Position id came past handed c x) (hcurrent : c.current = [])
    (hsettled : settled? c.state = none) {e : Feed.Event} {queue : List Feed.Event}
    (hqueue : (x.catalog.feed id).queue = e :: queue) :
    Position id came (past ++ [e]) (handed ++ bytesOf (some (answerTo e)))
      { c with state := stateAfter e } (takeEvent x id).2 where
  feed := h.feed
  came := by
    rw [queue_takeEvent, hqueue, List.tail_cons, List.append_assoc, List.singleton_append,
      ← hqueue]
    exact h.came
  handed := by
    have hhanded := h.handed
    rw [hcurrent, List.append_nil] at hhanded
    show handed ++ bytesOf (some (answerTo e)) ++ c.current = _
    rw [hcurrent, List.append_nil, flatten_recordsOf_concat, hhanded]
  state := fits_stateAfter (h.state.records hsettled) e _
  whole _ := hcurrent

/-- Meeting no event leaves the place as it is. -/
theorem Position.wait (h : Position id came past handed c x)
    (hqueue : (x.catalog.feed id).queue = []) :
    Position id came past handed c (takeEvent x id).2 where
  feed := h.feed
  came := by
    rw [queue_takeEvent, hqueue, List.tail_nil, ← hqueue]
    exact h.came
  handed := h.handed
  state := by
    have hstate := h.state
    rw [hqueue] at hstate
    rw [queue_takeEvent, hqueue, isFed_takeEvent]
    exact hstate
  whole := h.whole

/-- A place where no event waits and none can come is the end. -/
theorem Position.desert (h : Position id came past handed c x) (hcurrent : c.current = [])
    (hsettled : settled? c.state = none) (hqueue : (x.catalog.feed id).queue = [])
    (hunfed : x.catalog.isFed id = false) :
    Position id came past handed { c with state := .closed } x where
  feed := h.feed
  came := h.came
  handed := h.handed
  state := .inr ⟨⟨hqueue, hunfed⟩, h.state.records hsettled⟩
  whole _ := hcurrent

/-- The next call keeps the place: it hands out what it answers. -/
theorem Position.next (h : Position id came past handed c x) :
    ∃ past', Position id came past' (handed ++ bytesOf (c.next x).1) (c.next x).2.1
      (c.next x).2.2 := by
  have hcase := next_cases h.feed x
  generalize c.next x = result at hcase ⊢
  cases hcase with
  | current hcurrent =>
    refine ⟨past, h.feed, h.came, ?_, h.state, fun _ => rfl⟩
    show handed ++ c.current ++ [] = _
    rw [List.append_nil, h.handed]
  | settled hcurrent hsettled =>
    rw [bytesOf_of_ne (by simpa using settled?_ne_record hsettled), List.append_nil]
    exact ⟨past, h⟩
  | event hcurrent hsettled hqueue => exact ⟨_, h.meet hcurrent hsettled hqueue⟩
  | waits hcurrent hsettled hqueue hfed =>
    rw [bytesOf_of_ne (by simp), List.append_nil]
    exact ⟨past, h.wait hqueue⟩
  | deserted hcurrent hsettled hqueue hunfed =>
    rw [bytesOf_of_ne (by simp), List.append_nil]
    refine ⟨past, (h.wait hqueue).desert hcurrent hsettled ?_ ?_⟩
    · rw [queue_takeEvent, hqueue, List.tail_nil]
    · rw [isFed_takeEvent, hunfed]

/-- A record is only found where more can come, and nothing is left of the one before it. -/
theorem Position.next_record (h : Position id came past handed c x) {bytes : Bytes}
    (hanswer : (c.next x).1 = some (.ok (some bytes))) :
    (c.next x).2.1.current = [] ∧ ¬ (c.next x).2.1.state.IsOver := by
  have hcase := next_cases h.feed x
  generalize c.next x = result at hcase hanswer ⊢
  cases hcase with
  | current hcurrent => exact ⟨rfl, fun hover => hcurrent (h.whole hover)⟩
  | settled hcurrent hsettled =>
    exact absurd (Option.some.inj hanswer) (settled?_ne_record hsettled bytes)
  | @event e queue hcurrent hsettled hqueue =>
    refine ⟨hcurrent, ?_⟩
    cases e with
    | record bytes => simp [stateAfter, State.IsOver]
    | endOfRecords => simp [answerTo] at hanswer
    | cutOff outage => cases outage <;> simp [answerTo] at hanswer
  | waits hcurrent hsettled hqueue hfed => cases hanswer
  | deserted hcurrent hsettled hqueue hunfed => cases hanswer

/-! ## The other calls -/

/-- A stream that is over stays so. -/
theorem nextItem_over (hover : c.state.IsOver) (hcurrent : c.current = []) (x : Exchange) :
    c.nextItem x = (some none, c, x) :=
  if_pos ⟨hover, hcurrent⟩

/-- Otherwise its next item is what the next call answers. -/
theorem nextItem_open (h : ¬ (c.state.IsOver ∧ c.current = [])) (x : Exchange) :
    c.nextItem x = ((c.next x).1.map itemOf, (c.next x).2) := by
  unfold nextItem
  rw [if_neg (show ¬ ((c.state = .endOfRecords ∨ c.state = .closed ∨ c.state = .crashed) ∧
    c.current = []) from h)]
  split <;> rename_i heq <;> rw [heq] <;> rfl

/-- What a read that asks for bytes makes of the record that was found. -/
theorem read_eq (c : Cursor) (x : Exchange) {n : Nat} (hn : n ≠ 0) :
    c.read x n = match fill (c.backlog x) c x with
      | (some (.ok (some record)), c, x) =>
        (some (.ok (record.take n)), { c with current := record.drop n }, x)
      | (answer, c, x) => (answer.map (Except.map fun record => record.getD []), c, x) := by
  rw [read, if_neg hn]
  rcases fill (c.backlog x) c x with ⟨_ | _ | _ | record, c', x'⟩ <;> rfl

/-- Looking for a record passes over an empty one. -/
theorem fill_empty (h : (c.next x).1 = some (.ok (some []))) (fuel : Nat) :
    fill (fuel + 1) c x = fill fuel (c.next x).2.1 (c.next x).2.2 := by
  rw [fill]
  split
  · rename_i heq
    rw [heq]
  · rename_i hne
    exact (hne _ _ (Prod.ext h rfl)).elim

/-- It stops at any other answer. -/
theorem fill_other (h : (c.next x).1 ≠ some (.ok (some []))) (fuel : Nat) :
    fill (fuel + 1) c x = c.next x := by
  rw [fill]
  split
  · rename_i heq
    exact absurd (congrArg Prod.fst heq) h
  · rfl

/-- Reading to the end goes on after a record. -/
theorem drain_record {record : Bytes} (h : (c.next x).1 = some (.ok (some record))) (fuel : Nat) :
    drain (fuel + 1) c x =
      (record ++ (drain fuel (c.next x).2.1 (c.next x).2.2).1,
        (drain fuel (c.next x).2.1 (c.next x).2.2).2) := by
  rw [drain]
  rcases heq : c.next x with ⟨answer, c', x'⟩
  rw [heq] at h
  obtain rfl : answer = _ := h
  rfl

/-- It stops at any other answer. -/
theorem drain_other (h : ∀ record, (c.next x).1 ≠ some (.ok (some record))) (fuel : Nat) :
    drain (fuel + 1) c x =
      ([], (c.next x).1.map (Except.map fun _ => ()), (c.next x).2) := by
  rw [drain]
  rcases heq : c.next x with ⟨_ | _ | _ | record, c', x'⟩
  · rfl
  · rfl
  · rfl
  · rw [heq] at h
    exact absurd rfl (h record)

/-- Looking for a record that is not empty passes over empty ones, which have no bytes. -/
theorem Position.fill (h : Position id came past handed c x) (fuel : Nat) :
    ∃ past', Position id came past' (handed ++ bytesOf (Cursor.fill fuel c x).1)
      (Cursor.fill fuel c x).2.1 (Cursor.fill fuel c x).2.2 := by
  induction fuel generalizing past handed c x with
  | zero =>
    rw [Cursor.fill, bytesOf_of_ne (by simp), List.append_nil]
    exact ⟨past, h⟩
  | succ fuel ih =>
    obtain ⟨past', hnext⟩ := h.next
    by_cases hempty : (c.next x).1 = some (.ok (some []))
    · rw [hempty, bytesOf, List.append_nil] at hnext
      rw [fill_empty hempty]
      exact ih hnext
    · rw [fill_other hempty]
      exact ⟨past', hnext⟩

/-- Reading records until there are no more hands out all of them. -/
theorem Position.drain (h : Position id came past handed c x) (fuel : Nat) :
    ∃ past', Position id came past' (handed ++ (Cursor.drain fuel c x).1)
      (Cursor.drain fuel c x).2.2.1 (Cursor.drain fuel c x).2.2.2 := by
  induction fuel generalizing past handed c x with
  | zero =>
    rw [Cursor.drain, List.append_nil]
    exact ⟨past, h⟩
  | succ fuel ih =>
    obtain ⟨past', hnext⟩ := h.next
    by_cases hrecord : ∃ record, (c.next x).1 = some (.ok (some record))
    · obtain ⟨record, hanswer⟩ := hrecord
      rw [hanswer, bytesOf] at hnext
      rw [drain_record hanswer, ← List.append_assoc]
      exact ih hnext
    · rw [not_exists] at hrecord
      rw [bytesOf_of_ne hrecord] at hnext
      rw [drain_other hrecord]
      exact ⟨past', hnext⟩

/-- A record that is found while looking for one is not empty, and nothing is left of it. -/
theorem Position.fill_record (h : Position id came past handed c x) {fuel : Nat} {bytes : Bytes}
    (hanswer : (Cursor.fill fuel c x).1 = some (.ok (some bytes))) :
    bytes ≠ [] ∧ (Cursor.fill fuel c x).2.1.current = [] ∧
      ¬ (Cursor.fill fuel c x).2.1.state.IsOver := by
  induction fuel generalizing past handed c x with
  | zero => cases hanswer
  | succ fuel ih =>
    by_cases hempty : (c.next x).1 = some (.ok (some []))
    · obtain ⟨past', hnext⟩ := h.next
      rw [fill_empty hempty] at hanswer ⊢
      exact ih hnext hanswer
    · rw [fill_other hempty] at hanswer ⊢
      refine ⟨?_, h.next_record hanswer⟩
      rintro rfl
      exact hempty hanswer

/-- Of a record that was handed out a part may be kept for what is read next. -/
theorem Position.keep (n : Nat) {record : Bytes}
    (h : Position id came past (handed ++ record) c x) (hcurrent : c.current = [])
    (hover : ¬ c.state.IsOver) :
    Position id came past (handed ++ record.take n) { c with current := record.drop n } x where
  feed := h.feed
  came := h.came
  handed := by
    have hhanded := h.handed
    rw [hcurrent, List.append_nil] at hhanded
    rw [List.append_assoc, List.take_append_drop, hhanded]
  state := h.state
  whole hstate := absurd hstate hover

/-! ## Runs of calls -/

/-- A call that reads. -/
inductive Call where
  | next
  | nextItem
  | read (n : Nat)
  | readToEnd

/-- The bytes a call hands out, and the cursor and the exchange after it. -/
def Call.play (c : Cursor) (x : Exchange) : Call → Bytes × Cursor × Exchange
  | next => (bytesOf (c.next x).1, (c.next x).2)
  | nextItem => (itemBytes (c.nextItem x).1, (c.nextItem x).2)
  | read n => (readBytes (c.read x n).1, (c.read x n).2)
  | readToEnd => ((c.readToEnd x).1, (c.readToEnd x).2.2)
where
  itemBytes : Option (Option (Except Cause Bytes)) → Bytes
    | some (some (.ok bytes)) => bytes
    | _ => []
  readBytes : Option (Except Cause Bytes) → Bytes
    | some (.ok bytes) => bytes
    | _ => []

/-- Every call keeps the consumer's place in what came. -/
theorem Position.play (h : Position id came past handed c x) (call : Call) :
    ∃ past', Position id came past' (handed ++ (call.play c x).1) (call.play c x).2.1
      (call.play c x).2.2 := by
  cases call with
  | next => exact h.next
  | nextItem =>
    by_cases hover : c.state.IsOver ∧ c.current = []
    · simp only [Call.play, nextItem_over hover.1 hover.2, Call.play.itemBytes, List.append_nil]
      exact ⟨past, h⟩
    · obtain ⟨past', hnext⟩ := h.next
      simp only [Call.play, nextItem_open hover]
      rcases heq : c.next x with ⟨_ | _ | _ | record, c', x'⟩ <;> rw [heq] at hnext <;>
        exact ⟨past', hnext⟩
  | read n =>
    by_cases hn : n = 0
    · rw [hn]
      simp only [Call.play, Cursor.read, if_true, Call.play.readBytes, List.append_nil]
      exact ⟨past, h⟩
    · obtain ⟨past', hfill⟩ := h.fill (c.backlog x)
      have hrecord : ∀ bytes, (Cursor.fill (c.backlog x) c x).1 = some (.ok (some bytes)) →
          (Cursor.fill (c.backlog x) c x).2.1.current = [] ∧
            ¬ (Cursor.fill (c.backlog x) c x).2.1.state.IsOver :=
        fun bytes hfound => (h.fill_record hfound).2
      simp only [Call.play, read_eq c x hn]
      rcases heq : Cursor.fill (c.backlog x) c x with ⟨_ | _ | _ | record, c', x'⟩ <;>
        rw [heq] at hfill
      · exact ⟨past', hfill⟩
      · exact ⟨past', hfill⟩
      · exact ⟨past', hfill⟩
      · -- what was not asked for is kept
        rw [heq] at hrecord
        obtain ⟨hcurrent, hover⟩ := hrecord record rfl
        exact ⟨past', hfill.keep n hcurrent hover⟩
  | readToEnd => exact h.drain _

/-- What fits a feed that is drained or not fits one that is drained. -/
theorem State.Fits.imp {s : State} {past : List Feed.Event} {drained drained' : Prop}
    (h : s.Fits past drained) (hdrained : drained → drained') : s.Fits past drained' := by
  cases s with
  | closed => exact h.imp_right fun ⟨hold, hrecords⟩ => ⟨hdrained hold, hrecords⟩
  | _ => exact h

/-- What comes to a feed comes behind the place of its consumer. -/
theorem Position.supply {events : List Feed.Event} {x' : Exchange}
    (h : Position id came past handed c x) (hsupplies : x.catalog.Supplies id events x'.catalog) :
    Position id (came ++ events) past handed c x' where
  feed := h.feed
  came := by rw [hsupplies.queue, ← List.append_assoc, h.came]
  handed := h.handed
  state := by
    refine h.state.imp fun ⟨hqueue, hunfed⟩ => ?_
    obtain ⟨rfl, hstill⟩ := hsupplies.unfed hunfed
    exact ⟨by rw [hsupplies.queue, hqueue, List.append_nil], hstill⟩
  whole := h.whole

/-- The bytes that were handed out, what is left of a record and the records that wait are all
records that came. -/
theorem Position.conserved (h : Position id came past handed c x) :
    handed ++ (c.current ++ (Feed.recordsOf (x.catalog.feed id).queue).flatten) =
      (Feed.recordsOf came).flatten := by
  rw [← List.append_assoc, h.handed, ← List.flatten_append, ← Feed.recordsOf_append, h.came]

/-- A consumer at its feed, with all that came to the feed and all that was handed out. -/
structure Reading where
  cursor : Cursor
  exchange : Exchange
  feed : FeedId
  came : List Feed.Event
  handed : Bytes

namespace Reading

/-- The events that wait. -/
def waiting (r : Reading) : List Feed.Event :=
  (r.exchange.catalog.feed r.feed).queue

/-- Whether more events can come. -/
def isFed (r : Reading) : Bool :=
  r.exchange.catalog.isFed r.feed

/-- The same consumer after a call. -/
def after (r : Reading) (call : Call) : Reading :=
  let (bytes, cursor, exchange) := call.play r.cursor r.exchange
  { r with cursor, exchange, handed := r.handed ++ bytes }

/-- A new consumer that was connected a moment ago. What waits for it has come already. -/
def Starts (r : Reading) : Prop :=
  ∃ x name, ({} : Cursor).connect x name = (.ok (), r.cursor, r.exchange) ∧
    r.cursor.feed = some r.feed ∧ r.came = r.waiting ∧ r.handed = []

/-- What happens next: the consumer calls, or something comes, or happens elsewhere. -/
inductive Step : Reading → Reading → Prop
  | call (r : Reading) (call : Call) : Step r (r.after call)
  | news {r : Reading} {events : List Feed.Event} {x : Exchange}
      (h : r.exchange.catalog.Supplies r.feed events x.catalog) :
      Step r { r with exchange := x, came := r.came ++ events }

/-- What can happen to a consumer in time. -/
abbrev Later : Reading → Reading → Prop :=
  Relation.ReflTransGen Step

/-- Whatever else happens in the catalog is such a step. -/
theorem exists_step_act {r : Reading} {a : Catalog.Action} {x : Exchange}
    (hc : r.exchange.catalog.OwnFeeds) (hid : r.feed < r.exchange.catalog.feeds.size)
    (hopen : (r.exchange.catalog.feed r.feed).isOpen = true) (htake : a ≠ .take r.feed)
    (hleave : a ≠ .leave r.feed) (hx : x.catalog = r.exchange.catalog.act a) :
    ∃ events, r.Step { r with exchange := x, came := r.came ++ events } := by
  obtain ⟨events, hsupplies⟩ := hc.supplies hid hopen htake hleave
  rw [← hx] at hsupplies
  exact ⟨events, .news hsupplies⟩

/-- A consumer has a place in what came. -/
def IsPlaced (r : Reading) : Prop :=
  ∃ past, Position r.feed r.came past r.handed r.cursor r.exchange

variable {r r' : Reading}

/-- A new consumer is in front of everything. -/
theorem Starts.isPlaced (h : r.Starts) : r.IsPlaced := by
  obtain ⟨x, name, hconnect, hfeed, hcame, hhanded⟩ := h
  obtain ⟨e, heq⟩ | ⟨feed, catalog, -, -, heq⟩ := ({} : Cursor).connect_cases x name
  · rw [heq] at hconnect
    cases hconnect
  · rw [heq, Prod.mk.injEq, Prod.mk.injEq] at hconnect
    obtain ⟨-, hcursor, -⟩ := hconnect
    refine ⟨[], hfeed, hcame.symm, ?_, ?_, fun _ => ?_⟩
    · rw [hhanded, ← hcursor]
      rfl
    · rw [← hcursor]
      exact fun e he => nomatch he
    · rw [← hcursor]

theorem IsPlaced.step (h : r.IsPlaced) (hstep : r.Step r') : r'.IsPlaced := by
  obtain ⟨past, hplace⟩ := h
  cases hstep with
  | call call => exact hplace.play call
  | news hsupplies => exact ⟨past, hplace.supply hsupplies⟩

/-- A consumer keeps its place whatever happens. -/
theorem IsPlaced.later (h : r.IsPlaced) (hlater : r.Later r') : r'.IsPlaced := by
  induction hlater with
  | refl => exact h
  | tail _ hstep ih => exact ih.step hstep

end Reading

end Cursor

end QueryLink
