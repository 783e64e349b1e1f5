import QueryLink.Proofs.FeedHistory
import QueryLink.Proofs.RequestFates

/-!
# Shutdown resolves everything and is final

When a session ends, for whatever reason and in whatever state, nobody is left waiting: each
promise that was pending fails, the consumer of each result set that was not over is told after all
its records, and nothing is left in flight. Whatever happens afterwards, nothing of this changes.

A result set is over when its entry in the catalog says so.

## Key results

- `Resolves`, `Lasts`: what the end of a session settles, and what stays so
- `Accounted.resolves`: any shutdown of an open session settles everything
- `Effect.late`: the little that a step can do once the session has ended
- `Lasts.step`: one more step changes nothing that was settled
- `resolves_of_alike`: what ends the session after any run settles everything
- `ending_run`: the two together, after every run
-/

namespace QueryLink.Usage

variable {s u u' v : Usage} {a : Action} {past after : List Action} {outage : Outage}

/-- The same usage after its session was shut down, for any reason. -/
def shutdown (u : Usage) (outage : Outage) : Usage :=
  u.withExchange (u.session.exchange.shutdown outage)

/-- What is settled when an open session, that of `u`, ends. -/
structure Resolves (outage : Outage) (u u' : Usage) : Prop where
  /-- No box is owned, nobody stands in line, and there are no result sets any more. -/
  emptied : u'.session.exchange.Emptied
  accepted : u'.accepted = u.accepted
  /-- All promises of requests that were accepted are there, and none of them is pending: -/
  settled : ∀ q ∈ u.accepted, ∀ id ∈ q.1.promises,
    id < u'.session.exchange.promises.size ∧ u'.promiseState id ≠ .pending
  /-- one that was pending fails, -/
  pending : ∀ q ∈ u.accepted, ∀ id ∈ q.1.promises, u.promiseState id = .pending →
    u'.promiseState id = .failed outage
  /-- and one that was done stays as it was. -/
  done : ∀ id, u.promiseState id ≠ .pending → u'.promiseState id = u.promiseState id
  /-- The consumer of a result set that was not over is told once, after all its records. -/
  cutOff : ∀ name e, u.session.exchange.catalog.entries.get? name = some e → e.finished = false →
    (∀ event ∈ u.history e.feed, event.isRecord = true) ∧
      u'.history e.feed = u.history e.feed ++ [.cutOff outage]
  /-- Nobody else is told anything. -/
  untold : ∀ id, (∀ name e, u.session.exchange.catalog.entries.get? name = some e →
    e.finished = false → e.feed ≠ id) → u'.history id = u.history id

/-- What holds after any steps from `v` on, whose session had ended. -/
structure Lasts (v : Usage) (after : List Action) : Prop where
  emptied : (v.run after).session.exchange.Emptied
  accepted : (v.run after).accepted = v.accepted
  /-- Every request is refused and changes nothing. -/
  refused : ∀ ask service payload bytes,
    (v.run after).session.envelope service payload = .ok bytes →
      (v.run after).session.submit ask service payload =
        (.error .alreadyClosed, (v.run after).session)
  /-- To shut the session down once more does nothing. -/
  once : ∀ outage, (v.run after).shutdown outage = v.run after
  size : (v.run after).session.exchange.promises.size = v.session.exchange.promises.size
  /-- No promise fails any more, and a failure keeps its cause. -/
  failed : ∀ id cause,
    (v.run after).promiseState id = .failed cause ↔ v.promiseState id = .failed cause
  /-- A promise that is done stays done. -/
  done : ∀ id, (v.promiseState id).isDone = true → ((v.run after).promiseState id).isDone = true
  /-- Consumers are told what they would have been told when the session ended, -/
  history : ∀ id, (v.run after).history id <+: v.history id
  /-- and all of it unless they go away. -/
  kept : ∀ id, ((v.run after).session.exchange.catalog.feed id).isOpen = true →
    (v.run after).history id = v.history id
  /-- A cursor that was told how its result set ended stays with it until it is closed. -/
  outcome : ∀ number c, v.cursors[number]? = some c → c.state.IsOver →
    .useCursor number .close ∉ after →
      ∃ c', (v.run after).cursors[number]? = some c' ∧ c'.state = c.state
  /-- No cursor waits for anything. -/
  answered : ∀ c : Cursor, (c.next (v.run after).session.exchange).1 ≠ none

/-! ## Ending -/

/-- Shutting down may fail a promise. -/
private theorem advances_shutdown (x : Exchange) (outage : Outage) (id : PromiseId) :
    (x.promiseState id).Advances ((x.shutdown outage).promiseState id) := by
  cases hclosed : x.closed with
  | true =>
    rw [Exchange.shutdown_of_closed hclosed]
    exact .inl (.inl rfl)
  | false =>
    rw [Exchange.promiseState_shutdown hclosed]
    split
    · exact .inr (.inr ⟨outage, rfl⟩)
    · exact .inl (.inl rfl)

/-- What a step may make of a promise. -/
theorem Effect.advances (h : u.Effect a u') {id : PromiseId}
    (hid : id < u.session.exchange.promises.size) :
    id < u'.session.exchange.promises.size ∧
      (u.promiseState id).Advances (u'.promiseState id) := by
  -- what is left to show once the exchange after the step is known, as far as anybody can tell
  have halike : ∀ {x x' : Exchange}, x.Alike x' → id < x.promises.size →
      (u.promiseState id).Advances (x.promiseState id) →
        id < x'.promises.size ∧ (u.promiseState id).Advances (x'.promiseState id) := by
    intro x x' h hlt hadvances
    rw [h.promises, h.promiseState]
    exact ⟨hlt, hadvances⟩
  cases h with
  | rests h => exact halike h hid (.inl (.inl rfl))
  | opens => exact ⟨hid, .inl (.inl rfl)⟩
  | touches h => exact ⟨h.size.symm ▸ hid, .inl (h.2 id)⟩
  | refuses hsubmit h =>
    obtain ⟨hlt, hstate⟩ := (Exchange.submit_frame hsubmit).2.2 id hid
    exact halike h hlt (.inl (.inl hstate))
  | accepts hshort hsubmit h =>
    obtain ⟨hlt, hstate⟩ := (Exchange.submit_frame hsubmit).2.2 id hid
    exact halike h hlt (.inl (.inl hstate))
  | plays hc hmoves =>
    obtain ⟨_, _, _, rfl⟩ := hmoves.frame
    exact ⟨hid, .inl (.inl rfl)⟩
  | routes hroute h =>
    obtain ⟨-, hsize, hstate⟩ := Exchange.route_frame hroute
    exact halike h (hsize ▸ hid) ((hstate id).imp .inl fun hcomplete => .inl ⟨_, hcomplete⟩)
  | ends ha h =>
    exact halike h ((Exchange.size_shutdown _ _).symm ▸ hid) (advances_shutdown _ _ id)

/-- A promise that its caller closed stays closed. -/
theorem closed_run {id : PromiseId} (hid : id < u.session.exchange.promises.size)
    (h : u.promiseState id = .closed) (actions : List Action) :
    (u.run actions).promiseState id = .closed := by
  induction actions generalizing u with
  | nil => exact h
  | cons a actions ih =>
    obtain ⟨hlt, hadvances⟩ := (u.step_effect a).advances hid
    exact ih hlt (hadvances.closed h)

/-- A promise of a request that was accepted is not overlooked: if it is pending, the request
waits in line or owns a box. -/
theorem Accounted.mem_inFlight (h : Accounted s past) {q : Receivers × Bytes}
    (hq : q ∈ (s.run past).accepted) {id : PromiseId} (hid : id ∈ q.1.promises)
    (hpending : (s.run past).promiseState id = .pending) :
    id ∈ (s.run past).session.exchange.inFlight := by
  obtain ⟨place, hat⟩ := h.isAt hq
  cases place with
  | waiting =>
    have hmem : ⟨q.2, q.1⟩ ∈ (s.run past).queued q.1 := by
      rw [hat.1]
      exact List.mem_cons_self
    exact Exchange.mem_inFlight_of_waits (List.mem_filter.1 hmem).1 hid
  | inFlight =>
    obtain ⟨-, slot, howns, -⟩ := hat
    obtain ⟨o, howner, hreceivers⟩ := (howns slot).2 rfl
    exact Exchange.mem_inFlight_of_owns howner (hreceivers ▸ hid)
  | answered =>
    have hdone := (hat.2.2.2 id hid).2
    rw [← promiseState, hpending] at hdone
    cases hdone
  | withdrawn =>
    -- its promises were closed when it left the line, and stayed so
    obtain ⟨-, -, -, before, a, more, rfl, -, -, hclosed⟩ := hat
    obtain ⟨hlt, hstate⟩ := hclosed id hid
    rw [run_append, closed_run hlt hstate] at hpending
    cases hpending

/-- However an open session is shut down, everything is settled then. -/
theorem Accounted.resolves (h : Accounted s past) (hattended : (s.run past).IsAttended)
    (hopen : (s.run past).IsOpen) {session : Session}
    (halike : ((s.run past).session.exchange.shutdown outage).Alike session.exchange) :
    Resolves outage (s.run past) { s.run past with session } := by
  have hcatalog : session.exchange.catalog =
      (s.run past).session.exchange.catalog.terminate outage :=
    halike.catalog.trans (Exchange.catalog_shutdown hopen outage)
  have hstate : ∀ id, session.exchange.promiseState id =
      if id ∈ (s.run past).session.exchange.inFlight then ((s.run past).promiseState id).fail outage
      else (s.run past).promiseState id := by
    rw [halike.promiseState]
    exact Exchange.promiseState_shutdown hopen outage
  have hpending : ∀ q ∈ (s.run past).accepted, ∀ id ∈ q.1.promises,
      (s.run past).promiseState id = .pending →
        session.exchange.promiseState id = .failed outage := by
    intro q hq id hid hpending
    rw [hstate, if_pos (h.mem_inFlight hq hid hpending), hpending]
    rfl
  have hdone : ∀ id, (s.run past).promiseState id ≠ .pending →
      session.exchange.promiseState id = (s.run past).promiseState id := by
    intro id hdone
    rw [hstate]
    split
    · exact Promise.State.fail_of_ne_pending hdone
    · rfl
  refine ⟨(Exchange.emptied_shutdown hopen outage).alike halike, rfl,
    fun q hq id hid => ⟨?_, ?_⟩, hpending, hdone,
    fun name e he hfinished => ⟨hattended.records he hfinished, ?_⟩, fun id hother => ?_⟩
  · show id < session.exchange.promises.size
    rw [halike.promises, Exchange.size_shutdown]
    exact h.custody.ledger.known q hq id hid
  · show session.exchange.promiseState id ≠ .pending
    by_cases hstill : (s.run past).promiseState id = .pending
    · rw [hpending q hq id hid hstill]
      exact Promise.State.noConfusion
    · rw [hdone id hstill]
      exact hstill
  · show (s.run past).takenFrom e.feed ++ (session.exchange.catalog.feed e.feed).queue = _
    rw [hcatalog, hattended.own.feed_terminate he hfinished, Feed.deliver,
      if_pos (hattended.isOpen he), ← List.append_assoc]
    rfl
  · show (s.run past).takenFrom id ++ (session.exchange.catalog.feed id).queue = _
    rw [hcatalog, Catalog.feed_terminate_of_ne _ hother]
    rfl

/-! ## After the end -/

/-- Everything a step can do when the session has ended. -/
inductive Late (u : Usage) : Action → Usage → Prop
  | rests {a : Action} {s : Session} (h : u.session.exchange.Alike s.exchange) :
      Late u a { u with session := s }
  | opens : Late u .openCursor { u with cursors := u.cursors ++ [({} : Cursor)] }
  | touches {a : Action} {s : Session} (h : u.session.exchange.Touched s.exchange) :
      Late u a { u with session := s }
  | plays {number step c c' x} (hc : u.cursors[number]? = some c)
      (hmoves : c.Moves u.session.exchange step c' x) :
      Late u (.useCursor number step) { u.withExchange x with
        cursors := u.cursors.set number c'
        taken := u.taken ++ gone c step u.session.exchange x }

/-- Requests are refused, frames ignored, and a second end is none. -/
theorem Effect.late (h : u.Effect a u') (hclosed : u.session.exchange.closed = true) :
    u.Late a u' := by
  cases h with
  | rests h => exact .rests h
  | opens => exact .opens
  | touches h => exact .touches h
  | refuses hsubmit h =>
    rw [Exchange.submit_of_closed hclosed] at hsubmit
    cases hsubmit
    exact .rests h
  | accepts hshort hsubmit h =>
    rw [Exchange.submit_of_closed hclosed] at hsubmit
    cases hsubmit
  | plays hc hmoves => exact .plays hc hmoves
  | routes hroute h =>
    obtain ⟨rfl, rfl⟩ | ⟨hopen, -⟩ | ⟨hopen, -⟩ := Exchange.route_cases hroute
    · simp only [Exchange.parcels, List.map_nil, List.append_nil]
      exact .rests h
    · cases hclosed.symm.trans hopen
    · cases hclosed.symm.trans hopen
  | ends ha h =>
    rw [Exchange.shutdown_of_closed hclosed] at h
    exact .rests h

namespace Late

theorem accepted (h : u.Late a u') : u'.accepted = u.accepted := by
  cases h <;> rfl

theorem emitted (h : u.Late a u') : u'.emitted = u.emitted := by
  cases h <;> rfl

theorem closed (h : u.Late a u') : u'.session.exchange.closed = u.session.exchange.closed := by
  cases h with
  | rests h => exact h.closed
  | opens => rfl
  | touches h => exact h.closed
  | plays hc hmoves =>
    obtain ⟨_, _, _, rfl⟩ := hmoves.frame
    rfl

/-- Only callers do anything to promises. -/
theorem handled (h : u.Late a u') :
    u'.session.exchange.promises.size = u.session.exchange.promises.size ∧
      ∀ id, (u.promiseState id).Handled (u'.promiseState id) := by
  cases h with
  | rests h =>
    refine ⟨congrArg Array.size h.promises, fun id => .inl ?_⟩
    exact congrFun h.promiseState id
  | opens => exact ⟨rfl, fun _ => .inl rfl⟩
  | touches h => exact ⟨h.size, h.2⟩
  | plays hc hmoves =>
    obtain ⟨_, _, _, rfl⟩ := hmoves.frame
    exact ⟨rfl, fun _ => .inl rfl⟩

/-- Nothing gets in flight. -/
theorem emptied (h : u.Late a u') (hu : u.session.exchange.Emptied) :
    u'.session.exchange.Emptied := by
  cases h with
  | rests h => exact hu.alike h
  | opens => exact hu
  | touches h =>
    refine ⟨h.closed.trans hu.closed, fun slot => ?_, ?_, ?_⟩
    · show BoxTable.owner? _ slot = none
      rw [h.boxes]
      exact hu.boxes slot
    · exact (congrArg Waitlist.line h.waitlist).trans hu.line
    · exact (congrArg Catalog.registry h.catalog).trans hu.registry
  | plays hc hmoves =>
    cases hmoves with
    | reads hstep hreads =>
      obtain ⟨catalog, parked, roused, hread, rfl⟩ := hreads.exchange
      exact ⟨hu.closed, hu.boxes, hu.line, hread.registry.trans hu.registry⟩
    | connects hopen hconnect => cases hu.closed.symm.trans hopen
    | stays hstate => exact hu
    | leaves hstate =>
      exact ⟨hu.closed, hu.boxes, hu.line, Cursor.registry_leave_of_empty hu.registry⟩

/-- Nobody is told anything new, and only one who leaves misses anything. -/
theorem history (h : u.Late a u') (hclosed : u.session.exchange.closed = true) (id : FeedId) :
    u'.history id = u.history id ∧
        (u'.session.exchange.catalog.feed id).isOpen =
          (u.session.exchange.catalog.feed id).isOpen ∨
      u'.history id <+: u.history id ∧
        (u'.session.exchange.catalog.feed id).isOpen = false := by
  have hsame : ∀ w : Usage, w.taken = u.taken →
      w.session.exchange.catalog.feed id = u.session.exchange.catalog.feed id →
        w.history id = u.history id ∧ (w.session.exchange.catalog.feed id).isOpen =
          (u.session.exchange.catalog.feed id).isOpen := by
    intro w htaken hfeed
    rw [history_of_taken htaken, hfeed]
    exact ⟨rfl, rfl⟩
  have hless : ∀ w : Usage, w.taken = u.taken →
      w.session.exchange.catalog.feed id = (u.session.exchange.catalog.feed id).close →
        w.history id <+: u.history id ∧ (w.session.exchange.catalog.feed id).isOpen = false := by
    intro w htaken hfeed
    rw [history_of_taken htaken, hfeed, Feed.close, List.append_nil]
    exact ⟨List.prefix_append _ _, rfl⟩
  cases h with
  | rests h => exact .inl (hsame _ rfl (by rw [h.catalog]))
  | opens => exact .inl ⟨rfl, rfl⟩
  | touches h => exact .inl (hsame _ rfl (by rw [h.catalog]))
  | plays hc hmoves =>
    cases hmoves with
    | reads hstep hreads =>
      refine .inl ⟨u.history_reads hstep hreads _ id, ?_⟩
      obtain ⟨catalog, parked, roused, hread, rfl⟩ := hreads.exchange
      exact hread.isOpen id
    | connects hopen hconnect => cases hclosed.symm.trans hopen
    | stays hstate => exact .inl (hsame _ (List.append_nil _) rfl)
    | leaves hstate =>
      rename_i number c parked roused
      obtain hkept | hclose := c.feed_leave_cases u.session.exchange.catalog id
      · exact .inl (hsame _ (List.append_nil _) hkept)
      · exact .inr (hless _ (List.append_nil _) hclose)

/-- A cursor whose result set is over does not change its mind. -/
theorem outcome (h : u.Late a u') (hclosed : u.session.exchange.closed = true) {number : Nat}
    {c : Cursor} (hc : u.cursors[number]? = some c) (hover : c.state.IsOver)
    (ha : a ≠ .useCursor number .close) :
    ∃ c', u'.cursors[number]? = some c' ∧ c'.state = c.state := by
  cases h with
  | rests h => exact ⟨c, hc, rfl⟩
  | opens =>
    have hlt : number < u.cursors.length := (List.getElem?_eq_some_iff.1 hc).1
    exact ⟨c, by rw [List.getElem?_append_left hlt, hc], rfl⟩
  | touches h => exact ⟨c, hc, rfl⟩
  | plays hother hmoves =>
    rename_i n step d d' x
    by_cases heq : n = number
    · subst heq
      rw [hc] at hother
      cases hother
      have hlt : n < u.cursors.length := (List.getElem?_eq_some_iff.1 hc).1
      refine ⟨d', by rw [List.getElem?_set_self hlt], ?_⟩
      cases hmoves with
      | reads hstep hreads => exact hreads.isOver hover
      | connects hopen hconnect => cases hclosed.symm.trans hopen
      | stays hstate => exact absurd rfl ha
      | leaves hstate => exact absurd rfl ha
    · exact ⟨c, by rw [List.getElem?_set_ne heq, hc], rfl⟩

end Late

/-! ## Runs -/

/-- Requests are refused from then on, and no cursor waits. -/
private theorem submit_of_emptied {session : Session} (h : session.exchange.Emptied)
    {ask : Exchange.Ask} {service : UInt64} {payload bytes : Bytes}
    (hbytes : session.envelope service payload = .ok bytes) :
    session.submit ask service payload = (.error .alreadyClosed, session) := by
  simp only [Session.submit, hbytes, Exchange.submit_of_closed h.closed]

private theorem shutdown_of_emptied (h : u.session.exchange.Emptied) (outage : Outage) :
    u.shutdown outage = u := by
  rw [shutdown, Exchange.shutdown_of_closed h.closed]
  rfl

/-- When the session has ended, everything is as it will stay. -/
theorem lasts_nil (h : v.session.exchange.Emptied) : Lasts v [] where
  emptied := h
  accepted := rfl
  refused _ _ _ _ hbytes := submit_of_emptied h hbytes
  once := shutdown_of_emptied h
  size := rfl
  failed _ _ := Iff.rfl
  done _ hdone := hdone
  history _ := List.prefix_rfl
  kept _ _ := rfl
  outcome _ c hc _ _ := ⟨c, hc, rfl⟩
  answered := h.next_ne_none

/-- One more step changes nothing of that. -/
theorem Lasts.step (h : Lasts v after) (a : Action) : Lasts v (after ++ [a]) := by
  have hrun : v.run (after ++ [a]) = (v.run after).step a := run_append v after [a]
  have hclosed := h.emptied.closed
  have hlate := ((v.run after).step_effect a).late hclosed
  have hemptied := hlate.emptied h.emptied
  rw [← hrun] at hlate hemptied
  exact {
    emptied := hemptied
    accepted := hlate.accepted.trans h.accepted
    refused := fun _ _ _ _ hbytes => submit_of_emptied hemptied hbytes
    once := shutdown_of_emptied hemptied
    size := hlate.handled.1.trans h.size
    failed := fun id cause => (hlate.handled.2 id).failed_iff.trans (h.failed id cause)
    done := fun id hdone => (hlate.handled.2 id).isDone (h.done id hdone)
    -- nothing is added, and only one who leaves loses what waited for him
    history := fun id => by
      obtain ⟨hsame, -⟩ | ⟨hless, -⟩ := hlate.history hclosed id
      · rw [hsame]
        exact h.history id
      · exact hless.trans (h.history id)
    kept := fun id hopen => by
      obtain ⟨hsame, hstill⟩ | ⟨-, hleft⟩ := hlate.history hclosed id
      · exact hsame.trans (h.kept id (hstill.symm.trans hopen))
      · cases hleft.symm.trans hopen
    outcome := fun number c hc hover hnever => by
      obtain ⟨hbefore, ha⟩ := not_or.1 (mt List.mem_append.2 hnever)
      obtain ⟨c', hc', hstate⟩ := h.outcome number c hc hover hbefore
      rw [← hstate] at hover ⊢
      exact hlate.outcome hclosed hc' hover fun heq => ha (List.mem_singleton.2 heq.symm)
    answered := hemptied.next_ne_none }

/-- Whatever happens after the end, nothing of what was settled changes. -/
theorem Lasts.run (h : Lasts v after) (more : List Action) : Lasts v (after ++ more) := by
  induction more generalizing after with
  | nil => rwa [List.append_nil]
  | cons a more ih =>
    rw [List.append_cons]
    exact ih (h.step a)

/-- A session that has ended does not open again. -/
theorem ended_step (hclosed : u.session.exchange.closed = true) (a : Action) :
    (u.step a).session.exchange.closed = true :=
  ((u.step_effect a).late hclosed).closed.trans hclosed

theorem ended_run (hclosed : u.session.exchange.closed = true) (actions : List Action) :
    (u.run actions).session.exchange.closed = true := by
  induction actions generalizing u with
  | nil => exact hclosed
  | cons a actions ih => exact ih (ended_step hclosed a)

/-- When the session has ended, nothing is accepted or sent any more. -/
theorem notes_of_closed (hclosed : u.session.exchange.closed = true) (actions : List Action) :
    (u.run actions).accepted = u.accepted ∧ (u.run actions).emitted = u.emitted := by
  induction actions generalizing u with
  | nil => exact ⟨rfl, rfl⟩
  | cons a actions ih =>
    have hlate := (u.step_effect a).late hclosed
    obtain ⟨haccepted, hemitted⟩ := ih (hlate.closed.trans hclosed)
    exact ⟨haccepted.trans hlate.accepted, hemitted.trans hlate.emitted⟩

/-- A session that has ended did so in some step. -/
theorem exists_ending (hopen : u.IsOpen) {actions : List Action} (h : ¬ (u.run actions).IsOpen) :
    ∃ before a after, actions = before ++ a :: after ∧ (u.run before).IsOpen ∧
      ¬ ((u.run before).step a).IsOpen := by
  induction actions generalizing u with
  | nil => exact absurd hopen h
  | cons a actions ih =>
    by_cases hstep : (u.step a).IsOpen
    · obtain ⟨before, b, after, rfl, hrest⟩ := ih hstep h
      exact ⟨a :: before, b, after, rfl, hrest⟩
    · exact ⟨[], a, actions, rfl, hopen, hstep⟩

/-- All that was accepted or sent was so while the session was open. -/
theorem exists_open (hopen : u.IsOpen) (actions : List Action) :
    ∃ before after, actions = before ++ after ∧ (u.run before).IsOpen ∧
      (u.run actions).accepted = (u.run before).accepted ∧
      (u.run actions).emitted = (u.run before).emitted := by
  by_cases hstill : (u.run actions).IsOpen
  · exact ⟨actions, [], (List.append_nil _).symm, hstill, rfl, rfl⟩
  · obtain ⟨before, a, after, rfl, hbefore, hended⟩ := exists_ending hopen hstill
    obtain hsame | ⟨_, session, -, halike, heq⟩ := ((u.run before).step_effect a).closed_cases
    · exact absurd (hsame.trans hbefore) hended
    · -- the step that ends the session notes nothing, and none does after it
      refine ⟨before, a :: after, rfl, hbefore, ?_⟩
      have hnotes := notes_of_closed (Bool.not_eq_false _ ▸ hended) after
      rw [run_append, run_cons]
      rw [heq] at hnotes ⊢
      exact hnotes

/-- After any run that left the session open, shutting it down settles everything. A step may also
rouse somebody, so it is enough that the exchanges are alike. -/
theorem resolves_of_alike (settings : Settings) (link : Link) (id : UInt64)
    (hopen : ((start settings link id).run past).IsOpen) {session : Session}
    (halike : (((start settings link id).run past).session.exchange.shutdown outage).Alike
      session.exchange) :
    Resolves outage ((start settings link id).run past)
      { (start settings link id).run past with session } := by
  have haccounted : Accounted (start settings link id) past :=
    (accounted_start settings link id).run hopen
  exact haccounted.resolves ((attended_start settings link id).run past) hopen halike

/-- Shutdown resolves everything and is final. Whatever was done with a session, and whatever frames
came: if it is open, shutting it down for any reason settles everything for good; if it is not, then
the step that ended it did so, for a reason that such a step can have. -/
theorem ending_run (settings : Settings) (link : Link) (id : UInt64) (actions : List Action) :
    ((start settings link id).run actions).IsOpen ∧
      (∀ outage, Resolves outage ((start settings link id).run actions)
          (((start settings link id).run actions).shutdown outage) ∧
        ∀ after, Lasts (((start settings link id).run actions).shutdown outage) after) ∨
    ∃ before a after outage, actions = before ++ a :: after ∧
      ((start settings link id).run before).IsOpen ∧ a.outage? = some outage ∧
      Resolves outage ((start settings link id).run before)
        (((start settings link id).run before).step a) ∧
      Lasts (((start settings link id).run before).step a) after := by
  by_cases hopen : ((start settings link id).run actions).IsOpen
  · refine .inl ⟨hopen, fun outage => ?_⟩
    have hresolves : Resolves outage ((start settings link id).run actions)
        (((start settings link id).run actions).shutdown outage) :=
      resolves_of_alike settings link id hopen (.refl _)
    exact ⟨hresolves, (lasts_nil hresolves.emptied).run⟩
  · obtain ⟨before, a, after, rfl, hbefore, hended⟩ := exists_ending (u := start settings link id)
      rfl hopen
    obtain hsame | ⟨outage, session, ha, halike, heq⟩ :=
      (((start settings link id).run before).step_effect a).closed_cases
    · exact absurd (hsame.trans hbefore) hended
    · have hresolves := resolves_of_alike settings link id hbefore halike
      rw [← heq] at hresolves
      exact .inr ⟨before, a, after, outage, rfl, hbefore, ha, hresolves,
        (lasts_nil hresolves.emptied).run after⟩

end QueryLink.Usage
