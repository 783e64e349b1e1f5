import QueryLink.Proofs.ConversationSteps
import QueryLink.Script.Run

/-!
# A session in use

`Usage` is a session with the cursors on it and the far end left to do as it likes: the link may
turn into any other link at any time, so any frames may come and any operation on the link may
fail. `Usage.run` plays any sequence of what callers, consumers, the pump and the far end do. The
pump's turn is played in its parts, between which others run; `turn_eq_run` says that the parts
make up a turn.

The notes `accepted`, `emitted` and `taken` record what the session answers and hands over. The
session does not know of them.

## Key definitions

- `Usage.step`, `Usage.run`: what may happen
- `Usage.Action.outage?`: why a step may end the session
- `Usage.history`: what the consumer of a feed was told or will be told
-/

namespace QueryLink

/-- A session, the cursors on it, and notes on what the session did. -/
structure Usage where
  session : Session
  cursors : List Cursor := []
  /-- The requests that were accepted: who waits for the replies, and what is sent. -/
  accepted : List (Receivers × Bytes) := []
  /-- The frames that were handed to the pump or to the link, oldest first. -/
  emitted : List Parcel := []
  /-- The events that consumers took from their feeds, oldest first. -/
  taken : List (FeedId × Feed.Event) := []

namespace Usage

/-- Something that callers, consumers, the pump or the far end do. -/
inductive Action where
  /-- A caller sends a request to a service. -/
  | submit (ask : Exchange.Ask) (service : UInt64) (payload : Bytes)
  /-- A caller closes a response. -/
  | abandon (promise : PromiseId)
  | take (promise : PromiseId)
  | await (task : TaskId) (promise : PromiseId)
  | hold
  | letGo
  | close (closer : TaskId)
  /-- A consumer that is not connected yet. -/
  | openCursor
  /-- A consumer connects, reads or closes. -/
  | useCursor (number : Nat) (step : Script.CursorStep)
  /-- The parts of a turn of the pump. -/
  | takeMail
  | routeNext
  | flush
  | shutLink
  /-- The far end does anything at all. -/
  | farEnd (link : Link) (noticed : Bool)

/-- Why a step may end the session. A caller closes it, or nobody holds it any more and the pump
has shut the link down; or the link ends or fails while the pump reads or flushes. -/
def Action.outage? : Action → Option Outage
  | close _ => some .closed
  | shutLink => some .closed
  | routeNext => some .crashed
  | flush => some .crashed
  | _ => none

/-- The same usage with another exchange. -/
def withExchange (u : Usage) (x : Exchange) : Usage :=
  { u with session := { u.session with exchange := x } }

/-- A caller sends a request. What is mailed because of it is handed to the pump. -/
def submit (u : Usage) (ask : Exchange.Ask) (service : UInt64) (payload : Bytes) : Usage :=
  match u.session.envelope service payload, u.session.submit ask service payload with
  | .ok bytes, (.ok receivers, session) =>
    { u with
      session
      accepted := u.accepted ++ [(receivers, bytes)]
      emitted := u.emitted ++ session.exchange.parcels
        ((session.mailbox.drop u.session.mailbox.length).filterMap Mail.request?) }
  | _, (_, session) => { u with session }

/-- The events that are gone from the front of a cursor's feed, unless it let go of the feed. -/
def gone (c : Cursor) (step : Script.CursorStep) (before after : Exchange) :
    List (FeedId × Feed.Event) :=
  match step, c.feed with
  | .close, _ => []
  | _, none => []
  | _, some id =>
    let queue := (before.catalog.feed id).queue
    (queue.take (queue.length - (after.catalog.feed id).queue.length)).map (id, ·)

/-- A consumer does something with its cursor. -/
def useCursor (u : Usage) (number : Nat) (step : Script.CursorStep) : Usage :=
  match u.cursors[number]? with
  | none => u
  | some c =>
    let (_, _, c', x) := Script.Stage.playCursor c u.session.exchange step
    { u.withExchange x with
      cursors := u.cursors.set number c'
      taken := u.taken ++ gone c step u.session.exchange x }

/-- The pump routes the next reply, unless it has to stop reading; it ends with the link. -/
def routeNext (u : Usage) : Usage :=
  { u with
    session :=
      if (u.session.routeAll 1).1 then (u.session.routeAll 1).2
      else (u.session.routeAll 1).2.finish .crashed
    emitted := u.emitted ++ u.session.sentByRouting 1 }

/-- The pump shuts the link down if it is closing. -/
def shutLink (u : Usage) : Usage :=
  match u.session.phase with
  | .closing closer => { u with session := u.session.closeLink closer }
  | _ => u

/-- One step. What can not be done changes nothing. -/
def step (u : Usage) : Action → Usage
  | .submit ask service payload => u.submit ask service payload
  | .abandon promise => u.withExchange (u.session.exchange.settle .close promise)
  | .take promise => u.withExchange (u.session.exchange.take promise).2
  | .await task promise => u.withExchange (u.session.exchange.await task promise).2
  | .hold => { u with session := u.session.hold }
  | .letGo => { u with session := u.session.letGo }
  | .close closer => { u with session := (u.session.close closer).2 }
  | .openCursor => { u with cursors := u.cursors ++ [{}] }
  | .useCursor number step => u.useCursor number step
  | .takeMail => { u with session := u.session.takeMail }
  | .routeNext => if u.session.phase = .running then u.routeNext else u
  | .flush =>
    if u.session.phase = .running then { u with session := u.session.flushLink } else u
  | .shutLink => u.shutLink
  | .farEnd link noticed => { u with session := u.session.farEnd link noticed }

/-- Any number of steps. -/
def run (u : Usage) (actions : List Action) : Usage :=
  actions.foldl step u

/-- A new session over any link, with no cursors. -/
def start (settings : Settings) (link : Link) (id : UInt64) : Usage where
  session := .start settings link id

/-- Whether the session has not ended. -/
def IsOpen (u : Usage) : Prop := u.session.exchange.closed = false

/-- The state of a promise. -/
def promiseState (u : Usage) (id : PromiseId) : Promise.State :=
  u.session.exchange.promiseState id

/-- What the consumer of a feed took. -/
def takenFrom (u : Usage) (id : FeedId) : List Feed.Event :=
  (u.taken.filter fun p => p.1 = id).map Prod.snd

/-- What the consumer of a feed took and what waits for it there, first event first. -/
def history (u : Usage) (id : FeedId) : List Feed.Event :=
  u.takenFrom id ++ (u.session.exchange.catalog.feed id).queue

@[simp] theorem run_nil (u : Usage) : u.run [] = u := rfl

@[simp] theorem run_cons (u : Usage) (a : Action) (actions : List Action) :
    u.run (a :: actions) = (u.step a).run actions := rfl

@[simp] theorem run_append (u : Usage) (before after : List Action) :
    u.run (before ++ after) = (u.run before).run after :=
  List.foldl_append

/-! ## Turns of the pump -/

/-- The pump that runs routes replies one at a time until it has to stop. -/
private theorem routeAll_eq_run (fuel : Nat) (u : Usage) (hphase : u.session.phase = .running) :
    ∃ n, (u.run (List.replicate n .routeNext)).session =
      if (u.session.routeAll fuel).1 then (u.session.routeAll fuel).2
      else (u.session.routeAll fuel).2.finish .crashed := by
  induction fuel generalizing u with
  | zero => exact ⟨0, rfl⟩
  | succ fuel ih =>
    -- what one step does, and where the routing of many replies goes on from there
    have hone : (u.step .routeNext).session =
        if (u.session.routeAll 1).1 then (u.session.routeAll 1).2
        else (u.session.routeAll 1).2.finish .crashed := by
      simp only [step, hphase, if_true, routeNext]
    unfold Session.routeAll at hone ⊢
    split
    · rename_i hfull
      rw [if_pos hfull] at hone
      exact ⟨1, hone⟩
    · rename_i hroom
      rw [if_neg hroom] at hone
      split
      · rename_i hreceive
        rw [hreceive] at hone
        exact ⟨1, hone⟩
      · rename_i reply link hreceive
        rw [hreceive] at hone
        simp only [Session.routeAll, if_true] at hone
        -- the reply was routed; the others come after it
        have hrunning : (u.step .routeNext).session.phase = .running := by
          rw [hone, Session.route_phase]
          exact hphase
        obtain ⟨n, hn⟩ := ih (u.step .routeNext) hrunning
        rw [hone] at hn
        exact ⟨n + 1, hn⟩
      · rename_i hreceive
        rw [hreceive] at hone
        exact ⟨1, hone⟩
      · rename_i hreceive
        rw [hreceive] at hone
        exact ⟨1, hone⟩

/-- Flushing leaves the pump running, or ends it. -/
private theorem flushLink_phase (s : Session) (hphase : s.phase = .running) :
    s.flushLink.phase = .running ∨ s.flushLink.phase = .finished := by
  unfold Session.flushLink
  split
  · exact .inl hphase
  · exact .inl hphase
  · exact .inr rfl

/-- A pump that does not run does not flush. -/
private theorem step_flush_of_ne {u : Usage} (hphase : u.session.phase ≠ .running) :
    u.step .flush = u := by
  simp only [step, if_neg hphase]

/-- A pump that is not closing does not shut the link down. -/
private theorem step_shutLink_of_ne {u : Usage}
    (hphase : u.session.phase = .running ∨ u.session.phase = .finished) :
    u.step .shutLink = u := by
  simp only [step, shutLink]
  obtain hphase | hphase := hphase <;> rw [hphase]

/-- A turn of the pump is a run of its parts. -/
theorem turn_eq_run (u : Usage) :
    ∃ n, (u.run (.takeMail :: (List.replicate n .routeNext ++ [.flush, .shutLink]))).session =
      u.session.turn := by
  have hread : (u.step .takeMail).session = u.session.takeMail := rfl
  unfold Session.turn
  simp only [run_cons, run_append, run_nil]
  generalize u.step .takeMail = v at hread
  rw [← hread]
  cases hphase : v.session.phase with
  | finished =>
    refine ⟨0, ?_⟩
    have hflush : v.step .flush = v := step_flush_of_ne (by simp [hphase])
    rw [List.replicate_zero, run_nil, hflush, step_shutLink_of_ne (.inr hphase)]
  | closing closer =>
    refine ⟨0, ?_⟩
    have hflush : v.step .flush = v := step_flush_of_ne (by simp [hphase])
    rw [List.replicate_zero, run_nil, hflush]
    simp only [step, shutLink, hphase]
  | running =>
    obtain ⟨n, hn⟩ := v.routeAll_eq_run (v.session.link.backlog + 1) hphase
    refine ⟨n, ?_⟩
    have hkept := Session.routeAll_phase (v.session.link.backlog + 1) v.session
    generalize v.run (List.replicate n .routeNext) = w at hn
    rcases hroute : v.session.routeAll (v.session.link.backlog + 1) with ⟨good, s⟩
    rw [hroute] at hn hkept
    cases good with
    | true =>
      -- the link is good: the pump flushes and is not closing afterwards
      rw [if_pos rfl] at hn
      have hrunning : w.session.phase = .running := by
        rw [hn]
        exact hkept.trans hphase
      have hflush : (w.step .flush).session = s.flushLink := by
        simp only [step]
        rw [if_pos hrunning, hn]
      have hafter := flushLink_phase s (hkept.trans hphase)
      rw [← hflush] at hafter
      rw [step_shutLink_of_ne hafter, hflush]
    | false =>
      -- the link is not: the pump has ended
      rw [if_neg Bool.false_ne_true] at hn
      have hfinished : w.session.phase = .finished := by
        rw [hn]
        rfl
      have hflush : w.step .flush = w := step_flush_of_ne (by simp [hfinished])
      rw [hflush, step_shutLink_of_ne (.inr hfinished), hn]

end Usage

end QueryLink
