import QueryLink.Proofs.RouteLaws
import QueryLink.Session

/-!
# Handling a frame in place

`Session.route` answers with a whole new session or with none. `Work.handle` does the same in place,
one assignment after the other, and what was assigned before a failure stays assigned. Both come to
the same, so whatever is wrong with a frame is found out before the first assignment.

## Key definitions

- `Work`: work on a session that may fail half way
- `Work.handle`: handling a frame in place

## Key results

- `play_bind` to `play_advance`: what is done in place, assignment by assignment
- `play_hear`, `play_handOn`: a reply to a request, and who gets the box that it frees
- `play_handle`: handling in place is routing, and a frame that fails leaves the session as it was
-/

namespace QueryLink

/-- Work on a session in place. It may fail; what was done to the session before stays done. -/
abbrev Work : Type → Type := ExceptT Cause (StateM Session)

namespace Work

variable {α β : Type}

/-- The answer of some work, and the session after it. -/
def play (w : Work α) (s : Session) : Except Cause α × Session :=
  (ExceptT.run w).run s

/-! ## Assignments -/

def editExchange (f : Exchange → Exchange) : Work Unit :=
  modify fun s => { s with exchange := f s.exchange }

def editBoxes (f : BoxTable → BoxTable) : Work Unit :=
  editExchange fun x => { x with boxes := f x.boxes }

def editCatalog (f : Catalog → Catalog) : Work Unit :=
  editExchange fun x => { x with catalog := f x.catalog }

/-- Completes a promise. -/
def complete (payload : Bytes) (id : PromiseId) : Work Unit :=
  editExchange (·.settle (.complete payload) id)

/-- Puts a frame into the outbox of the link. -/
def emit (frame : Request) : Work Unit :=
  modify fun s => { s with link := s.link.send frame }

/-- The same table with one more reply received by the owner of a box. -/
def countReply (slot : UInt16) (t : BoxTable) : BoxTable :=
  t.setOwner slot ((t.owner? slot).map fun o => { o with received := o.received + 1 })

/-! ## Frames -/

/-- The owner of a box has one more reply, and gives the box back after the last one. Answers
whether he did. -/
def advance (slot : UInt16) : Work Bool := do
  editBoxes (countReply slot)
  let (freed, boxes) := (← get).exchange.boxes.releaseIfDone slot
  editBoxes fun _ => boxes
  return freed

/-- The owner of a box hears a reply. Answers whether the box is free then. An owner that has all
his replies hears no more. -/
def hear (slot : UInt16) (payload : Bytes) (isHead : Bool) : Work Bool := do
  match (← get).exchange.boxes.owner? slot with
  | none => throw (.protocol (.unknownSlot slot))
  | some o =>
    match o.receivers, o.received with
    | .statement reply, 0 => complete payload reply
    | .query head body, 0 =>
      if isHead then
        editBoxes (·.setOwner slot (some { o with expected := 2 }))
        complete payload head
      else
        complete payload head
        complete payload body
    | .query _ body, 1 => complete payload body
    | _, _ => throw (.protocol (.unknownSlot slot))
    advance slot

/-- A free box goes to the oldest request in line that somebody still waits for. -/
def handOn : Work Unit := do
  let (next, waitlist) := (← get).exchange.waitlist.pop (← get).exchange.isAbandoned
  editExchange ({ · with waitlist })
  match next with
  | none => return
  | some w =>
    match (← get).exchange.boxes.allocate w.receivers with
    | some (slot, boxes) =>
      editBoxes fun _ => boxes
      emit ⟨.payload, slot, w.payload⟩
    | none => editExchange fun x => { x with waitlist := x.waitlist.pushFront w }

/-- The owner of a box hears a reply, and the box goes on if it is free then. -/
def deliver (r : Reply) (isHead : Bool) : Work Unit := do
  if ← hear r.slot r.payload isHead then handOn

/-- Handles a frame of the server. -/
def handle (r : Reply) : Work Unit := do
  if (← get).exchange.closed then return
  match r.kind with
  | .payload => deliver r false
  | .bodyHead => deliver r true
  | .resultSetHello =>
    match Utf8.decode r.payload with
    | .error fault => throw (.value (.utf8 fault))
    | .ok name => editCatalog (·.hello r.slot name)
  | .resultSetPayload => editCatalog (·.piece r.slot r.writer r.payload)
  | .resultSetBye =>
    editCatalog (·.bye r.slot)
    emit ⟨.byeOk, r.slot, []⟩
  | .helloOk => throw (.protocol (.unexpected .helloOk "session"))
  | .helloNg => throw (.protocol (.unexpected .helloNg "session"))

/-! ## Playing work -/

/-- Later work goes on with the session as earlier work left it, unless that failed. -/
theorem play_bind (w : Work α) (f : α → Work β) (s : Session) :
    (w >>= f).play s =
      match w.play s with
      | (.ok a, s') => (f a).play s'
      | (.error e, s') => (.error e, s') := by
  show (ExceptT.run (w >>= f)).run s = _
  unfold play
  rw [ExceptT.run_bind]
  rcases h : (ExceptT.run w).run s with ⟨e | a, s'⟩
  · simp only [h, StateT.run_bind]
    rfl
  · simp only [h, StateT.run_bind]
    rfl

theorem play_get (s : Session) : (get : Work Session).play s = (.ok s, s) := rfl

theorem play_editExchange (f : Exchange → Exchange) (s : Session) :
    (editExchange f).play s = (.ok (), { s with exchange := f s.exchange }) := rfl

theorem play_advance (slot : UInt16) (s : Session) :
    (advance slot).play s =
      (.ok ((countReply slot s.exchange.boxes).releaseIfDone slot).1, { s with
        exchange := { s.exchange with
          boxes := ((countReply slot s.exchange.boxes).releaseIfDone slot).2 } }) := rfl

/-! ## A reply to a request -/

/-- Only the last owner that a box was given counts. -/
theorem setOwner_setOwner (t : BoxTable) (slot : UInt16) (o o' : Option Owner) :
    (t.setOwner slot o).setOwner slot o' = t.setOwner slot o' := by
  simp only [BoxTable.setOwner, Array.setIfInBounds_setIfInBounds]

theorem countReply_of_owner {t : BoxTable} {slot : UInt16} {o : Owner}
    (h : t.owner? slot = some o) :
    countReply slot t = t.setOwner slot (some { o with received := o.received + 1 }) := by
  rw [countReply, h, Option.map_some]

/-- A reply is counted for the owner as he was changed before. -/
theorem countReply_setOwner {t : BoxTable} {slot : UInt16} {o : Owner}
    (h : t.owner? slot = some o) (o' : Owner) :
    countReply slot (t.setOwner slot (some o')) =
      t.setOwner slot (some { o' with received := o'.received + 1 }) := by
  have howner := BoxTable.owner?_setOwner (BoxTable.inBounds_of_owner h) (some o') slot
  rw [if_pos rfl] at howner
  rw [countReply_of_owner howner, setOwner_setOwner]

/-- Promises do not depend on boxes. -/
theorem settle_boxes (x : Exchange) (boxes : BoxTable) (f : Promise.State → Promise.State)
    (id : PromiseId) :
    ({ x with boxes } : Exchange).settle f id = { x.settle f id with boxes } := by
  unfold Exchange.settle
  dsimp only
  split <;> rfl

theorem boxes_settle (x : Exchange) (f : Promise.State → Promise.State) (id : PromiseId) :
    (x.settle f id).boxes = x.boxes :=
  Exchange.settleAll_boxes f [id]

/-- Hearing a reply in place: the boxes are those after `BoxTable.push`, and the promises that it
names are completed. A reply that nobody hears changes nothing. -/
theorem play_hear (slot : UInt16) (payload : Bytes) (isHead : Bool) (s : Session) :
    (hear slot payload isHead).play s =
      match s.exchange.boxes.push slot isHead with
      | .error e => (.error (.protocol e), s)
      | .ok (completes, freed, boxes) => (.ok freed, { s with
          exchange := ({ s.exchange with boxes } : Exchange).settleAll (.complete payload)
            completes }) := by
  unfold hear BoxTable.push
  simp only [play_bind, play_get]
  rcases howner : s.exchange.boxes.owner? slot with _ | ⟨receivers, expected, received⟩
  · rfl
  have hcount := countReply_of_owner howner
  have hagain := countReply_setOwner howner
  cases receivers with
  | statement reply =>
    cases received with
    | zero =>
      simp only [BoxTable.Arrival.of?, complete, play_bind, play_editExchange, play_advance,
        Exchange.settleAll, List.foldl_cons, List.foldl_nil, settle_boxes, boxes_settle, hcount]
    | succ received => rfl
  | query head body =>
    obtain _ | _ | received := received
    · -- the first reply is for both promises, or for the head alone and then a body is expected
      cases isHead with
      | true =>
        simp only [BoxTable.Arrival.of?, complete, editBoxes, play_bind, play_editExchange,
          play_advance, Exchange.settleAll, List.foldl_cons, List.foldl_nil, settle_boxes, hagain,
          if_true]
      | false =>
        simp only [BoxTable.Arrival.of?, complete, play_bind, play_editExchange, play_advance,
          Exchange.settleAll, List.foldl_cons, List.foldl_nil, settle_boxes, boxes_settle, hcount,
          Bool.false_eq_true, if_false]
    · simp only [BoxTable.Arrival.of?, complete, play_bind, play_editExchange, play_advance,
        Exchange.settleAll, List.foldl_cons, List.foldl_nil, settle_boxes, boxes_settle, hcount]
    · rfl

/-- Handing a box on in place. -/
theorem play_handOn (s : Session) :
    handOn.play s = (.ok (), { s with
      exchange := s.exchange.dispatch.2
      link := s.link.sendAll s.exchange.dispatch.1 }) := by
  unfold handOn Exchange.dispatch
  simp only [play_bind, play_get]
  rcases s.exchange.waitlist.pop s.exchange.isAbandoned with ⟨_ | w, waitlist⟩
  · rfl
  · simp only [play_bind, play_editExchange, play_get]
    rcases s.exchange.boxes.allocate w.receivers with _ | ⟨slot, boxes⟩
    · rfl
    · rfl

/-! ## All frames -/

/-- What comes of the frames that have to be sent and the exchange after them; after an error the
session is as it was. -/
def settled (s : Session) : Except Cause (List Request × Exchange) → Except Cause Unit × Session
  | .error e => (.error e, s)
  | .ok (frames, exchange) => (.ok (), { s with exchange, link := s.link.sendAll frames })

theorem play_deliver (r : Reply) (isHead : Bool) (s : Session) :
    (deliver r isHead).play s = settled s (s.exchange.deliver r isHead) := by
  unfold deliver Exchange.deliver
  rw [play_bind, play_hear]
  rcases s.exchange.boxes.push r.slot isHead with e | ⟨completes, freed, boxes⟩
  · rfl
  · cases freed with
    | true => exact play_handOn _
    | false => rfl

/-- Handling a frame in place is routing it. -/
theorem play_handle (r : Reply) (s : Session) :
    (handle r).play s = settled s (s.exchange.route r) := by
  unfold handle Exchange.route
  rw [play_bind, play_get]
  dsimp only
  split
  · rfl
  cases r.kind with
  | payload => exact play_deliver r false s
  | bodyHead => exact play_deliver r true s
  | resultSetHello =>
    dsimp only
    cases Utf8.decode r.payload with
    | error fault => rfl
    | ok name => rfl
  | resultSetPayload => rfl
  | resultSetBye => rfl
  | helloOk => rfl
  | helloNg => rfl

/-- The pump's session after a frame is the one that was worked on. -/
theorem play_handle_session (r : Reply) (s : Session) : ((handle r).play s).2 = s.route r := by
  rw [play_handle, Session.route]
  cases s.exchange.route r with
  | error e => rfl
  | ok sent => rfl

end Work

end QueryLink
