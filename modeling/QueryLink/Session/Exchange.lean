import QueryLink.ResultSet.Catalog
import QueryLink.Session.Waitlist
import QueryLink.Settings

/-! # The exchange

The exchange is what callers and the pump of a session share: response boxes, waiting requests,
promises and result sets. Requests go in by `submit`, replies by `route`; both say which requests
have to be sent. `shutdown` fails everything in flight, once.

Whoever has to run again because of an operation is noted in `roused`, in the order they have to
run; a scheduler takes the notes from there. -/

namespace QueryLink

/-- Who may have to run again. -/
inductive Runner where
  /-- The pump, which owns the link. -/
  | pump
  | task (id : TaskId)
  deriving Repr, DecidableEq

/-- What callers and the pump of a session share. -/
structure Exchange where
  boxes : BoxTable
  waitlist : Waitlist
  catalog : Catalog
  /-- All promises there ever were. -/
  promises : Array Promise
  /-- Whether the pump stopped reading because of a full feed and waits to be roused. -/
  readerParked : Bool
  closed : Bool
  roused : List Runner

namespace Exchange

/-- The exchange of a new session. -/
def ofSettings (s : Settings) : Exchange where
  boxes := .ofCapacity s.responseBoxes
  waitlist := .ofLimit s.pendingLimit
  catalog := .ofLimit s.resultSetBuffer
  promises := #[]
  readerParked := false
  closed := false
  roused := []

/-- Notes that somebody has to run again. -/
def rouse (x : Exchange) (r : Runner) : Exchange :=
  { x with roused := x.roused ++ [r] }

/-! ## Promises -/

/-- The state of a promise; an unknown one is closed. -/
def promiseState (x : Exchange) (id : PromiseId) : Promise.State :=
  (x.promises[id]?.map Promise.state).getD .closed

/-- Changes the state of a promise and rouses the tasks parked on it. -/
def settle (x : Exchange) (f : Promise.State → Promise.State) (id : PromiseId) : Exchange :=
  match x.promises[id]? with
  | none => x
  | some p =>
    let (p, parked) := p.settle f
    { x with
      promises := x.promises.setIfInBounds id p
      roused := x.roused ++ parked.map .task }

/-- Changes the state of some promises, one after the other. -/
def settleAll (x : Exchange) (f : Promise.State → Promise.State) (ids : List PromiseId) :
    Exchange :=
  ids.foldl (settle · f) x

/-- Asks for the payload of a promise. -/
def take (x : Exchange) (id : PromiseId) : Option (Except Cause Bytes) × Exchange :=
  match x.promises[id]? with
  | none => (some (.error .alreadyClosed), x)
  | some p =>
    let (answer, p) := p.take
    (answer, { x with promises := x.promises.setIfInBounds id p })

/-- Asks for the payload of a promise on behalf of a task. -/
def await (x : Exchange) (task : TaskId) (id : PromiseId) :
    Option (Except Cause Bytes) × Exchange :=
  match x.promises[id]? with
  | none => (some (.error .alreadyClosed), x)
  | some p =>
    let (answer, p) := p.await task
    (answer, { x with promises := x.promises.setIfInBounds id p })

/-- Whether nobody waits for a request any more. -/
def isAbandoned (x : Exchange) (r : Receivers) : Bool :=
  r.promises.all fun id => (x.promiseState id).isAbandoned

/-! ## Ending -/

/-- Closes the exchange and fails all that is in flight. Only the first call does anything. -/
def shutdown (x : Exchange) (outage : Outage) : Exchange :=
  if x.closed then x
  else
    let (owners, boxes) := x.boxes.clear
    let (waiting, waitlist) := x.waitlist.clear
    let x := { x with closed := true, boxes, waitlist }
    let x := (x.settleAll (.fail outage) owners).settleAll (.fail outage) waiting
    { x with catalog := x.catalog.terminate outage }

/-- Rouses the pump if it stopped reading. -/
def wakeReader (x : Exchange) : Exchange :=
  if x.readerParked then { x with readerParked := false }.rouse .pump else x

/-! ## Requests -/

/-- What is asked with a request. -/
inductive Ask where
  | statement
  | query
  deriving Repr, DecidableEq

/-- The receivers of a request whose first promise has the number `next`. -/
def Ask.receivers (next : PromiseId) : Ask → Receivers
  | statement => .statement next
  | query => .query next (next + 1)

/-- The same exchange with new pending promises for a request. -/
def addPromises (x : Exchange) (r : Receivers) : Exchange :=
  { x with promises := x.promises ++ r.promises.toArray.map fun _ => ({} : Promise) }

/-- What became of a request that was accepted. -/
structure Accepted where
  receivers : Receivers
  /-- The frame to send; without one the request waits for a box. -/
  frame : Option Request
  deriving Repr, DecidableEq

/-- Accepts a request: it gets a free box and can be sent, or it waits in line. -/
def submit (x : Exchange) (ask : Ask) (payload : Bytes) : Except Cause Accepted × Exchange :=
  if x.closed then (.error .alreadyClosed, x)
  else
    let receivers := ask.receivers x.promises.size
    match x.boxes.allocate receivers with
    | some (slot, boxes) =>
      (.ok ⟨receivers, some ⟨.payload, slot, payload⟩⟩,
        { x with boxes }.addPromises receivers)
    | none =>
      match x.waitlist.push x.isAbandoned ⟨payload, receivers⟩ with
      | (true, waitlist) => (.ok ⟨receivers, none⟩, { x with waitlist }.addPromises receivers)
      | (false, waitlist) => (.error .backpressure, { x with waitlist })

/-! ## Replies -/

/-- Gives a free box to the oldest waiting request, which can be sent then. -/
def dispatch (x : Exchange) : List Request × Exchange :=
  match x.waitlist.pop x.isAbandoned with
  | (none, waitlist) => ([], { x with waitlist })
  | (some r, waitlist) =>
    match x.boxes.allocate r.receivers with
    | some (slot, boxes) => ([⟨.payload, slot, r.payload⟩], { x with waitlist, boxes })
    | none => ([], { x with waitlist := waitlist.pushFront r })

/-- Hands a reply to the owner of its box. -/
def deliver (x : Exchange) (r : Reply) (isHead : Bool) :
    Except Cause (List Request × Exchange) :=
  match x.boxes.push r.slot isHead with
  | .error e => .error (.protocol e)
  | .ok (completes, freed, boxes) =>
    let x := { x with boxes }.settleAll (.complete r.payload) completes
    .ok (if freed then x.dispatch else ([], x))

/-- Hands a reply to whom it concerns. The answer is what has to be sent because of it; a reply
that makes no sense changes nothing. Nothing concerns a closed exchange. -/
def route (x : Exchange) (r : Reply) : Except Cause (List Request × Exchange) :=
  if x.closed then .ok ([], x)
  else match r.kind with
    | .payload => x.deliver r false
    | .bodyHead => x.deliver r true
    | .resultSetHello =>
      match Utf8.decode r.payload with
      | .error fault => .error (.value (.utf8 fault))
      | .ok name => .ok ([], { x with catalog := x.catalog.hello r.slot name })
    | .resultSetPayload =>
      .ok ([], { x with catalog := x.catalog.piece r.slot r.writer r.payload })
    | .resultSetBye =>
      .ok ([⟨.byeOk, r.slot, []⟩], { x with catalog := x.catalog.bye r.slot })
    | .helloOk => .error (.protocol (.unexpected .helloOk "session"))
    | .helloNg => .error (.protocol (.unexpected .helloNg "session"))

end Exchange

end QueryLink
