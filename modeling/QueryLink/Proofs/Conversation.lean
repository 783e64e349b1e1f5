import QueryLink.Proofs.ServerSide
import QueryLink.Session

/-!
# Conversations

A conversation is a session and a server that keeps to the protocol: it replies only to requests
it got, in any order between them, once to a statement, and to a query once or with a head and
later a body. `Conversation.run` plays any sequence of what callers, the pump, the server and the
far end of the link do.

The conversation keeps account of whose request each frame is, from the moment when the frame is
made until the server has it. The session does not know of these notes.

## Key definitions

- `Case`: a request that the server got, with what the server replied
- `Conversation.step`, `Conversation.run`: what may happen
- `Opening`: a link on which a session may start
-/

namespace QueryLink

/-- A frame on its way to the server, and who waits for the replies if it is a request to a
service. -/
structure Parcel where
  frame : Request
  receivers : Option Receivers

/-- A request that the server got, who waits for the replies, and the replies so far. -/
structure Case where
  frame : Request
  receivers : Option Receivers
  replies : List Reply := []

namespace Case

/-- Whether the request is not fully answered. -/
def isOpen (k : Case) : Bool :=
  k.replies.all fun r => decide (r.kind ≠ .payload)

/-- Whether two replies are waited for. -/
def isQuery (k : Case) : Bool :=
  match k.receivers with
  | some (.query _ _) => true
  | _ => false

/-- Whether the protocol allows a reply of a kind now: the last one, or first a head of a query. -/
def admits (k : Case) (kind : ReplyKind) : Bool :=
  k.isOpen && (decide (kind = .payload) ||
    (decide (kind = .bodyHead) && k.isQuery && k.replies.isEmpty))

/-- What the server replied to one of the promises: the first reply is for the head, and for the
body too unless a body follows. -/
def replyTo (k : Case) (id : PromiseId) : Option Bytes :=
  match k.receivers, k.replies with
  | some (.statement _), first :: _ => some first.payload
  | some (.query head _), first :: rest =>
    if id = head ∨ first.kind = .payload then some first.payload
    else rest.head?.map Reply.payload
  | _, _ => none

end Case

/-! ## Whose frame it is -/

/-- The request in a mail. -/
def Mail.request? : Mail → Option Request
  | request r => some r
  | close _ => none

/-- Frames that were just made, with the owners of their boxes. -/
def Exchange.parcels (x : Exchange) (frames : List Request) : List Parcel :=
  frames.map fun frame =>
    ⟨frame, if frame.kind = .payload then (x.boxes.owner? frame.slot).map Owner.receivers else none⟩

namespace Session

/-- How many mails the pump reads next: those before the first that asks to close. -/
def readable (s : Session) : Nat :=
  match s.phase with
  | .running => (s.mailbox.takeWhile fun m => m.request?.isSome).length
  | _ => 0

/-- What is sent when a reply is routed. -/
def sentFor (s : Session) (r : Reply) : List Parcel :=
  match s.exchange.route r with
  | .error _ => []
  | .ok (frames, exchange) => exchange.parcels frames

/-- What is sent when replies are routed, no more than `fuel`. -/
def sentByRouting : (fuel : Nat) → Session → List Parcel
  | 0, _ => []
  | fuel + 1, s =>
    if s.exchange.catalog.isSaturated then []
    else match s.link.receive with
      | (some (.ok (some reply)), link) =>
        { s with link }.sentFor reply ++ sentByRouting fuel ({ s with link }.route reply)
      | _ => []

/-- What is sent in a turn of the pump besides the mail. -/
def sentInTurn (s : Session) : List Parcel :=
  match s.takeMail.phase with
  | .running => s.takeMail.sentByRouting (s.takeMail.link.backlog + 1)
  | _ => []

end Session

/-! ## Steps -/

/-- A session and a server. -/
structure Conversation where
  session : Session
  /-- Requests that were accepted: who waits for the replies, and what is sent. -/
  submitted : List (Receivers × Bytes) := []
  /-- Requests in the mailbox. -/
  posted : List Parcel := []
  /-- Frames the pump sent that the server has not got. -/
  carried : List Parcel := []
  /-- Bytes the server took that are no whole request yet. -/
  undecoded : Bytes := []
  /-- What the server got, oldest first. -/
  cases : List Case := []
  /-- Bytes the server wrote that have not arrived. -/
  outgoing : Bytes := []

/-- Something that callers, the pump, the server or the far end do. -/
inductive Action where
  /-- A caller sends a request to a service. -/
  | submit (ask : Exchange.Ask) (service : UInt64) (payload : Bytes)
  /-- A caller closes a response. -/
  | abandon (promise : PromiseId)
  | take (promise : PromiseId)
  | await (task : TaskId) (promise : PromiseId)
  | hold
  | letGo
  | close (closer : TaskId)
  /-- Callers do something with result sets, whatever it is. -/
  | useResultSets (catalog : Catalog) (readerParked : Bool) (roused : List Runner)
  /-- The pump runs undisturbed. -/
  | turn
  /-- Parts of a turn, between which others run. -/
  | takeMail
  | routeNext
  | flush
  /-- The far end does something besides taking and sending frames. -/
  | farEnd (step : Script.FarEnd)
  /-- The server takes the next request. -/
  | receive
  /-- The server replies to the case with a number. -/
  | answer (number : Nat) (kind : ReplyKind) (payload : Bytes)
  /-- The server sends something that is no reply to a request. -/
  | announce (r : Reply)
  /-- Written bytes arrive, in reads of a size if one is given. -/
  | transmit (n : Nat) (size : Option Nat)

namespace Conversation

/-- The same conversation with another exchange. -/
def withExchange (c : Conversation) (x : Exchange) : Conversation :=
  { c with session := { c.session with exchange := x } }

/-- A caller sends a request. What is mailed because of it is the caller's. -/
def submit (c : Conversation) (ask : Exchange.Ask) (service : UInt64) (payload : Bytes) :
    Conversation :=
  match c.session.envelope service payload, c.session.submit ask service payload with
  | .ok bytes, (.ok receivers, session) =>
    { c with
      session
      submitted := c.submitted ++ [(receivers, bytes)]
      posted := c.posted ++ ((session.mailbox.drop c.session.mailbox.length).filterMap
        Mail.request?).map fun frame => ⟨frame, some receivers⟩ }
  | _, (_, session) => { c with session }

/-- The pump runs. -/
def turn (c : Conversation) : Conversation :=
  { c with
    session := c.session.turn
    posted := c.posted.drop c.session.readable
    carried := c.carried ++ c.posted.take c.session.readable ++ c.session.sentInTurn }

/-- The pump reads its mail. -/
def takeMail (c : Conversation) : Conversation :=
  { c with
    session := c.session.takeMail
    posted := c.posted.drop c.session.readable
    carried := c.carried ++ c.posted.take c.session.readable }

/-- The pump routes replies, no more than `fuel`. -/
def route (fuel : Nat) (c : Conversation) : Conversation :=
  { c with
    session :=
      if (c.session.routeAll fuel).1 then (c.session.routeAll fuel).2
      else (c.session.routeAll fuel).2.finish .crashed
    carried := c.carried ++ c.session.sentByRouting fuel }

/-- The pump hands the outbox to the far end. -/
def flush (c : Conversation) : Conversation :=
  { c with session := c.session.flushLink }

/-- The server takes the next request; the first frame on its way is the one it gets. -/
def receive (c : Conversation) : Conversation :=
  match c.session.link.next? c.undecoded with
  | none => c
  | some (frame, undecoded, link) =>
    { c with
      session := { c.session with link }
      carried := c.carried.tail
      undecoded
      cases :=
        if frame.kind = .payload then
          c.cases ++ [{ frame, receivers := c.carried.head?.bind Parcel.receivers }]
        else c.cases }

/-- The server sends a reply. `none` when the link does not take it. -/
def reply? (c : Conversation) (r : Reply) : Option Conversation :=
  (c.session.link.reply? c.outgoing r).map fun sent =>
    { c with session := c.session.farEnd sent.2 true, outgoing := sent.1 }

/-- The server replies to a case if the protocol allows it. -/
def answer (c : Conversation) (number : Nat) (kind : ReplyKind) (payload : Bytes) :
    Conversation :=
  match c.cases[number]? with
  | none => c
  | some k =>
    if k.admits kind then
      let r := Reply.plain kind k.frame.slot payload
      match c.reply? r with
      | none => c
      | some c => { c with cases := c.cases.set number { k with replies := k.replies ++ [r] } }
    else c

/-- One step. What can not be done changes nothing. -/
def step (c : Conversation) : Action → Conversation
  | .submit ask service payload => c.submit ask service payload
  | .abandon promise => c.withExchange (c.session.exchange.settle .close promise)
  | .take promise => c.withExchange (c.session.exchange.take promise).2
  | .await task promise => c.withExchange (c.session.exchange.await task promise).2
  | .hold => { c with session := c.session.hold }
  | .letGo => { c with session := c.session.letGo }
  | .close closer => { c with session := (c.session.close closer).2 }
  | .useResultSets catalog readerParked roused =>
    c.withExchange { c.session.exchange with catalog, readerParked, roused }
  | .turn => c.turn
  | .takeMail => c.takeMail
  | .routeNext => if c.session.phase = .running then c.route 1 else c
  | .flush => if c.session.phase = .running then c.flush else c
  | .farEnd step =>
    if step.isQuiet then
      { c with
        session := c.session.farEnd (step.play c.session.link).2.2 (step.play c.session.link).2.1 }
    else c
  | .receive => c.receive
  | .answer number kind payload => c.answer number kind payload
  | .announce r =>
    if r.kind = .payload ∨ r.kind = .bodyHead then c else (c.reply? r).getD c
  | .transmit n size =>
    let (outgoing, link) := c.session.link.transmit c.outgoing n size
    { c with session := c.session.farEnd link true, outgoing }

/-- Any number of steps. -/
def run (c : Conversation) (actions : List Action) : Conversation :=
  actions.foldl step c

end Conversation

/-! ## Opening -/

/-- A link on which a session may start: the client holds it, and nothing on it concerns requests
to services. -/
structure Opening where
  link : Link
  requests : List Request := []
  undecoded : Bytes := []
  replies : List Reply := []
  outgoing : Bytes := []
  kept : link.isReleased = false
  carries : link.Carries undecoded requests
  brings : link.Brings outgoing replies
  noRequest : ∀ r ∈ requests, r.kind ≠ .payload
  noReply : ∀ r ∈ replies, r.kind ≠ .payload ∧ r.kind ≠ .bodyHead

namespace Opening

/-- A new byte stream, whatever becomes of reading and writing. -/
def ofStream (ending : Option Ending) (accepts : Nat → List Accept)
    (onFlush onShutdown : Finish) : Opening where
  link := .stream { ending, accepts, onFlush, onShutdown }
  kept := rfl
  carries := ⟨by simp, rfl⟩
  brings := ⟨by simp, rfl⟩
  noRequest := by simp
  noReply := by simp

/-- A new link in process. -/
def inProcess (capacity : Nat) : Opening where
  link := .inProcess { capacity }
  kept := rfl
  carries := ⟨by simp, fun _ => rfl⟩
  brings := rfl
  noRequest := by simp
  noReply := by simp

end Opening

/-- The conversation of a new session. -/
def Conversation.start (settings : Settings) (o : Opening) (id : UInt64) : Conversation where
  session := .start settings o.link id
  carried := o.requests.map fun frame => ⟨frame, none⟩
  undecoded := o.undecoded
  outgoing := o.outgoing

end QueryLink
