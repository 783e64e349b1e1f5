import QueryLink.Link
import QueryLink.Session.Exchange
import QueryLink.Varint

/-! # Sessions

A session is an exchange, a link, and between them the pump, the only one who touches the link.
Callers reach the pump through a mailbox. In one `turn` the pump puts mailed requests into the
link's outbox, routes replies until there are none or a feed is full, and flushes; or, once it is
told to close or nobody holds the session any more, it shuts the link down.

Everything a caller does, everything the far end does and each turn of the pump is one step from
state to state. -/

namespace QueryLink

/-- What callers mail to the pump. -/
inductive Mail where
  | request (r : Request)
  /-- Close the link and tell that task how it went. -/
  | close (closer : TaskId)
  deriving Repr, DecidableEq

/-- How far the pump got. -/
inductive Phase where
  | running
  /-- The link is being shut down; if a task asked for it, it will be told. -/
  | closing (closer : Option TaskId)
  | finished
  deriving Repr, DecidableEq

/-- A session. -/
structure Session where
  /-- The number the server gave the session. -/
  id : UInt64
  exchange : Exchange
  mailbox : List Mail := []
  /-- How many handles, responses, cursors and tasks hold the session open. -/
  holders : Nat := 1
  phase : Phase := .running
  link : Link
  /-- Whether the pump waits for the far end to do something. -/
  linkWatched : Bool := false
  /-- How closing went, for the tasks that asked for it. -/
  closeResults : List (TaskId × Except LinkError Unit) := []

namespace Session

/-! ## Opening -/

/-- A new session over a link; its pump has to run. -/
def start (settings : Settings) (link : Link) (id : UInt64) : Session where
  id := id
  exchange := (Exchange.ofSettings settings).rouse .pump
  link := link

/-- Reads the session number out of the server's greeting. -/
def greeting (r : Reply) : Except Cause UInt64 :=
  match r.kind with
  | .helloOk =>
    match Varint.decode? r.payload with
    | some (id, _) => .ok id
    | none => .error (.value .brokenEncoding)
  | .helloNg => .error (.protocol (.refused (printable r.payload)))
  | found => .error (.protocol (.unexpected found "handshake"))

/-- Introduces the client to the server: `none` while there is no answer. -/
def handshake (settings : Settings) (link : Link) : Option (Except Cause UInt64) × Link :=
  match (link.send ⟨.hello, 0, Utf8.encode settings.label⟩).flush with
  | (none, link) => (none, link)
  | (some (.error e), link) => (some (.error (.link e)), link)
  | (some (.ok ()), link) =>
    match link.receive with
    | (none, link) => (none, link)
    | (some (.error e), link) => (some (.error e), link)
    | (some (.ok none), link) => (some (.error .serverCrashed), link)
    | (some (.ok (some reply)), link) => (some (greeting reply), link)

/-! ## What callers do -/

/-- The pump has to run again, unless it is done. -/
def rousePump (s : Session) : Session :=
  match s.phase with
  | .finished => s
  | _ => { s with exchange := s.exchange.rouse .pump }

/-- One more holds the session. -/
def hold (s : Session) : Session :=
  { s with holders := s.holders + 1 }

/-- One less holds the session. The pump learns when it was the last one. -/
def letGo (s : Session) : Session :=
  let s := { s with holders := s.holders - 1 }
  if s.holders = 0 then s.rousePump else s

/-- The payload of a request to a service: the number of the service and of the session, and
what the caller wants to say. -/
def envelope (s : Session) (service : UInt64) (payload : Bytes) : Except Cause Bytes :=
  let header := Varint.encode service ++ Varint.encode s.id
  if maxPayload < header.length + payload.length then .error (.misuse .requestTooLarge)
  else .ok (header ++ payload)

/-- Mails something to the pump. -/
def mail (s : Session) (m : Mail) : Session :=
  { s with mailbox := s.mailbox ++ [m] }.rousePump

/-- Sends a request to a service. The answer is the promises of its replies.

There is no case for a pump that is gone. A pump goes when it is done, it has closed the exchange
before that, and this is looked at first and mailed under the same lock, so mail can not come too
late (`Usage.closed_of_finished`, `Usage.mail_in_time`). -/
def submit (s : Session) (ask : Exchange.Ask) (service : UInt64) (payload : Bytes) :
    Except Cause Receivers × Session :=
  match s.envelope service payload with
  | .error e => (.error e, s)
  | .ok bytes =>
    match s.exchange.submit ask bytes with
    | (.error e, exchange) => (.error e, { s with exchange })
    | (.ok accepted, exchange) =>
      let s := { s with exchange }
      (.ok accepted.receivers,
        match accepted.frame with
        | some frame => s.mail (.request frame)
        | none => s)

/-- A task closes the session: all in flight fails at once. Without an answer the task is roused
when the link is shut down.

The pump is not done while the exchange is open (`Usage.mail_in_time`). It may break before it has
read this mail, and whether it drops the mail unread or is gone when the mail comes is the same to
the task: the session is closed, and nobody tells how it went. -/
def close (s : Session) (closer : TaskId) : Option (Except LinkError Unit) × Session :=
  if s.exchange.closed then (some (.ok ()), s)
  else (none, { s with exchange := s.exchange.shutdown .closed }.mail (.close closer))

/-- How closing went for a task that asked for it. -/
def closeResult? (s : Session) (closer : TaskId) : Option (Except LinkError Unit) :=
  (s.closeResults.find? fun p => p.1 = closer).map Prod.snd

/-- The far end does something to the link; the pump learns if it waits for that. -/
def farEnd (s : Session) (link : Link) (noticed : Bool) : Session :=
  let s := { s with link }
  if noticed && s.linkWatched then { s with linkWatched := false }.rousePump else s

/-! ## The pump -/

/-- Puts mailed requests into the outbox, up to the first mail that asks to close. -/
def readMail : List Mail → Link → Option TaskId × List Mail × Link
  | [], link => (none, [], link)
  | .request r :: mails, link => readMail mails (link.send r)
  | .close closer :: mails, link => (some closer, mails, link)

/-- The pump reads its mail and learns whether it has to close. -/
def takeMail (s : Session) : Session :=
  match s.phase with
  | .running =>
    match readMail s.mailbox s.link with
    | (some closer, mailbox, link) => { s with mailbox, link, phase := .closing (some closer) }
    | (none, mailbox, link) =>
      { s with mailbox, link, phase := if s.holders = 0 then .closing none else .running }
  | _ => s

/-- The pump is done. What is still in flight fails, and the link is let go. -/
def finish (s : Session) (outage : Outage) : Session :=
  { s with
    exchange := s.exchange.shutdown outage
    mailbox := []
    phase := .finished
    link := s.link.release }

/-- The pump tries to shut the link down. -/
def closeLink (s : Session) (closer : Option TaskId) : Session :=
  match s.link.shutdown with
  | (none, link) => { s with link, linkWatched := true }
  | (some result, link) =>
    let s := { s with link }.finish .closed
    match closer with
    | none => s
    | some task =>
      { s with
        closeResults := (task, result) :: s.closeResults
        exchange := s.exchange.rouse (.task task) }

/-- The pump routes one reply. -/
def route (s : Session) (r : Reply) : Session :=
  match s.exchange.route r with
  | .error _ => s
  | .ok (frames, exchange) => { s with exchange, link := s.link.sendAll frames }

/-- The pump routes replies until there are none or a feed is full, no more than `fuel`, and
says whether the link is still good. -/
def routeAll : (fuel : Nat) → Session → Bool × Session
  | 0, s => (true, s)
  | fuel + 1, s =>
    if s.exchange.catalog.isSaturated then
      (true, { s with exchange := { s.exchange with readerParked := true } })
    else match s.link.receive with
      | (none, link) => (true, { s with link, linkWatched := true })
      | (some (.ok (some reply)), link) => routeAll fuel ({ s with link }.route reply)
      | (some (.ok none), link) => (false, { s with link })
      | (some (.error _), link) => (false, { s with link })

/-- The pump hands the outbox to the far end. -/
def flushLink (s : Session) : Session :=
  match s.link.flush with
  | (none, link) => { s with link, linkWatched := true }
  | (some (.ok ()), link) => { s with link }
  | (some (.error _), link) => { s with link }.finish .crashed

/-- One turn of the pump. -/
def turn (s : Session) : Session :=
  let s := s.takeMail
  match s.phase with
  | .finished => s
  | .closing closer => s.closeLink closer
  | .running =>
    match s.routeAll (s.link.backlog + 1) with
    | (true, s) => s.flushLink
    | (false, s) => s.finish .crashed

end Session

end QueryLink
