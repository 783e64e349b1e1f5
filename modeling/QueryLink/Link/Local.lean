import QueryLink.Error

/-! # An in-process link

Client and server share two queues of whole frames: one without bound for requests, and one of
a fixed capacity for replies. The server's side is an endpoint, which takes requests and sends
replies, and a responder, which only sends. A queue ends for its reader once all who write to
it are gone and it is empty. -/

namespace QueryLink

/-- Both ends of an in-process link. -/
structure LocalLink where
  /-- How many replies the server may be ahead. -/
  capacity : Nat
  /-- Requests not yet flushed. -/
  outbox : List Request := []
  /-- Flushed requests the server has not taken. -/
  requests : List Request := []
  /-- Replies the client has not taken. -/
  replies : List Reply := []
  /-- Whether the client may still send: it has neither shut the link down nor let go of it. -/
  sending : Bool := true
  /-- Whether the client let go of the link. -/
  released : Bool := false
  endpoint : Bool := true
  responder : Bool := true
  deriving Repr, DecidableEq

/-- What becomes of a reply. -/
inductive Delivery where
  | delivered
  | full
  /-- The client is gone. -/
  | broken
  /-- There is nobody left on the server's side to send it. -/
  | gone
  deriving Repr, DecidableEq

namespace LocalLink

/-- The capacity of a link for which none is asked. -/
def defaultCapacity : Nat := 64

/-- A new link; there is none without room for a reply. -/
def ofCapacity? (capacity : Option Nat) : Option LocalLink :=
  let capacity := capacity.getD defaultCapacity
  if capacity = 0 then none else some { capacity }

/-- Puts a request into the outbox. -/
def send (l : LocalLink) (r : Request) : LocalLink :=
  { l with outbox := l.outbox ++ [r] }

/-- Hands the outbox to the server. When the endpoint is gone the outbox is lost. -/
def flush (l : LocalLink) : Except LinkError Unit × LocalLink :=
  if l.outbox = [] then (.ok (), l)
  else if !l.sending then (.error .brokenPipe, l)
  else if l.endpoint then
    (.ok (), { l with outbox := [], requests := l.requests ++ l.outbox })
  else (.error .brokenPipe, { l with outbox := [] })

/-- Flushes and stops sending, whatever the flush gave. -/
def shutdown (l : LocalLink) : Except LinkError Unit × LocalLink :=
  let (result, l) := l.flush
  (result, { l with sending := false })

/-- Takes the next reply: `none` when it has not come yet, `some none` when none will come. -/
def receive (l : LocalLink) : Option (Option Reply) × LocalLink :=
  match l.replies with
  | r :: replies => (some (some r), { l with replies })
  | [] => (if l.endpoint || l.responder then none else some none, l)

/-- The server sends a reply. -/
def reply (l : LocalLink) (r : Reply) : Delivery × LocalLink :=
  if !l.endpoint && !l.responder then (.gone, l)
  else if l.released then (.broken, l)
  else if l.capacity ≤ l.replies.length then (.full, l)
  else (.delivered, { l with replies := l.replies ++ [r] })

/-- The server takes the next request: `none` when it has not come yet, `some none` when none
will come. -/
def takeRequest (l : LocalLink) : Option (Option Request) × LocalLink :=
  match l.requests with
  | r :: requests => (some (some r), { l with requests })
  | [] => (if l.sending then none else some none, l)

/-- The client lets go of the link; what it had not flushed is lost. -/
def release (l : LocalLink) : LocalLink :=
  { l with outbox := [], replies := [], sending := false, released := true }

/-- The endpoint goes away with the requests it had not taken. -/
def dropEndpoint (l : LocalLink) : LocalLink :=
  { l with requests := [], endpoint := false }

/-- The responder goes away. -/
def dropResponder (l : LocalLink) : LocalLink :=
  { l with responder := false }

end LocalLink

end QueryLink
