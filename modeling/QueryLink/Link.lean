import QueryLink.Link.Local
import QueryLink.Link.Stream

/-! # Links

A link carries requests to a server and replies back. All operations answer at once; `none`
means that there is no result yet. -/

namespace QueryLink

/-- A link of either kind. -/
inductive Link where
  | stream (l : StreamLink)
  | inProcess (l : LocalLink)

namespace Link

/-- Puts a request into the outbox. -/
def send (l : Link) (r : Request) : Link :=
  match l with
  | stream l => stream (l.send r)
  | inProcess l => inProcess (l.send r)

/-- Puts requests into the outbox. -/
def sendAll (l : Link) (rs : List Request) : Link :=
  rs.foldl send l

/-- Hands the outbox to the far end. -/
def flush (l : Link) : Option (Except LinkError Unit) × Link :=
  match l with
  | stream l => let (result, l) := l.flush; (result, stream l)
  | inProcess l => let (result, l) := l.flush; (some result, inProcess l)

/-- Hands the outbox to the far end and ends the client's direction. -/
def shutdown (l : Link) : Option (Except LinkError Unit) × Link :=
  match l with
  | stream l => let (result, l) := l.shutdown; (result, stream l)
  | inProcess l => let (result, l) := l.shutdown; (some result, inProcess l)

/-- Receives the next reply, `some (.ok none)` once the server ended the link. -/
def receive (l : Link) : Option (Except Cause (Option Reply)) × Link :=
  match l with
  | stream l => let (answer, l) := l.receive; (answer, stream l)
  | inProcess l => let (answer, l) := l.receive; (answer.map .ok, inProcess l)

/-- No fewer than the replies that can still be received without the server's help. -/
def backlog : Link → Nat
  | stream l => l.backlog
  | inProcess l => l.replies.length

/-- The client lets go of the link. -/
def release : Link → Link
  | stream l => stream { l with released := true }
  | inProcess l => inProcess l.release

/-- Whether the client let go of the link. -/
def isReleased : Link → Bool
  | stream l => l.released
  | inProcess l => l.released

end Link

end QueryLink
