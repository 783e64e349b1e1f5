import QueryLink.Error

/-! # Frames on a byte stream

The client's end of a byte stream, together with the far end as the client meets it: the pieces
of bytes that are there to be read, and how writing, flushing and shutting down behave.

Requests are encoded into `outbox` and wait there until the far end accepts them; what is read
gathers in `inbox` until it holds a whole frame. An answer `none` means "not yet": nothing is
lost and the same call may be made again. -/

namespace QueryLink

/-- What becomes of one write call. -/
inductive Accept where
  /-- At most that many of the offered bytes are taken. -/
  | upTo (n : Nat)
  /-- Nothing is taken for now. -/
  | blocked
  | failed
  deriving Repr, DecidableEq

/-- What becomes of a flush or a shutdown. -/
inductive Finish where
  | succeeds
  | blocked
  | failed
  deriving Repr, DecidableEq

/-- What reading gives once no more bytes are there; without it reading waits. -/
inductive Ending where
  | endOfStream
  | reset
  deriving Repr, DecidableEq

/-- The client's end of a byte stream and what it meets at the far end. -/
structure StreamLink where
  /-- Encoded requests, not yet accepted by the far end. -/
  outbox : Bytes := []
  /-- Bytes that were read but are no whole frame yet. -/
  inbox : Bytes := []
  /-- What is there to be read, one piece for each read. -/
  pieces : List Bytes := []
  ending : Option Ending := none
  /-- The bytes the far end accepted. -/
  accepted : Bytes := []
  /-- What becomes of the write calls of one attempt, given how many bytes are to be written. -/
  accepts : Nat → List Accept := fun n => [.upTo n]
  onFlush : Finish := .succeeds
  onShutdown : Finish := .succeeds
  /-- How often the stream was shut down. -/
  shutdowns : Nat := 0
  /-- Whether the client let go of the stream. -/
  released : Bool := false

namespace StreamLink

/-- The result of a flush or a shutdown that meets `f`. -/
def finish : Finish → Option (Except LinkError Unit)
  | .succeeds => some (.ok ())
  | .blocked => none
  | .failed => some (.error .connectionReset)

/-- Writes a buffer, one write call for each entry of the plan until the buffer is empty. The
answer is what is left of the buffer and how the attempt ended. -/
def write : (plan : List Accept) → (buffer : Bytes) → Bytes × Option (Except LinkError Unit)
  | plan, buffer =>
    if buffer = [] then ([], some (.ok ()))
    else match plan with
      | [] => (buffer, none)
      | .blocked :: _ => (buffer, none)
      | .failed :: _ => (buffer, some (.error .connectionReset))
      | .upTo n :: plan =>
        if n = 0 then (buffer, some (.error .writeZero)) else write plan (buffer.drop n)

/-- Puts a request into the outbox. -/
def send (l : StreamLink) (r : Request) : StreamLink :=
  { l with outbox := l.outbox ++ r.encode }

/-- Offers the outbox to the far end, which accepts what is gone from it afterwards. -/
def writeOut (l : StreamLink) : Option (Except LinkError Unit) × StreamLink :=
  let size := l.outbox.length
  let (left, result) := write (l.accepts size) l.outbox
  let gone := if left = [] then l.outbox else l.outbox.take (size - left.length)
  (result, { l with outbox := left, accepted := l.accepted ++ gone })

/-- Writes the outbox out and then flushes the stream. -/
def flush (l : StreamLink) : Option (Except LinkError Unit) × StreamLink :=
  match l.writeOut with
  | (some (.ok ()), l) => (finish l.onFlush, l)
  | (result, l) => (result, l)

/-- Flushes and then shuts the stream down. -/
def shutdown (l : StreamLink) : Option (Except LinkError Unit) × StreamLink :=
  match l.flush with
  | (some (.ok ()), l) =>
    let l := if l.onShutdown = .succeeds then { l with shutdowns := l.shutdowns + 1 } else l
    (finish l.onShutdown, l)
  | (result, l) => (result, l)

/-- What a receive attempt did: its answer, the inbox and the pieces it left. -/
structure Received where
  answer : Option (Except Cause (Option Reply))
  inbox : Bytes
  pieces : List Bytes

/-- The answer when nothing more can be read and the inbox holds no whole frame: the stream may
only end between two frames. -/
def atEnd (inbox : Bytes) : Option Ending → Option (Except Cause (Option Reply))
  | none => none
  | some .reset => some (.error (.link .connectionReset))
  | some .endOfStream =>
    if inbox = [] then some (.ok none) else some (.error (.link .unexpectedEnd))

/-- Takes a frame from the inbox, reading piece after piece until there is one. -/
def receiveFrom (ending : Option Ending) : (pieces : List Bytes) → (inbox : Bytes) → Received
  | pieces, inbox =>
    match Reply.decode inbox with
    | .error e => ⟨some (.error (.protocol (.frame e))), inbox, pieces⟩
    | .ok (some (reply, rest)) => ⟨some (.ok (some reply)), rest, pieces⟩
    | .ok none =>
      match pieces with
      | [] => ⟨atEnd inbox ending, inbox, []⟩
      | piece :: pieces => receiveFrom ending pieces (inbox ++ piece)

/-- Receives the next frame, `some (.ok none)` once the server ended the stream. -/
def receive (l : StreamLink) : Option (Except Cause (Option Reply)) × StreamLink :=
  let r := receiveFrom l.ending l.pieces l.inbox
  (r.answer, { l with inbox := r.inbox, pieces := r.pieces })

/-- More bytes than the frames that can still be received without the server's help. -/
def backlog (l : StreamLink) : Nat :=
  l.inbox.length + l.pieces.flatten.length

/-- The same link with more bytes to be read, in reads of the given size if there is one. -/
def deliver (l : StreamLink) (bytes : Bytes) (size : Option Nat) : StreamLink :=
  let pieces := match size with
    | some n => if n = 0 then [bytes] else chunks n bytes.length bytes
    | none => [bytes]
  { l with pieces := l.pieces ++ pieces.filter (· ≠ []) }
where
  /-- Cuts bytes into at most `fuel` pieces of `n` bytes. -/
  chunks (n : Nat) : (fuel : Nat) → Bytes → List Bytes
    | 0, _ => []
    | fuel + 1, bs => if bs = [] then [] else bs.take n :: chunks n fuel (bs.drop n)

end StreamLink

end QueryLink
