import QueryLink.Session.BoxTable

/-! # Waiting requests

Requests that find every response box owned wait in line, up to a limit. A request all of whose
promises were abandoned meanwhile is not worth sending: it is passed over when the next one is
taken, and makes room when the line is full. -/

namespace QueryLink

/-- A request that waits for a response box. -/
structure WaitingRequest where
  payload : Bytes
  receivers : Receivers
  deriving Repr, DecidableEq

/-- The requests that wait, oldest first. -/
structure Waitlist where
  line : List WaitingRequest
  limit : Nat
  deriving Repr, DecidableEq

namespace Waitlist

/-- An empty line. -/
def ofLimit (limit : Nat) : Waitlist := ⟨[], limit⟩

/-- How many requests wait. -/
def length (w : Waitlist) : Nat := w.line.length

/-- The same line without abandoned requests. -/
def purge (abandoned : Receivers → Bool) (w : Waitlist) : Waitlist :=
  { w with line := w.line.filter fun r => !abandoned r.receivers }

/-- Puts a request at the end of the line and says whether there was room. Abandoned requests
leave only when the line is full. -/
def push (abandoned : Receivers → Bool) (w : Waitlist) (r : WaitingRequest) : Bool × Waitlist :=
  let w := if w.limit ≤ w.length then w.purge abandoned else w
  if w.limit ≤ w.length then (false, w) else (true, { w with line := w.line ++ [r] })

/-- Puts a request back to the front of the line. -/
def pushFront (w : Waitlist) (r : WaitingRequest) : Waitlist :=
  { w with line := r :: w.line }

/-- Takes the oldest request that somebody still waits for; abandoned ones before it are lost. -/
def pop (abandoned : Receivers → Bool) (w : Waitlist) : Option WaitingRequest × Waitlist :=
  match w.line.dropWhile fun r => abandoned r.receivers with
  | [] => (none, { w with line := [] })
  | r :: line => (some r, { w with line })

/-- Empties the line. The answer is the promises of the requests that waited. -/
def clear (w : Waitlist) : List PromiseId × Waitlist :=
  (w.line.flatMap fun r => r.receivers.promises, { w with line := [] })

end Waitlist

end QueryLink
