import QueryLink.Error

/-! # Promises of a reply

A `Promise` is what a caller holds for a reply that has not come yet. It is completed or failed
at most once by the session, and its payload is taken at most once by the caller, who may close
it at any time. Tasks that find it pending are parked on it, and leaving the pending state rouses
all of them. -/

namespace QueryLink

/-- The number of a promise. -/
abbrev PromiseId := Nat

/-- The number of a task that waits for something. -/
abbrev TaskId := Nat

/-- Why everything in flight was failed. -/
inductive Outage where
  /-- The session was closed. -/
  | closed
  /-- The server went away. -/
  | crashed
  deriving Repr, DecidableEq

/-- The cause that callers see. -/
def Outage.cause : Outage → Cause
  | closed => .alreadyClosed
  | crashed => .serverCrashed

namespace Promise

/-- How far a promise got. -/
inductive State where
  | pending
  | ready (payload : Bytes)
  | consumed
  | failed (outage : Outage)
  | closed
  deriving Repr, DecidableEq

namespace State

/-- A reply came. It is lost unless the promise is pending. -/
def complete (payload : Bytes) : State → State
  | pending => ready payload
  | s => s

/-- The session ended. -/
def fail (outage : Outage) : State → State
  | pending => failed outage
  | s => s

/-- The caller lost interest. A failure stays visible. -/
def close : State → State
  | failed outage => failed outage
  | _ => closed

/-- What a caller who asks for the payload gets, `none` for nothing yet, and the state after. -/
def take : State → Option (Except Cause Bytes) × State
  | pending => (none, pending)
  | ready payload => (some (.ok payload), consumed)
  | failed outage => (some (.error outage.cause), failed outage)
  | consumed => (some (.error .alreadyClosed), consumed)
  | closed => (some (.error .alreadyClosed), closed)

/-- Whether the reply came or never will. -/
def isDone : State → Bool
  | pending => false
  | _ => true

/-- Whether nobody will ever take the payload. -/
def isAbandoned : State → Bool
  | consumed => true
  | closed => true
  | _ => false

end State

end Promise

/-- A promise and the tasks parked on it, oldest first. -/
structure Promise where
  state : Promise.State := .pending
  parked : List TaskId := []
  deriving Repr, DecidableEq

namespace Promise

/-- Changes the state and rouses everybody who is parked. -/
def settle (f : State → State) (p : Promise) : Promise × List TaskId :=
  (⟨f p.state, []⟩, p.parked)

/-- Asks for the payload without waiting. -/
def take (p : Promise) : Option (Except Cause Bytes) × Promise :=
  let (answer, state) := p.state.take
  (answer, { p with state })

/-- Asks for the payload on behalf of a task, which is parked when there is none yet. -/
def await (task : TaskId) (p : Promise) : Option (Except Cause Bytes) × Promise :=
  match p.take with
  | (some answer, p) => (some answer, p)
  | (none, p) => (none, { p with parked := p.parked ++ [task] })

end Promise

end QueryLink
