import QueryLink.ResultSet.Cursor
import QueryLink.Script.FarEnd
import QueryLink.Session
import QueryLink.Value.Decode

/-! # Scripts for a session

A script drives a session step by step: what callers do, what the far end does, and in which
steps the pump and the waiting tasks get to run. There is one thread. Whoever is roused joins
the end of one queue, unless he is in it, and `Stage.settle` runs the queue until it is empty.

`Script.run` plays a whole script and reports what a caller and the far end see of it. -/

namespace QueryLink.Script

/-- How a response is read. -/
inductive Reading where
  | raw
  | unsigned
  | length
  | text
  | value
  /-- Fails whatever came. -/
  | refusal
  deriving Repr, DecidableEq

/-- What a payload reads as. -/
def Reading.apply (reading : Reading) (payload : Bytes) : Outcome :=
  match reading with
  | raw => .bytes payload
  | unsigned => .ofResult .value .wide (Reader.unsigned payload).1
  | length => .number payload.length
  | text => .ofResult (fun fault => .value (.utf8 fault)) .text (Utf8.decode payload)
  | value =>
    .ofResult .value (fun v => v.elim .nothing .value) (Reader.value payload).1
  | refusal => .failed ((Error.mk .backpressure "").withContext "distill")

/-- A response that a caller holds. -/
structure Ticket where
  promise : PromiseId
  reading : Reading
  deriving Repr, DecidableEq

/-- The outcome of asking for a response. -/
def Ticket.outcome (t : Ticket) : Option (Except Cause Bytes) → Outcome :=
  .ofPoll id t.reading.apply

/-- A task that a step started. -/
inductive Task where
  /-- Waits for a response. -/
  | await (label : String) (ticket : Ticket)
  /-- Closes the session; the flag says whether it has asked for it. -/
  | close (label : String) (asked : Bool)
  deriving Repr, DecidableEq

/-- Something a step does with a cursor. -/
inductive CursorStep where
  | connect (name : String)
  | next
  | nextItem
  | read (n : Nat)
  | readToEnd
  | close
  deriving Repr, DecidableEq

/-- One step of a script. -/
inductive Step where
  | nothing
  | farEnd (step : FarEnd)
  | send (id : String) (service : UInt64) (payload : Bytes) (reading : Reading)
  /-- The responses are called `id.head` and `id.body`. -/
  | query (id : String) (service : UInt64) (payload : Bytes)
  | get (id : String)
  /-- Ask for a response and wait for it that many milliseconds at most. -/
  | getInTime (id : String) (patience : Nat)
  | isDone (id : String)
  | closeResponse (id : String)
  | dropResponse (id : String)
  | await (id label : String)
  | clone
  | drop
  | close (label : String)
  | sessionId
  | newCursor (id : String)
  | dropCursor (id : String)
  | cursor (id : String) (step : CursorStep)

/-- What came of a step at a cursor, and how it left the cursor. -/
structure CursorReport where
  outcome : Outcome
  /-- What was read to the end, where that was asked for. -/
  read : Option Bytes
  state : Cursor.State
  name : Option String

/-- What came of a step. -/
inductive StepOutcome where
  | plain (o : Outcome)
  | cursor (r : CursorReport)

/-- What is seen of a step once it is over. -/
structure Report where
  outcome : StepOutcome
  /-- Boxes in use and requests waiting, as long as somebody holds the session. -/
  flight : Option (Nat × Nat)
  closed : Option Bool
  sights : List Sight
  /-- The tasks that ended, by label. -/
  events : List (String × Outcome)

/-- A session with all that a script has started on it. -/
structure Stage where
  session : Session
  observer : Observer := {}
  /-- How many handles of the session there are. -/
  handles : Nat := 1
  responses : Dict String Ticket := .empty
  cursors : Dict String Cursor := .empty
  tasks : Dict TaskId Task := .empty
  nextTask : TaskId := 0
  queue : List Runner := []
  events : List (String × Outcome) := []

namespace Stage

/-! ## The queue -/

/-- Puts somebody at the end of the queue unless he is in it. -/
def enqueue (g : Stage) (r : Runner) : Stage :=
  if r ∈ g.queue then g else { g with queue := g.queue ++ [r] }

/-- Puts everybody who was roused into the queue. -/
def collect (g : Stage) : Stage :=
  let roused := g.session.exchange.roused
  roused.foldl enqueue
    { g with session := { g.session with exchange := { g.session.exchange with roused := [] } } }

/-- The same stage with another exchange. -/
def withExchange (g : Stage) (x : Exchange) : Stage :=
  { g with session := { g.session with exchange := x } }

/-- Whether anybody holds a response. -/
def isHeld (g : Stage) (promise : PromiseId) : Bool :=
  g.responses.values.any (·.promise == promise) ||
    g.tasks.values.any fun
      | .await _ t => t.promise == promise
      | .close _ _ => false

/-- Drops a response, unless somebody still holds it. -/
def release (g : Stage) (t : Ticket) : Stage :=
  if g.isHeld t.promise then g
  else
    let x := g.session.exchange.settle .close t.promise
    { g with session := { g.session with exchange := x }.letGo }

/-- A task ends. -/
def endTask (g : Stage) (id : TaskId) (label : String) (o : Outcome) : Stage :=
  { g with tasks := g.tasks.erase id, events := g.events ++ [(label, o)] }

/-- A task that closes the session ends. -/
def endClose (g : Stage) (id : TaskId) (label : String) (r : Except LinkError Unit) : Stage :=
  let g := g.endTask id label (.ofResult .link (fun _ => .done) r)
  { g with session := g.session.letGo }

/-- Lets a task run until it has to wait or ends. -/
def runTask (g : Stage) (id : TaskId) : Stage :=
  match g.tasks.get? id with
  | none => g
  | some (.await label t) =>
    match g.session.exchange.await id t.promise with
    | (none, x) => g.withExchange x
    | (some answer, x) =>
      ((g.withExchange x).endTask id label (t.outcome (some answer))).release t
  | some (.close label false) =>
    match g.session.close id with
    | (some r, session) => { g with session }.endClose id label r
    | (none, session) => { g with session, tasks := g.tasks.insert id (.close label true) }
  | some (.close label true) =>
    match g.session.closeResult? id with
    | some r => g.endClose id label r
    | none => g

/-- Lets somebody run. -/
def runOne (g : Stage) : Runner → Stage
  | .pump => { g with session := g.session.turn }
  | .task id => g.runTask id

/-- Runs the queue until it is empty, but no more than `fuel` of it. -/
def settleFuel : (fuel : Nat) → Stage → Stage
  | 0, g => g
  | fuel + 1, g =>
    match g.queue with
    | [] => g
    | r :: queue => settleFuel fuel ({ g with queue }.runOne r).collect

/-- Runs the queue until it is empty. A task runs once to start and once for what it waits for,
and the pump may have to run after each of them. -/
def settle (g : Stage) : Stage :=
  let g := g.collect
  settleFuel (g.queue.length + 4 * g.tasks.pairs.length + 4) g

/-! ## Steps -/

/-- Puts a response under a name; one that had the name is dropped. -/
def store (g : Stage) (id : String) (t : Ticket) : Stage :=
  let old := g.responses.get? id
  let g := { g with responses := g.responses.insert id t, session := g.session.hold }
  match old with
  | some t => g.release t
  | none => g

/-- Starts a task. -/
def spawn (g : Stage) (t : Task) : Stage :=
  { g with tasks := g.tasks.insert g.nextTask t, nextTask := g.nextTask + 1 }.enqueue
    (.task g.nextTask)

/-- Does something with a handle of the session. -/
def withHandle (g : Stage) (f : Stage → Outcome × Stage) : Outcome × Stage :=
  if g.handles = 0 then (.refused .noHandle, g) else f g

/-- Does something with a response. -/
def withTicket (g : Stage) (id : String) (f : Ticket → Outcome × Stage) : Outcome × Stage :=
  match g.responses.get? id with
  | none => (.refused .noResponse, g)
  | some t => f t

/-- Asks for a response without waiting. -/
def poll (g : Stage) (t : Ticket) : Option (Except Cause Bytes) × Stage :=
  let (answer, x) := g.session.exchange.take t.promise
  (answer, g.withExchange x)

/-- Sends a request and puts its responses under their names. -/
def submit (g : Stage) (ask : Exchange.Ask) (service : UInt64) (payload : Bytes)
    (keep : Receivers → Stage → Stage) : Outcome × Stage :=
  g.withHandle fun g =>
    match g.session.submit ask service payload with
    | (.error e, session) => (.failed ⟨e, ""⟩, { g with session })
    | (.ok receivers, session) => (.done, keep receivers { g with session })

/-- Closes a cursor and lets go of the session. -/
def retire (g : Stage) (c : Cursor) : Stage :=
  let (_, x) := c.close g.session.exchange
  { g with session := { g.session with exchange := x }.letGo }

/-- Does a step at a cursor. -/
def playCursor (c : Cursor) (x : Exchange) :
    CursorStep → Outcome × Option Bytes × Cursor × Exchange
  | .connect name =>
    let (r, c, x) := c.connect x name
    (.ofResult id (fun _ => .done) r, none, c, x)
  | .next =>
    let (r, c, x) := c.next x
    (.ofPoll id (fun b => b.elim .nothing .bytes) r, none, c, x)
  | .nextItem =>
    match c.nextItem x with
    | (none, c, x) => (.pending, none, c, x)
    | (some none, c, x) => (.ended, none, c, x)
    | (some (some r), c, x) => (.ofResult id .bytes r, none, c, x)
  | .read n =>
    let (r, c, x) := c.read x n
    (.ofPoll id .bytes r, none, c, x)
  | .readToEnd =>
    let (bytes, r, c, x) := c.readToEnd x
    (.ofPoll id (fun _ => .number bytes.length) r, some bytes, c, x)
  | .close =>
    let (c, x) := c.close x
    (.done, none, c, x)

/-- Does a step that is not done at a cursor. -/
def playPlain (g : Stage) : Step → Outcome × Stage
  | .nothing => (.done, g)
  | .farEnd step =>
    let (o, noticed, link) := step.play g.session.link
    (o, { g with session := g.session.farEnd link noticed })
  | .send id service payload reading =>
    g.submit .statement service payload fun
      | .statement reply, g => g.store id ⟨reply, reading⟩
      | .query _ _, g => g
  | .query id service payload =>
    g.submit .query service payload fun
      | .query head body, g =>
        (g.store (id ++ ".head") ⟨head, .raw⟩).store (id ++ ".body") ⟨body, .raw⟩
      | .statement _, g => g
  | .get id =>
    g.withTicket id fun t =>
      let (answer, g) := g.poll t
      (t.outcome answer, g)
  | .getInTime id patience =>
    g.withTicket id fun t =>
      match g.poll t with
      | (some answer, g) => (t.outcome (some answer), g)
      | (none, g) =>
        -- a deadline that is over at once lets nobody else run
        match (if patience = 0 then g else g.settle).poll t with
        | (some answer, g) => (t.outcome (some answer), g)
        | (none, g) => (.failed ⟨.timedOut, ""⟩, g)
  | .isDone id =>
    g.withTicket id fun t => (.flag (g.session.exchange.promiseState t.promise).isDone, g)
  | .closeResponse id =>
    g.withTicket id fun t =>
      (.done, g.withExchange (g.session.exchange.settle .close t.promise))
  | .dropResponse id =>
    g.withTicket id fun t => (.done, { g with responses := g.responses.erase id }.release t)
  | .await id label =>
    g.withTicket id fun t => (.done, g.spawn (.await label t))
  | .clone =>
    g.withHandle fun g =>
      (.done, { g with handles := g.handles + 1, session := g.session.hold })
  | .drop =>
    g.withHandle fun g =>
      (.done, { g with handles := g.handles - 1, session := g.session.letGo })
  | .close label =>
    g.withHandle fun g => (.done, { g with session := g.session.hold }.spawn (.close label false))
  | .sessionId => g.withHandle fun g => (.wide g.session.id, g)
  | .newCursor id =>
    g.withHandle fun g =>
      let old := g.cursors.get? id
      let g := { g with cursors := g.cursors.insert id {}, session := g.session.hold }
      (.done, old.elim g g.retire)
  | .dropCursor id =>
    match g.cursors.get? id with
    | none => (.refused .noResultSet, g)
    | some c => (.done, { g with cursors := g.cursors.erase id }.retire c)
  | .cursor _ _ => (.done, g)

/-- Does a step. -/
def play (g : Stage) (step : Step) : StepOutcome × Stage :=
  match step with
  | .cursor id step =>
    match g.cursors.get? id with
    | none => (.plain (.refused .noResultSet), g)
    | some c =>
      let (outcome, read, c, x) := playCursor c g.session.exchange step
      (.cursor ⟨outcome, read, c.state, c.name⟩,
        { g.withExchange x with cursors := g.cursors.insert id c })
  | step => let (o, g) := g.playPlain step; (.plain o, g)

/-- What the far end has seen since it was last asked. -/
def look (g : Stage) : List Sight × Stage :=
  let (sights, observer, link) := g.observer.look g.session.link
  (sights, { g with observer, session := { g.session with link } })

/-- Does a step, lets everybody run unless they are held back, and reports. -/
def playAndReport (g : Stage) (step : Step) (held : Bool) : Report × Stage :=
  let (outcome, g) := g.play step
  let g := if held then g.collect else g.settle
  let (sights, g) := g.look
  let x := g.session.exchange
  let held := g.handles ≠ 0
  (⟨outcome,
    if held then some (x.boxes.inUse, x.waitlist.length) else none,
    if held then some x.closed else none,
    sights,
    g.events.mergeSort fun a b => a.1 ≤ b.1⟩,
    { g with events := [] })

/-- Plays the steps of a script. Each one says whether everybody else is held back. -/
def playAll : List (Step × Bool) → Stage → List Report
  | [], _ => []
  | (step, held) :: steps, g =>
    let (report, g) := g.playAndReport step held
    report :: playAll steps g

end Stage

/-! ## Whole scripts -/

/-- What is seen of a whole script. -/
structure Transcript where
  /-- What the far end did before the session was opened. -/
  before : List Outcome
  /-- The session number, or why there is no session. -/
  opened : Outcome
  /-- What the far end saw until the session was open. -/
  sights : List Sight
  /-- The steps, if there is a session. -/
  steps : Option (List Report)

/-- Plays steps of the far end. -/
def playBefore : List FarEnd → Link → List Outcome × Link
  | [], l => ([], l)
  | step :: steps, l =>
    let (o, _, l) := step.play l
    let (os, l) := playBefore steps l
    (o :: os, l)

/-- Plays a script: first steps of the far end, then opening with or without a handshake, then
the steps of the script. A link on which no session comes about is let go. -/
def run (settings : Settings) (link : Link) (before : List FarEnd) (greets : Bool)
    (steps : List (Step × Bool)) : Transcript :=
  let (before, link) := playBefore before link
  let (opened, link) := if greets then Session.handshake settings link else (some (.ok 0), link)
  match opened with
  | some (.ok id) =>
    let (sights, g) := ({ session := .start settings link id } : Stage).settle.look
    ⟨before, .wide id, sights, some (g.playAll steps)⟩
  | _ =>
    let (sights, _, _) := ({} : Observer).look link.release
    ⟨before, .ofPoll id .wide opened, sights, none⟩

end QueryLink.Script
