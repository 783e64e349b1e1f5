import QueryLink.Session.Exchange

/-! # Reading result sets

A `Cursor` reads the records of one result set. It is connected to a name and then read record
by record, by pieces of any size, or to the end; what a piece leaves of a record comes first in
whatever is read next. An answer `none` means that there is nothing to be had yet. -/

namespace QueryLink

namespace Cursor

/-- How far a cursor got. -/
inductive State where
  | created
  | connecting
  | streaming
  | endOfRecords
  | closed
  | crashed
  deriving Repr, DecidableEq

/-- The name of a state. -/
def State.name : State → String
  | created => "Created"
  | connecting => "Connecting"
  | streaming => "Streaming"
  | endOfRecords => "EndOfRecord"
  | closed => "Closed"
  | crashed => "Crashed"

end Cursor

/-- A consumer of a result set. -/
structure Cursor where
  state : Cursor.State := .created
  name : Option String := none
  feed : Option FeedId := none
  /-- What is left of the record that was read in part. -/
  current : Bytes := []
  deriving Repr, DecidableEq

namespace Cursor

/-- Asks for the result set of a name. -/
def connect (c : Cursor) (x : Exchange) (name : String) : Except Cause Unit × Cursor × Exchange :=
  if name.isEmpty then (.error (.misuse .emptyName), c, x)
  else match c.state with
    | .created =>
      if x.closed then (.error .alreadyClosed, c, x)
      else match x.catalog.connect name with
        | .error e => (.error (.misuse e), c, x)
        | .ok (feed, catalog) =>
          (.ok (), { c with state := .connecting, name := some name, feed := some feed },
            { x with catalog })
    | .closed => (.error .alreadyClosed, c, x)
    | _ => (.error (.misuse .alreadyConnected), c, x)

/-- Takes the next event of a feed. When the feed was full the pump may read on. -/
def takeEvent (x : Exchange) (feed : FeedId) : Option Feed.Event × Exchange :=
  let before := x.catalog.feed feed
  let (event, after) := before.take
  let x := { x with catalog := x.catalog.modifyFeed feed fun _ => after }
  match event with
  | some (.record _) => (event, if before.isFull x.catalog.limit then x.wakeReader else x)
  | _ => (event, x)

/-- The answer of `next` in a state where no event can come. -/
def settled? (s : State) : Option (Except Cause (Option Bytes)) :=
  match s with
  | .connecting => none
  | .streaming => none
  | .endOfRecords => some (.ok none)
  | .crashed => some (.error .serverCrashed)
  | .created => some (.error (.misuse .notConnected))
  | .closed => some (.error .alreadyClosed)

/-- Reads the next record, `some (.ok none)` once the result set is over. -/
def next (c : Cursor) (x : Exchange) : Option (Except Cause (Option Bytes)) × Cursor × Exchange :=
  if c.current ≠ [] then (some (.ok (some c.current)), { c with current := [] }, x)
  else match settled? c.state, c.feed with
    | some answer, _ => (some answer, c, x)
    | none, none => (some (.error .alreadyClosed), c, x)
    | none, some feed =>
      match takeEvent x feed with
      | (some (.record bytes), x) => (some (.ok (some bytes)), { c with state := .streaming }, x)
      | (some .endOfRecords, x) => (some (.ok none), { c with state := .endOfRecords }, x)
      | (some (.cutOff .crashed), x) =>
        (some (.error .serverCrashed), { c with state := .crashed }, x)
      | (some (.cutOff .closed), x) => (some (.error .alreadyClosed), { c with state := .closed }, x)
      | (none, x) =>
        if x.catalog.isFed feed then (none, c, x)
        else (some (.error .alreadyClosed), { c with state := .closed }, x)

/-- The next item of the cursor as a stream: `some none` when the stream is over. It is over for
good after the end, and after the one error that told why there is no end. -/
def nextItem (c : Cursor) (x : Exchange) :
    Option (Option (Except Cause Bytes)) × Cursor × Exchange :=
  let settled := c.state = .endOfRecords ∨ c.state = .closed ∨ c.state = .crashed
  if settled ∧ c.current = [] then (some none, c, x)
  else match c.next x with
    | (none, c, x) => (none, c, x)
    | (some (.ok none), c, x) => (some none, c, x)
    | (some (.ok (some bytes)), c, x) => (some (some (.ok bytes)), c, x)
    | (some (.error e), c, x) => (some (some (.error e)), c, x)

/-- Looks for a record that is not empty, through at most `fuel` records. -/
def fill : (fuel : Nat) → Cursor → Exchange →
    Option (Except Cause (Option Bytes)) × Cursor × Exchange
  | 0, c, x => (none, c, x)
  | fuel + 1, c, x =>
    match c.next x with
    | (some (.ok (some [])), c, x) => fill fuel c x
    | answer => answer

/-- More than the records that can be read without the server's help. -/
def backlog (c : Cursor) (x : Exchange) : Nat :=
  match c.feed with
  | some feed => (x.catalog.feed feed).queue.length + 2
  | none => 2

/-- Reads at most `n` bytes. No bytes mean that the result set is over, if `n` is not zero. -/
def read (c : Cursor) (x : Exchange) (n : Nat) : Option (Except Cause Bytes) × Cursor × Exchange :=
  if n = 0 then (some (.ok []), c, x)
  else match fill (c.backlog x) c x with
    | (none, c, x) => (none, c, x)
    | (some (.error e), c, x) => (some (.error e), c, x)
    | (some (.ok none), c, x) => (some (.ok []), c, x)
    | (some (.ok (some record)), c, x) =>
      (some (.ok (record.take n)), { c with current := record.drop n }, x)

/-- Reads records until there are no more, at most `fuel`. The answer is what was read and how
it ended. -/
def drain : (fuel : Nat) → Cursor → Exchange →
    Bytes × Option (Except Cause Unit) × Cursor × Exchange
  | 0, c, x => ([], none, c, x)
  | fuel + 1, c, x =>
    match c.next x with
    | (some (.ok (some record)), c, x) =>
      let (more, ending, c, x) := drain fuel c x
      (record ++ more, ending, c, x)
    | (some (.ok none), c, x) => ([], some (.ok ()), c, x)
    | (some (.error e), c, x) => ([], some (.error e), c, x)
    | (none, c, x) => ([], none, c, x)

/-- Reads all there is to the end. What was read before there was nothing more yet, or an error,
is read all the same. -/
def readToEnd (c : Cursor) (x : Exchange) : Bytes × Option (Except Cause Unit) × Cursor × Exchange :=
  drain (c.backlog x) c x

/-- Leaves the result set. The pump may read on, since nobody holds it up here any more. -/
def close (c : Cursor) (x : Exchange) : Cursor × Exchange :=
  match c.state with
  | .closed => (c, x)
  | _ =>
    let x := match c.feed with
      | some feed => { x with catalog := x.catalog.modifyFeed feed Feed.close }
      | none => x
    let x := match c.name with
      | some name => { x with catalog := x.catalog.disconnect name }.wakeReader
      | none => x
    ({ c with state := .closed, feed := none, current := [] }, x)

end Cursor

end QueryLink
