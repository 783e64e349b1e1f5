import QueryLink.Promise

/-! # Feeds

The records of one result set reach its consumer through a feed: a queue of events and the count
of records in it that the consumer has not taken. A feed whose count has reached the limit is
full; the session then stops reading. -/

namespace QueryLink

/-- The number of a feed. -/
abbrev FeedId := Nat

namespace Feed

/-- What a consumer learns. -/
inductive Event where
  | record (bytes : Bytes)
  /-- The result set ended. -/
  | endOfRecords
  /-- The session ended before the result set did. -/
  | cutOff (outage : Outage)
  deriving Repr, DecidableEq

/-- Whether an event is a record. -/
def Event.isRecord : Event → Bool
  | record _ => true
  | _ => false

end Feed

/-- The events of one result set. -/
structure Feed where
  /-- What the consumer has not taken, oldest first. -/
  queue : List Feed.Event := []
  /-- How many records the consumer has not taken. -/
  count : Nat := 0
  /-- Whether somebody takes the events or still may come to. -/
  isOpen : Bool := true
  deriving Repr, DecidableEq

namespace Feed

/-- Adds an event. It is lost when nobody will take it, but a record counts all the same. -/
def deliver (f : Feed) (e : Event) : Feed :=
  { f with
    queue := if f.isOpen then f.queue ++ [e] else f.queue
    count := if e.isRecord then f.count + 1 else f.count }

/-- Whether the consumer is a whole backlog behind. -/
def isFull (limit : Nat) (f : Feed) : Bool :=
  limit ≤ f.count

/-- Takes the oldest event. -/
def take (f : Feed) : Option Event × Feed :=
  match f.queue with
  | [] => (none, f)
  | e :: queue => (some e, { f with queue, count := if e.isRecord then f.count - 1 else f.count })

/-- The consumer goes away. -/
def close (f : Feed) : Feed :=
  { f with queue := [], isOpen := false }

end Feed

end QueryLink
