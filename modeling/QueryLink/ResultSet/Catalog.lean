import QueryLink.Dict
import QueryLink.ResultSet.Feed

/-! # The catalog of result sets

The server announces a result set by a name and an index, sends pieces of its records under the
index, and says when it is over. A consumer asks for it by name, before or after the
announcement. The catalog brings the two together:

* `entries`     result sets by name, announced or asked for
* `byIndex`     the names of those that are being streamed
* `discarded`   names whose consumer left before the announcement; it is swallowed when it comes
* `unclaimed`   finished result sets nobody has asked for, oldest first; at most `maxUnclaimed`

The pieces of one writer make up a record, an empty piece ends it. -/

namespace QueryLink

namespace Catalog

/-- How many finished result sets are kept for a consumer to come. -/
def maxUnclaimed : Nat := 16

/-- A result set. -/
structure Entry where
  feed : FeedId
  /-- Whether a consumer has asked for it. -/
  claimed : Bool := false
  /-- The index it is streamed under. -/
  index : Option UInt16 := none
  /-- The record each writer is at. -/
  partials : Dict UInt8 Bytes := .empty
  finished : Bool := false

end Catalog

/-- All result sets of a session. -/
structure Catalog where
  entries : Dict String Catalog.Entry
  byIndex : Dict UInt16 String
  discarded : List String
  unclaimed : List String
  /-- The feeds of all result sets there ever were. -/
  feeds : Array Feed
  /-- How many records a feed holds when it is full. -/
  limit : Nat

namespace Catalog

/-- A catalog without result sets. -/
def ofLimit (limit : Nat) : Catalog :=
  ⟨.empty, .empty, [], [], #[], max limit 1⟩

/-- A feed; an unknown one is empty. -/
def feed (c : Catalog) (id : FeedId) : Feed :=
  c.feeds[id]?.getD {}

/-- Changes a feed. -/
def modifyFeed (c : Catalog) (id : FeedId) (f : Feed → Feed) : Catalog :=
  { c with feeds := c.feeds.modify id f }

/-- Whether a result set can still add to a feed. -/
def isFed (c : Catalog) (id : FeedId) : Bool :=
  c.entries.values.any fun e => e.feed == id

/-- The entry of a name, a new one if there is none. -/
def entry (c : Catalog) (name : String) : Entry × Catalog :=
  match c.entries.get? name with
  | some e => (e, c)
  | none =>
    let e : Entry := { feed := c.feeds.size }
    (e, { c with entries := c.entries.insert name e, feeds := c.feeds.push {} })

/-- Changes the entry of a name. -/
def setEntry (c : Catalog) (name : String) (e : Entry) : Catalog :=
  { c with entries := c.entries.insert name e }

/-- Forgets the entry of a name. -/
def eraseEntry (c : Catalog) (name : String) : Catalog :=
  { c with entries := c.entries.erase name }

/-- A consumer asks for the result set of a name and gets its feed. There is one consumer to a
result set. -/
def connect (c : Catalog) (name : String) : Except Misuse (FeedId × Catalog) :=
  let (e, c) := c.entry name
  if e.claimed then .error .nameTaken
  else
    let c :=
      if e.finished then
        { c.eraseEntry name with unclaimed := c.unclaimed.filter (· ≠ name) }
      else c.setEntry name { e with claimed := true }
    .ok (e.feed, { c with discarded := c.discarded.filter (· ≠ name) })

/-- The consumer of a name leaves. What the server still sends for it will be ignored. -/
def disconnect (c : Catalog) (name : String) : Catalog :=
  match c.entries.get? name with
  | none => c
  | some e =>
    let c := c.eraseEntry name
    match e.index with
    | some index => { c with byIndex := c.byIndex.erase index }
    | none =>
      if e.finished then c
      else { c with discarded := name :: c.discarded.filter (· ≠ name) }

/-- The server announces a result set. -/
def hello (c : Catalog) (index : UInt16) (name : String) : Catalog :=
  if name ∈ c.discarded then { c with discarded := c.discarded.filter (· ≠ name) }
  else
    let (e, c) := c.entry name
    { c.setEntry name { e with index := some index } with byIndex := c.byIndex.insert index name }

/-- The result set that is streamed under an index. -/
def streamed? (c : Catalog) (index : UInt16) : Option (String × Entry) :=
  (c.byIndex.get? index).bind fun name => (c.entries.get? name).map (name, ·)

/-- The server sends a piece of a record. -/
def piece (c : Catalog) (index : UInt16) (writer : UInt8) (bytes : Bytes) : Catalog :=
  match c.streamed? index with
  | none => c
  | some (name, e) =>
    if !(c.feed e.feed).isOpen then c
    else if bytes = [] then
      match e.partials.get? writer with
      | none => c
      | some record =>
        (c.setEntry name { e with partials := e.partials.erase writer }).modifyFeed e.feed
          (·.deliver (.record record))
    else
      let record := (e.partials.get? writer).getD [] ++ bytes
      c.setEntry name { e with partials := e.partials.insert writer record }

/-- The records that writers have not ended, lowest writer first. -/
def Entry.leftovers (e : Entry) : List Bytes :=
  ((e.partials.pairs.mergeSort fun p q => p.1 ≤ q.1).map Prod.snd).filter (· ≠ [])

/-- Forgets the oldest of more than `maxUnclaimed` finished result sets. -/
def evict (c : Catalog) : Catalog :=
  let excess := c.unclaimed.length - maxUnclaimed
  { c with
    unclaimed := c.unclaimed.drop excess
    entries := (c.unclaimed.take excess).foldl Dict.erase c.entries }

/-- The server ends a result set: unfinished records end with it. A finished result set is kept
for a consumer to come. -/
def bye (c : Catalog) (index : UInt16) : Catalog :=
  match c.byIndex.get? index with
  | none => c
  | some name =>
    let c := { c with byIndex := c.byIndex.erase index }
    match c.entries.get? name with
    | none => c
    | some e =>
      let events := e.leftovers.map .record ++ [.endOfRecords]
      let c := c.modifyFeed e.feed fun f => events.foldl Feed.deliver f
      if e.claimed then c.eraseEntry name
      else
        let c := c.setEntry name { e with index := none, partials := .empty, finished := true }
        { c with unclaimed := c.unclaimed ++ [name] }.evict

/-- Whether reading has to stop: a result set that is not over has a full feed. -/
def isSaturated (c : Catalog) : Bool :=
  c.entries.values.any fun e => !e.finished && (c.feed e.feed).isFull c.limit

/-- The session ends, and with it every result set that is not over. -/
def terminate (c : Catalog) (outage : Outage) : Catalog :=
  let unfinished := c.entries.values.filter fun e => !e.finished
  let c := unfinished.foldl (fun c e => c.modifyFeed e.feed (·.deliver (.cutOff outage))) c
  { c with entries := .empty, byIndex := .empty, discarded := [], unclaimed := [] }

end Catalog

end QueryLink
