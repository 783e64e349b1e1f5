import QueryLink.Proofs.DictLemmas
import QueryLink.ResultSet.Catalog

/-!
# Runs of a catalog

What callers, the server and consumers do to a catalog, one `Action` at a time, and what each
action may do: the cases are settled here once, so that nothing below looks into the operations of
a catalog again to see what they leave alone.

## Key results

- `connect_cases`, `disconnect_cases`: what consumers may do to the books
- `hello_cases`, `piece_cases`, `bye_cases`: what the server may do to them
- `connect_refused`, `connect_claims`, `connect_fetches`, `hello_swallowed`, `hello_announces`:
  which of the cases it is
- `connect_byIndex`, `piece_byIndex`, `bye_byIndex`: what becomes of the indices
- `entry_origin`: an entry that is looked up is there or new
-/

namespace QueryLink.Feed

/-- Taking an event from a feed leaves the ones behind it, and the feed open or not. -/
theorem take_keeps (f : Feed) :
    f.take.2.isOpen = f.isOpen ∧ f.take.2.queue = f.queue.drop 1 := by
  unfold take
  split
  · rename_i hnil
    exact ⟨rfl, by rw [hnil]; rfl⟩
  · rename_i hcons
    exact ⟨rfl, by rw [hcons]; rfl⟩

end QueryLink.Feed

namespace QueryLink.Catalog

/-- What can happen to a catalog. -/
inductive Action where
  | connect (name : String)
  | disconnect (name : String)
  | hello (index : UInt16) (name : String)
  | piece (index : UInt16) (writer : UInt8) (bytes : Bytes)
  | bye (index : UInt16)
  | terminate (outage : Outage)
  /-- A consumer takes the next event of its feed. -/
  | take (id : FeedId)
  /-- A consumer lets go of its feed. -/
  | leave (id : FeedId)
  deriving DecidableEq

/-- The catalog after an action. A consumer that is refused changes nothing. -/
def act (c : Catalog) : Action → Catalog
  | .connect name =>
    match c.connect name with
    | .ok (_, c) => c
    | .error _ => c
  | .disconnect name => c.disconnect name
  | .hello index name => c.hello index name
  | .piece index writer bytes => c.piece index writer bytes
  | .bye index => c.bye index
  | .terminate outage => c.terminate outage
  | .take id => c.modifyFeed id fun f => f.take.2
  | .leave id => c.modifyFeed id Feed.close

/-- The catalog after some actions. -/
def run (c : Catalog) (as : List Action) : Catalog := as.foldl act c

theorem run_append (c : Catalog) (as bs : List Action) : c.run (as ++ bs) = (c.run as).run bs :=
  List.foldl_append

/-- What the consumer of a feed gets by an action. -/
def got (id : FeedId) (c : Catalog) (a : Action) : List Feed.Event :=
  if a = .take id then (c.feed id).take.1.toList else []

/-- The events that the consumer of a feed takes in a run, first event first. -/
def taken (id : FeedId) : Catalog → List Action → List Feed.Event
  | _, [] => []
  | c, a :: as => got id c a ++ taken id (c.act a) as

/-! ## Edits -/

@[simp] theorem setEntry_entries (c : Catalog) (name : String) (e : Entry) :
    (c.setEntry name e).entries = c.entries.insert name e := rfl

@[simp] theorem eraseEntry_entries (c : Catalog) (name : String) :
    (c.eraseEntry name).entries = c.entries.erase name := rfl

@[simp] theorem modifyFeed_entries (c : Catalog) (id : FeedId) (f : Feed → Feed) :
    (c.modifyFeed id f).entries = c.entries := rfl

@[simp] theorem setEntry_feed (c : Catalog) (name : String) (e : Entry) (id : FeedId) :
    (c.setEntry name e).feed id = c.feed id := rfl

/-- Changing a feed changes that one, if it is there. -/
theorem feed_modifyFeed (c : Catalog) (id other : FeedId) (f : Feed → Feed) :
    (c.modifyFeed id f).feed other =
      if other = id ∧ id < c.feeds.size then f (c.feed id) else c.feed other := by
  simp only [feed, modifyFeed, Array.getElem?_modify]
  by_cases h : id = other
  · subst h
    by_cases hlt : id < c.feeds.size
    · simp [hlt]
    · simp [hlt]
  · simp [h, Ne.symm h]

theorem feed_modifyFeed_ne (c : Catalog) {id other : FeedId} (h : other ≠ id) (f : Feed → Feed) :
    (c.modifyFeed id f).feed other = c.feed other := by
  rw [feed_modifyFeed, if_neg fun hand => h hand.1]

theorem feed_modifyFeed_self (c : Catalog) {id : FeedId} (h : id < c.feeds.size)
    (f : Feed → Feed) : (c.modifyFeed id f).feed id = f (c.feed id) := by
  rw [feed_modifyFeed, if_pos ⟨rfl, h⟩]

@[simp] theorem size_modifyFeed (c : Catalog) (id : FeedId) (f : Feed → Feed) :
    (c.modifyFeed id f).feeds.size = c.feeds.size := by
  simp only [modifyFeed, Array.size_modify]

/-- Leaving a feed as it is leaves the catalog as it is. -/
theorem modifyFeed_id (c : Catalog) (id : FeedId) : (c.modifyFeed id fun f => f) = c := by
  have hfeeds : (c.feeds.modify id fun f => f) = c.feeds := by
    apply Array.ext_getElem?
    intro i
    rw [Array.getElem?_modify]
    split
    · exact Option.map_id'
    · rfl
  rw [modifyFeed, hfeeds]

/-- A feed may be replaced by what becomes of it. -/
theorem modifyFeed_const (c : Catalog) (id : FeedId) (f : Feed → Feed) :
    (c.modifyFeed id fun _ => f (c.feed id)) = c.modifyFeed id f := by
  have hfeeds : (c.feeds.modify id fun _ => f (c.feed id)) = c.feeds.modify id f := by
    apply Array.ext_getElem?
    intro i
    rw [Array.getElem?_modify, Array.getElem?_modify]
    split
    · rename_i h
      subst h
      cases hfeed : c.feeds[id]? with
      | none => rfl
      | some g => rw [Option.map_some, Option.map_some, feed, hfeed, Option.getD_some]
    · rfl
  rw [modifyFeed, hfeeds, modifyFeed]

/-- Looking up an entry, or making one, changes no feed: a new feed is as an unknown one. -/
theorem feed_entry (c : Catalog) (name : String) (id : FeedId) :
    (c.entry name).2.feed id = c.feed id := by
  unfold entry
  split
  · rfl
  · -- the new feed is empty, as a feed that is not there yet is taken to be
    simp only [feed, Array.getElem?_push]
    split
    · rename_i h
      rw [h, Array.getElem?_size]
      rfl
    · rfl

@[simp] theorem entry_byIndex (c : Catalog) (name : String) :
    (c.entry name).2.byIndex = c.byIndex := by
  unfold entry
  split <;> rfl

@[simp] theorem entry_unclaimed (c : Catalog) (name : String) :
    (c.entry name).2.unclaimed = c.unclaimed := by
  unfold entry
  split <;> rfl

@[simp] theorem entry_discarded (c : Catalog) (name : String) :
    (c.entry name).2.discarded = c.discarded := by
  unfold entry
  split <;> rfl

@[simp] theorem entry_limit (c : Catalog) (name : String) : (c.entry name).2.limit = c.limit := by
  unfold entry
  split <;> rfl

/-- The entry that is looked up is the entry of its name then. -/
theorem get?_entry (c : Catalog) (name : String) :
    (c.entry name).2.entries.get? name = some (c.entry name).1 := by
  unfold entry
  split
  · assumption
  · rw [Dict.get?_insert, if_pos rfl]

/-- Looking up the entry of one name does not change the entry of another. -/
theorem get?_entry_ne (c : Catalog) {name other : String} (h : other ≠ name) :
    (c.entry name).2.entries.get? other = c.entries.get? other := by
  unfold entry
  split
  · rfl
  · rw [Dict.get?_insert, if_neg h]

/-- An entry that is looked up and edited takes its place, and the others stay. -/
theorem get?_setEntry_entry (c : Catalog) (name : String) (e : Entry) (other : String) :
    ((c.entry name).2.setEntry name e).entries.get? other =
      if other = name then some e else c.entries.get? other := by
  rw [setEntry_entries, Dict.get?_insert]
  split
  · rfl
  · rename_i h
    exact get?_entry_ne c h

/-- An entry that is looked up and forgotten is gone, and the others stay. -/
theorem get?_eraseEntry_entry (c : Catalog) (name other : String) :
    ((c.entry name).2.eraseEntry name).entries.get? other =
      if other = name then none else c.entries.get? other := by
  rw [eraseEntry_entries, Dict.get?_erase]
  split
  · rfl
  · rename_i h
    exact get?_entry_ne c h

/-- The entry that is looked up is there, or is made with a feed of its own. -/
theorem entry_origin (c : Catalog) (name : String) :
    (c.entries.get? name = some (c.entry name).1 ∧ (c.entry name).2 = c) ∨
      (c.entries.get? name = none ∧ (c.entry name).1 = { feed := c.feeds.size } ∧
        (c.entry name).2.feeds.size = c.feeds.size + 1) := by
  unfold entry
  cases h : c.entries.get? name with
  | none => exact .inr ⟨rfl, rfl, Array.size_push _⟩
  | some e => exact .inl ⟨rfl, rfl⟩

/-- What is streamed under an index is the entry of the name that the index leads to. -/
theorem streamed?_eq_some {c : Catalog} {index : UInt16} {name : String} {e : Entry} :
    c.streamed? index = some (name, e) ↔
      c.byIndex.get? index = some name ∧ c.entries.get? name = some e := by
  simp only [streamed?, Option.bind_eq_some_iff, Option.map_eq_some_iff, Prod.mk.injEq]
  constructor
  · rintro ⟨m, hm, e', he, rfl, rfl⟩
    exact ⟨hm, he⟩
  · rintro ⟨hn, he⟩
    exact ⟨name, hn, e, he, rfl, rfl⟩

/-- Several names are forgotten one after the other. -/
theorem get?_foldl_erase (names : List String) (d : Dict String Entry) (name : String) :
    (names.foldl Dict.erase d).get? name = if name ∈ names then none else d.get? name := by
  induction names generalizing d with
  | nil => simp
  | cons n names ih =>
    rw [List.foldl_cons, ih, Dict.get?_erase]
    by_cases hn : name = n <;> by_cases hmem : name ∈ names <;> simp [hn, hmem]

/-- What is forgotten is at the head of the line. -/
theorem get?_evict (c : Catalog) (name : String) :
    c.evict.entries.get? name =
      if name ∈ c.unclaimed.take (c.unclaimed.length - maxUnclaimed) then none
      else c.entries.get? name :=
  get?_foldl_erase _ _ _

/-! ## What an action does -/

/-- A consumer that comes second is refused. -/
theorem connect_refused {c : Catalog} {m : String} (hclaimed : (c.entry m).1.claimed = true) :
    c.act (.connect m) = c := by
  simp only [act, connect, if_pos hclaimed]

/-- A consumer claims a result set that is not over. -/
theorem connect_claims {c : Catalog} {m : String} (hclaimed : (c.entry m).1.claimed = false)
    (hfinished : (c.entry m).1.finished = false) :
    c.act (.connect m) = { (c.entry m).2.setEntry m { (c.entry m).1 with claimed := true } with
      discarded := c.discarded.filter (· ≠ m) } := by
  simp only [act, connect, hclaimed, hfinished, Bool.false_eq_true, if_false, setEntry,
    entry_discarded]

/-- A consumer fetches a result set that is over. -/
theorem connect_fetches {c : Catalog} {m : String} (hclaimed : (c.entry m).1.claimed = false)
    (hfinished : (c.entry m).1.finished = true) :
    c.act (.connect m) = { (c.entry m).2.eraseEntry m with
      unclaimed := c.unclaimed.filter (· ≠ m)
      discarded := c.discarded.filter (· ≠ m) } := by
  simp only [act, connect, hclaimed, hfinished, Bool.false_eq_true, if_false, if_true, eraseEntry,
    entry_unclaimed, entry_discarded]

/-- A consumer is refused, claims a result set, or fetches one that is over. -/
theorem connect_cases (c : Catalog) (m : String) :
    c.act (.connect m) = c ∨
    c.act (.connect m) = { (c.entry m).2.setEntry m { (c.entry m).1 with claimed := true } with
      discarded := c.discarded.filter (· ≠ m) } ∨
    c.act (.connect m) = { (c.entry m).2.eraseEntry m with
      unclaimed := c.unclaimed.filter (· ≠ m)
      discarded := c.discarded.filter (· ≠ m) } := by
  cases hclaimed : (c.entry m).1.claimed with
  | true => exact .inl (connect_refused hclaimed)
  | false =>
    cases hfinished : (c.entry m).1.finished with
    | true => exact .inr (.inr (connect_fetches hclaimed hfinished))
    | false => exact .inr (.inl (connect_claims hclaimed hfinished))

/-- A consumer that leaves takes the entry with it, and the index if there is one; else the name
may be swallowed later. -/
theorem disconnect_cases (c : Catalog) (m : String) :
    c.entries.get? m = none ∧ c.disconnect m = c ∨
    ∃ e, c.entries.get? m = some e ∧
      ((∃ i, e.index = some i ∧
          c.disconnect m = { c.eraseEntry m with byIndex := c.byIndex.erase i }) ∨
        e.index = none ∧ ∃ discarded, (∀ n, n ≠ m → (n ∈ discarded ↔ n ∈ c.discarded)) ∧
          c.disconnect m = { c.eraseEntry m with discarded }) := by
  unfold disconnect
  cases he : c.entries.get? m with
  | none => exact .inl ⟨rfl, rfl⟩
  | some e =>
    refine .inr ⟨e, rfl, ?_⟩
    dsimp only
    split
    · rename_i i hi
      exact .inl ⟨i, hi, rfl⟩
    · rename_i hi
      refine .inr ⟨hi, ?_⟩
      split
      · exact ⟨c.discarded, fun _ _ => Iff.rfl, rfl⟩
      · refine ⟨m :: c.discarded.filter (· ≠ m), fun n hn => ?_, rfl⟩
        simp [hn]

/-- The announcement of a name whose consumer has left is swallowed. -/
theorem hello_swallowed {c : Catalog} {m : String} (h : m ∈ c.discarded) (j : UInt16) :
    c.hello j m = { c with discarded := c.discarded.filter (· ≠ m) } :=
  if_pos h

/-- Any other announcement gives the result set its index. -/
theorem hello_announces {c : Catalog} {m : String} (h : m ∉ c.discarded) (j : UInt16) :
    c.hello j m = { (c.entry m).2.setEntry m { (c.entry m).1 with index := some j } with
      byIndex := c.byIndex.insert j m } := by
  simp only [hello, if_neg h, setEntry, entry_byIndex]

/-- An announcement is swallowed, or gives the result set its index. -/
theorem hello_cases (c : Catalog) (j : UInt16) (m : String) :
    c.hello j m = { c with discarded := c.discarded.filter (· ≠ m) } ∨
    c.hello j m = { (c.entry m).2.setEntry m { (c.entry m).1 with index := some j } with
      byIndex := c.byIndex.insert j m } := by
  by_cases h : m ∈ c.discarded
  · exact .inl (hello_swallowed h j)
  · exact .inr (hello_announces h j)

/-- A piece is ignored, or changes what its result set holds of records, and possibly the feed. -/
theorem piece_cases (c : Catalog) (j : UInt16) (w : UInt8) (bytes : Bytes) :
    c.piece j w bytes = c ∨
    ∃ m e partials f, c.streamed? j = some (m, e) ∧
      c.piece j w bytes = (c.setEntry m { e with partials }).modifyFeed e.feed f := by
  unfold piece
  cases hs : c.streamed? j with
  | none => exact .inl rfl
  | some p =>
    obtain ⟨m, e⟩ := p
    dsimp only
    split
    · exact .inl rfl
    · split
      · split
        · exact .inl rfl
        · exact .inr ⟨m, e, _, _, rfl, rfl⟩
      · exact .inr ⟨m, e, _, fun f => f, rfl, (modifyFeed_id _ _).symm⟩

/-- An end frees the index. A result set that was claimed is forgotten, another one is kept. -/
theorem bye_cases (c : Catalog) (j : UInt16) :
    c.streamed? j = none ∧ c.bye j = { c with byIndex := c.byIndex.erase j } ∨
    ∃ m e f, c.streamed? j = some (m, e) ∧
      (e.claimed = true ∧
        c.bye j = ({ c with byIndex := c.byIndex.erase j }.modifyFeed e.feed f).eraseEntry m ∨
      e.claimed = false ∧
        c.bye j = evict { ({ c with byIndex := c.byIndex.erase j }.modifyFeed e.feed f).setEntry m
            { e with index := none, partials := .empty, finished := true } with
          unclaimed := c.unclaimed ++ [m] }) := by
  unfold bye streamed?
  cases hj : c.byIndex.get? j with
  | none =>
    refine .inl ⟨rfl, ?_⟩
    rw [Dict.erase_of_get?_none hj]
  | some m =>
    dsimp only [Option.bind_some]
    cases he : c.entries.get? m with
    | none => exact .inl ⟨rfl, rfl⟩
    | some e =>
      refine .inr ⟨m, e, fun f => (e.leftovers.map Feed.Event.record
        ++ [Feed.Event.endOfRecords]).foldl Feed.deliver f, rfl, ?_⟩
      dsimp only
      cases hclaimed : e.claimed with
      | true => exact .inl ⟨rfl, rfl⟩
      | false => exact .inr ⟨rfl, rfl⟩

/-- Consumers that come leave the indices alone. -/
theorem connect_byIndex (c : Catalog) (m : String) :
    (c.act (.connect m)).byIndex = c.byIndex := by
  obtain heq | heq | heq := c.connect_cases m
  · rw [heq]
  · rw [heq]
    exact c.entry_byIndex m
  · rw [heq]
    exact c.entry_byIndex m

/-- Pieces leave the indices alone. -/
theorem piece_byIndex (c : Catalog) (j : UInt16) (w : UInt8) (bytes : Bytes) :
    (c.piece j w bytes).byIndex = c.byIndex := by
  obtain heq | ⟨m, e, partials, f, -, heq⟩ := c.piece_cases j w bytes
  · rw [heq]
  · rw [heq]
    rfl

/-- An end frees its index, whatever was streamed under it. -/
theorem bye_byIndex (c : Catalog) (j : UInt16) : (c.bye j).byIndex = c.byIndex.erase j := by
  obtain ⟨-, heq⟩ | ⟨m, e, f, -, ⟨-, heq⟩ | ⟨-, heq⟩⟩ := c.bye_cases j
  · rw [heq]
  · rw [heq]
    rfl
  · rw [heq]
    rfl

end QueryLink.Catalog
