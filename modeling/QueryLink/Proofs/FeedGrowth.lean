import QueryLink.Proofs.ResultSetLife

/-!
# What feeds get

While consumers come and the server speaks, feeds only grow: events are added behind those that
wait. Whatever the server sends, in whatever order, a result set that is not over gets records and
nothing else.

## Key results

- `OwnFeeds.feed_arrival`: what an arrival adds to a feed
- `Feeds`, `OwnFeeds.feed_cases`: everything that can happen to a feed
- `unfinished_arrival`: a result set that is not over was not over before, or it is new
-/

namespace QueryLink

/-- Delivering events leaves a feed open or not. -/
theorem Feed.isOpen_foldl_deliver (f : Feed) (events : List Feed.Event) :
    (events.foldl Feed.deliver f).isOpen = f.isOpen := by
  induction events generalizing f with
  | nil => rfl
  | cons event events ih => rw [List.foldl_cons, ih, Feed.deliver]

/-- Events that nobody will take are lost. -/
theorem Feed.queue_foldl_deliver_closed {f : Feed} (h : f.isOpen = false)
    (events : List Feed.Event) : (events.foldl Feed.deliver f).queue = f.queue := by
  induction events generalizing f with
  | nil => rfl
  | cons event events ih =>
    have hlost : (f.deliver event).queue = f.queue := if_neg (by simp [h])
    have hclosed : (f.deliver event).isOpen = false := h
    rw [List.foldl_cons, ih hclosed, hlost]

namespace Catalog

/-- Whether somebody comes: a consumer, or a frame of the server. -/
def Action.IsArrival : Action → Prop
  | .connect _ => True
  | .hello _ _ => True
  | .piece _ _ _ => True
  | .bye _ => True
  | _ => False

variable {c : Catalog} {a : Action} {id : FeedId}

/-- A piece completes a record, or adds to one that is not complete yet. -/
theorem feed_piece (c : Catalog) (index : UInt16) (writer : UInt8) (bytes : Bytes) (id : FeedId) :
    (c.piece index writer bytes).feed id = c.feed id ∨
      ∃ record, (c.piece index writer bytes).feed id = (c.feed id).deliver (.record record) := by
  unfold piece
  split
  · exact .inl rfl
  · rename_i name e hs
    split
    · exact .inl rfl
    · split
      · split
        · exact .inl rfl
        · rename_i record hrecord
          rw [feed_modifyFeed]
          split
          · rename_i hand
            rw [hand.1]
            exact .inr ⟨record, rfl⟩
          · exact .inl rfl
      · exact .inl rfl

/-- An end adds what writers have not ended, and that it is the end, to the feed of the result set
that is streamed. -/
theorem feed_bye {index : UInt16} {m : String} {d : Entry} (hs : c.streamed? index = some (m, d))
    (id : FeedId) : (c.bye index).feed id =
      (c.modifyFeed d.feed fun f => d.closing.foldl Feed.deliver f).feed id := by
  obtain ⟨hindex, hd⟩ := streamed?_eq_some.1 hs
  cases hclaimed : d.claimed with
  | true =>
    rw [bye_claimed_eq hindex hd hclaimed]
    rfl
  | false =>
    rw [bye_unclaimed_eq hindex hd hclaimed]
    rfl

/-- What is left of a result set after its end is over. -/
theorem finished_of_bye {index : UInt16} {m : String} {d e : Entry}
    (hs : c.streamed? index = some (m, d)) (he : (c.bye index).entries.get? m = some e) :
    e.finished = true := by
  obtain ⟨hindex, hd⟩ := streamed?_eq_some.1 hs
  cases hclaimed : d.claimed with
  | true =>
    rw [bye_claimed_eq hindex hd hclaimed, eraseEntry_entries, Dict.get?_erase, if_pos rfl] at he
    cases he
  | false =>
    rw [bye_unclaimed_eq hindex hd hclaimed, get?_evict] at he
    split at he
    · cases he
    · replace he : (c.entries.insert m
          { d with index := none, partials := .empty, finished := true }).get? m = some e := he
      rw [Dict.get?_insert, if_pos rfl] at he
      cases he
      rfl

/-- The result set whose feed the end of a result set goes into is over then. -/
theorem OwnFeeds.finished_of_bye (hc : c.OwnFeeds) {index : UInt16} {m name : String}
    {d e : Entry} (hs : c.streamed? index = some (m, d))
    (he : (c.act (.bye index)).entries.get? name = some e) (hfeed : e.feed = d.feed) :
    e.finished = true := by
  obtain ⟨old, hold, hsame, -⟩ | ⟨⟨h | ⟨i, h⟩, -, -⟩, -⟩ := (c.act_origin (.bye index)).2 name e he
  · -- the feed is the result set's own, before and after
    obtain rfl : name = m := hc.inj hold (streamed?_eq_some.1 hs).2 (hsame.symm.trans hfeed)
    exact Catalog.finished_of_bye hs he
  · cases h
  · cases h

/-- An arrival adds events to a feed: records only, unless the result set is over then. -/
theorem OwnFeeds.feed_arrival (hc : c.OwnFeeds) (ha : a.IsArrival) (id : FeedId) :
    ∃ events : List Feed.Event, (c.act a).feed id = events.foldl Feed.deliver (c.feed id) ∧
      ((∀ event ∈ events, event.isRecord = true) ∨
        ∀ name e, (c.act a).entries.get? name = some e → e.feed = id → e.finished = true) := by
  cases a with
  | connect m => exact ⟨[], c.feed_connect m id, .inl (by simp)⟩
  | hello index m => exact ⟨[], c.feed_hello index m id, .inl (by simp)⟩
  | piece index writer bytes =>
    obtain hsame | ⟨record, hgot⟩ := c.feed_piece index writer bytes id
    · exact ⟨[], hsame, .inl (by simp)⟩
    · exact ⟨[.record record], hgot, .inl (by simp [Feed.Event.isRecord])⟩
  | bye index =>
    obtain ⟨-, heq⟩ | ⟨m, d, f, hs, -⟩ := c.bye_cases index
    · exact ⟨[], by rw [Catalog.act, heq]; rfl, .inl (by simp)⟩
    · rw [Catalog.act, feed_bye hs, feed_modifyFeed]
      split
      · rename_i hand
        refine ⟨d.closing, by rw [hand.1], .inr fun name e he hfeed => ?_⟩
        exact hc.finished_of_bye hs he (hfeed.trans hand.1)
      · exact ⟨[], rfl, .inl (by simp)⟩
  | _ => exact ha.elim

/-- What an action delivers to the feed of a result set: a record or the end of what is streamed,
or the news that the session ended before that. -/
inductive Feeds (c : Catalog) (name : String) (e : Entry) : Action → List Feed.Event → Prop
  | piece {index writer bytes record} (hs : c.streamed? index = some (name, e)) :
      Feeds c name e (.piece index writer bytes) [.record record]
  | bye {index} (hs : c.streamed? index = some (name, e)) : Feeds c name e (.bye index) e.closing
  | terminate {outage} (hfinished : e.finished = false) :
      Feeds c name e (.terminate outage) [.cutOff outage]

/-- Whatever happens, a feed stays as it is, or something is delivered to it on behalf of the
result set that has it, or its consumer takes an event or goes. -/
theorem OwnFeeds.feed_cases (hc : c.OwnFeeds) (a : Action) (id : FeedId) :
    (c.act a).feed id = c.feed id ∨
    (∃ name e events, c.entries.get? name = some e ∧ e.feed = id ∧ c.Feeds name e a events ∧
      (c.act a).feed id = events.foldl Feed.deliver (c.feed id)) ∨
    (a = .take id ∧ (c.act a).feed id = (c.feed id).take.2) ∨
    (a = .leave id ∧ (c.act a).feed id = (c.feed id).close) := by
  cases a with
  | connect m => exact .inl (c.feed_connect m id)
  | disconnect m => exact .inl (c.feed_disconnect m id)
  | hello index m => exact .inl (c.feed_hello index m id)
  | piece index writer bytes =>
    by_cases howner : ∃ name e, c.streamed? index = some (name, e) ∧ e.feed = id
    · obtain ⟨name, e, hs, hfeed⟩ := howner
      obtain hsame | ⟨record, hgot⟩ := c.feed_piece index writer bytes id
      · exact .inl hsame
      · exact .inr (.inl ⟨name, e, [.record record], (streamed?_eq_some.1 hs).2, hfeed, .piece hs,
          hgot⟩)
    · refine .inl (c.feed_act (by simp) (by simp) fun name e he hfeed hindex => ?_)
      exact howner ⟨name, e, streamed?_eq_some.2 ⟨hindex, he⟩, hfeed⟩
  | bye index =>
    rw [Catalog.act]
    obtain ⟨-, heq⟩ | ⟨m, d, f, hs, -⟩ := c.bye_cases index
    · rw [heq]
      exact .inl rfl
    · rw [feed_bye hs, feed_modifyFeed]
      split
      · rename_i hand
        rw [hand.1]
        exact .inr (.inl ⟨m, d, d.closing, (streamed?_eq_some.1 hs).2, rfl, .bye hs, rfl⟩)
      · exact .inl rfl
  | terminate outage =>
    by_cases howner : ∃ name e, c.entries.get? name = some e ∧ e.finished = false ∧ e.feed = id
    · obtain ⟨name, e, he, hfinished, rfl⟩ := howner
      exact .inr (.inl ⟨name, e, [.cutOff outage], he, rfl, .terminate hfinished,
        hc.feed_terminate he hfinished outage⟩)
    · refine .inl (c.feed_terminate_of_ne (fun name e he hfinished hfeed => ?_) outage)
      exact howner ⟨name, e, he, hfinished, hfeed⟩
  | take other =>
    rw [Catalog.act, feed_modifyFeed]
    split
    · rename_i hand
      rw [hand.1]
      exact .inr (.inr (.inl ⟨rfl, rfl⟩))
    · exact .inl rfl
  | leave other =>
    rw [Catalog.act, feed_modifyFeed]
    split
    · rename_i hand
      rw [hand.1]
      exact .inr (.inr (.inr ⟨rfl, rfl⟩))
    · exact .inl rfl

/-- A result set that is not over was not over before, or it has a new feed. -/
theorem unfinished_arrival (c : Catalog) (a : Action) {name : String} {e : Entry}
    (he : (c.act a).entries.get? name = some e) (hfinished : e.finished = false) :
    (∃ old, c.entries.get? name = some old ∧ e.feed = old.feed ∧ old.finished = false) ∨
      e.feed = c.feeds.size := by
  obtain ⟨old, hold, hfeed, hsame⟩ | ⟨⟨-, -, hfeed⟩, -⟩ := (c.act_origin a).2 name e he
  · exact .inl ⟨old, hold, hfeed, hsame hfinished⟩
  · exact .inr hfeed

/-- A feed that is not there yet is empty and open. -/
theorem feed_of_le (h : c.feeds.size ≤ id) : c.feed id = {} := by
  rw [feed, Array.getElem?_eq_none h]
  rfl

end Catalog

end QueryLink
