import QueryLink.Proofs.CatalogBooks
import QueryLink.Proofs.FeedGrowth

/-!
# Result sets that succeed one another

A name may be announced again once its result set has ended. The events that go into one feed are
records and then at most one event that ends them, `Whole`, as long as no announcement comes while
the finished result set of its name is still kept: such an announcement gives the finished result
set an index again, and its feed is the one the new records and the new end go into.

## Key results

- `delivery_cases`: what an action delivers to a feed, and on whose behalf
- `Sound.act`: what is known of the feeds from action to action
- `whole_unless_revived`: feeds stay whole as long as nothing is revived, and no longer
-/

namespace QueryLink

namespace Feed

/-- Records, and then at most one event that ends them. -/
def Whole (events : List Event) : Prop :=
  ∃ (records : List Bytes) (last : Option Event), events = records.map .record ++ last.toList ∧
    ∀ event ∈ last, event.isRecord = false

theorem whole_nil : Whole [] := ⟨[], none, rfl, by simp⟩

/-- Records go on with whatever is whole. -/
theorem Whole.append_left {events : List Event} (h : Whole events) {past : List Event}
    (hpast : ∀ event ∈ past, event.isRecord = true) : Whole (past ++ events) := by
  obtain ⟨records, last, rfl, hlast⟩ := h
  induction past with
  | nil => exact ⟨records, last, rfl, hlast⟩
  | cons event past ih =>
    obtain ⟨hevent, hrest⟩ := List.forall_mem_cons.1 hpast
    obtain ⟨records', last', heq, hlast'⟩ := ih hrest
    cases event with
    | record bytes => exact ⟨bytes :: records', last', by simp [heq], hlast'⟩
    | endOfRecords => cases hevent
    | cutOff outage => cases hevent

/-- Only the last event can be something else than a record. -/
theorem Whole.isRecord_of_mem_dropLast {events : List Event} (h : Whole events) {event : Event}
    (hevent : event ∈ events.dropLast) : event.isRecord = true := by
  obtain ⟨records, last, rfl, -⟩ := h
  have hrecord : event ∈ records.map Event.record := by
    cases last with
    | none =>
      rw [Option.toList_none, List.append_nil] at hevent
      exact List.dropLast_subset _ hevent
    | some event' => rwa [Option.toList_some, List.dropLast_concat] at hevent
  obtain ⟨bytes, -, rfl⟩ := List.mem_map.1 hrecord
  rfl

/-- Nothing that follows an end is whole with it. -/
theorem not_whole_append {past events : List Event} (hend : .endOfRecords ∈ past)
    (hevents : events ≠ []) : ¬ Whole (past ++ events) := by
  intro h
  have hmem : .endOfRecords ∈ (past ++ events).dropLast := by
    rw [List.dropLast_append_of_ne_nil hevents]
    exact List.mem_append_left _ hend
  have hrecord := h.isRecord_of_mem_dropLast hmem
  cases hrecord

end Feed

namespace Catalog

/-! ## Announcements -/

/-- The result sets the server streams after an action, by index and name. -/
def Action.streams (streams : List (UInt16 × String)) : Action → List (UInt16 × String)
  | .hello index name => (index, name) :: streams
  | .bye index => streams.filter (·.1 ≠ index)
  | _ => streams

/-- A result set is announced under an index and a name that no other one is streamed under. -/
def Action.Timely (streams : List (UInt16 × String)) : Action → Prop
  | .hello index name => ∀ p ∈ streams, p.1 ≠ index ∧ p.2 ≠ name
  | _ => True

instance (streams : List (UInt16 × String)) : DecidablePred (Action.Timely streams)
  | .hello _ _ => inferInstanceAs (Decidable (∀ p ∈ _, _))
  | .connect _ | .disconnect _ | .piece _ _ _ | .bye _ | .terminate _ | .take _ | .leave _ =>
    isTrue trivial

/-- Indices and names are announced again only after the end of what they were announced for. -/
def Successive : List (UInt16 × String) → List Action → Prop
  | _, [] => True
  | streams, a :: as => a.Timely streams ∧ Successive (a.streams streams) as

instance : (streams : List (UInt16 × String)) → (as : List Action) →
    Decidable (Successive streams as)
  | _, [] => isTrue trivial
  | streams, a :: as =>
    let := instDecidableSuccessive (a.streams streams) as
    inferInstanceAs (Decidable (_ ∧ _))

/-- Whether a name is announced whose finished result set is still kept. -/
def revives (c : Catalog) : Action → Bool
  | .hello _ name => c.isFinished name
  | _ => false

/-- No action of a run revives a result set. -/
def Unrevived : Catalog → List Action → Prop
  | _, [] => True
  | c, a :: as => c.revives a = false ∧ Unrevived (c.act a) as

instance : (c : Catalog) → (as : List Action) → Decidable (c.Unrevived as)
  | _, [] => isTrue trivial
  | c, a :: as =>
    let := instDecidableUnrevived (c.act a) as
    inferInstanceAs (Decidable (_ ∧ _))

/-! ## Deliveries -/

/-- The events an action adds to a feed. -/
def delivered (id : FeedId) (c : Catalog) (a : Action) : List Feed.Event :=
  ((c.act a).feed id).queue.drop (c.feed id).queue.length

/-- The events that a run adds to a feed, first event first. -/
def deliveries (id : FeedId) : Catalog → List Action → List Feed.Event
  | _, [] => []
  | c, a :: as => delivered id c a ++ deliveries id (c.act a) as

variable {c : Catalog} {a : Action} {id : FeedId} {name : String} {e : Entry}

theorem deliveries_append (id : FeedId) (c : Catalog) (as bs : List Action) :
    deliveries id c (as ++ bs) = deliveries id c as ++ deliveries id (c.run as) bs := by
  induction as generalizing c with
  | nil => rfl
  | cons a as ih =>
    rw [List.cons_append, deliveries, ih, deliveries, List.append_assoc]
    rfl

/-- A feed that stays as it is gets nothing. -/
theorem delivered_of_feed_eq (h : (c.act a).feed id = c.feed id) : delivered id c a = [] := by
  rw [delivered, h, List.drop_length]

/-- What is delivered to a feed is added if somebody listens. -/
theorem delivered_of_foldl {events : List Feed.Event}
    (h : (c.act a).feed id = events.foldl Feed.deliver (c.feed id)) :
    delivered id c a = if (c.feed id).isOpen then events else [] := by
  rw [delivered, h]
  split
  · rename_i hopen
    rw [foldl_deliver hopen, List.drop_left]
  · rename_i hclosed
    rw [Feed.queue_foldl_deliver_closed (by simpa using hclosed), List.drop_length]

/-- The end of a result set that is streamed goes into its feed, after the records that its writers
have not ended. -/
theorem delivered_bye (hc : c.OwnFeeds) {j : UInt16} (hs : c.streamed? j = some (name, e)) :
    delivered e.feed c (.bye j) = if (c.feed e.feed).isOpen then e.closing else [] := by
  have hlt : e.feed < c.feeds.size := hc.lt (streamed?_eq_some.1 hs).2
  refine delivered_of_foldl ?_
  rw [act, feed_bye hs, feed_modifyFeed_self c hlt]

/-- Nothing is delivered to a feed but on behalf of the result set that has it. -/
theorem delivery_cases (hc : c.OwnFeeds) (a : Action) (id : FeedId) :
    delivered id c a = [] ∨ ∃ name e, c.entries.get? name = some e ∧ e.feed = id ∧
      c.Feeds name e a (delivered id c a) := by
  obtain hsame | ⟨name, e, events, he, hfeed, hfeeds, hgot⟩ | ⟨-, heq⟩ | ⟨-, heq⟩ :=
    hc.feed_cases a id
  · exact .inl (delivered_of_feed_eq hsame)
  · have hdelivered := delivered_of_foldl hgot
    split at hdelivered
    · exact .inr ⟨name, e, he, hfeed, hdelivered ▸ hfeeds⟩
    · exact .inl hdelivered
  · -- what is taken makes the queue shorter
    have hlength := congrArg List.length (take_append (c.feed id))
    rw [List.length_append] at hlength
    refine .inl (List.drop_eq_nil_iff.2 ?_)
    rw [heq]
    omega
  · refine .inl (List.drop_eq_nil_iff.2 ?_)
    rw [heq]
    exact Nat.zero_le _

/-- A feed that somebody listens to was listened to before. -/
theorem isOpen_of_act (hc : c.OwnFeeds) (a : Action) (id : FeedId)
    (h : ((c.act a).feed id).isOpen = true) : (c.feed id).isOpen = true := by
  obtain heq | ⟨-, -, events, -, -, -, heq⟩ | ⟨-, heq⟩ | ⟨-, heq⟩ := hc.feed_cases a id
  · rwa [heq] at h
  · rwa [heq, Feed.isOpen_foldl_deliver] at h
  · rwa [heq, (c.feed id).take_keeps.1] at h
  · rw [heq] at h
    cases h

/-! ## What is known of the feeds -/

/-- The state of the feeds while nothing is revived; `past` are the events that were delivered. -/
structure Sound (streams : List (UInt16 × String)) (past : FeedId → List Feed.Event)
    (c : Catalog) : Prop where
  ownFeeds : c.OwnFeeds
  mem_streams : ∀ {i name}, c.byIndex.get? i = some name → (i, name) ∈ streams
  streams_inj : ∀ {i j name}, (i, name) ∈ streams → (j, name) ∈ streams → i = j
  /-- No index leads to a result set that is over. -/
  byIndex_ne : ∀ {i name}, c.isFinished name = true → c.byIndex.get? i ≠ some name
  unfinished : ∀ {name e}, c.entries.get? name = some e → e.finished = false →
    ∀ event ∈ past e.feed, event.isRecord = true
  finished : ∀ {name e}, c.entries.get? name = some e → e.finished = true →
    (c.feed e.feed).isOpen = true → .endOfRecords ∈ past e.feed
  whole : ∀ id, Feed.Whole (past id)
  fresh : ∀ {id}, c.feeds.size ≤ id → past id = []

variable {streams : List (UInt16 × String)} {past : FeedId → List Feed.Event}

/-- Nothing was delivered before anything happens. -/
theorem sound_ofLimit (limit : Nat) : (ofLimit limit).Sound [] fun _ => [] where
  ownFeeds := ⟨nofun, nofun⟩
  mem_streams := fun h => by cases h
  streams_inj := fun h => by cases h
  byIndex_ne := fun h => by cases h
  unfinished := fun h => by cases h
  finished := fun h => by cases h
  whole := fun _ => Feed.whole_nil
  fresh := fun _ => rfl

/-- A result set that is streamed is not over. -/
theorem Sound.unfinished_of_streamed (hc : c.Sound streams past) {i : UInt16}
    (hs : c.streamed? i = some (name, e)) : e.finished = false := by
  obtain ⟨hi, he⟩ := streamed?_eq_some.1 hs
  rw [Bool.eq_false_iff]
  exact fun hfinished => hc.byIndex_ne (isFinished_iff.2 ⟨e, he, hfinished⟩) hi

/-- A feed that is delivered to belongs to a result set that is not over, which has got records so
far. -/
theorem Sound.whole_act (hc : c.Sound streams past) (a : Action) (id : FeedId) :
    Feed.Whole (past id ++ delivered id c a) := by
  obtain hnone | ⟨name, e, he, rfl, hfeeds⟩ := delivery_cases hc.ownFeeds a id
  · rw [hnone, List.append_nil]
    exact hc.whole id
  · generalize delivered e.feed c a = events at hfeeds
    cases hfeeds with
    | piece hs =>
      refine Feed.Whole.append_left ⟨[_], none, rfl, by simp⟩ ?_
      exact hc.unfinished he (hc.unfinished_of_streamed hs)
    | bye hs =>
      refine Feed.Whole.append_left ⟨e.leftovers, some .endOfRecords, rfl, ?_⟩ ?_
      · simp [Feed.Event.isRecord]
      · exact hc.unfinished he (hc.unfinished_of_streamed hs)
    | terminate hfinished =>
      refine Feed.Whole.append_left ⟨[], some (.cutOff _), rfl, ?_⟩ ?_
      · simp [Feed.Event.isRecord]
      · exact hc.unfinished he hfinished

/-- A result set that is not over after an action has got nothing but records by then. -/
theorem Sound.unfinished_act (hc : c.Sound streams past) (a : Action)
    (he : (c.act a).entries.get? name = some e) (hfinished : e.finished = false) :
    ∀ event ∈ past e.feed ++ delivered e.feed c a, event.isRecord = true := by
  intro event hevent
  obtain ⟨old, hold, hfeed, hover⟩ | ⟨⟨-, -, hfeed⟩, -⟩ := (c.act_origin a).2 name e he
  · obtain hpast | hnew := List.mem_append.1 hevent
    · rw [hfeed] at hpast
      exact hc.unfinished hold (hover hfinished) event hpast
    · obtain hnone | ⟨name', e', he', hsame, hfeeds⟩ := delivery_cases hc.ownFeeds a e.feed
      · rw [hnone] at hnew
        cases hnew
      · generalize delivered e.feed c a = events at hfeeds hnew
        cases hfeeds with
        | piece hs =>
          obtain rfl := List.mem_singleton.1 hnew
          rfl
        | bye hs =>
          -- the end of a result set leaves it over
          rw [hc.ownFeeds.finished_of_bye hs he hsame.symm] at hfinished
          cases hfinished
        | terminate => cases he
  · -- a new feed has got nothing
    rw [hfeed, hc.fresh (Nat.le_refl _), List.nil_append] at hevent
    obtain hnone | ⟨name', e', he', hsame, -⟩ := delivery_cases hc.ownFeeds a c.feeds.size
    · rw [hnone] at hevent
      cases hevent
    · exact absurd (hc.ownFeeds.lt he') (by rw [hsame]; exact Nat.lt_irrefl _)

/-- A result set that is over after an action has got its end by then, if somebody listens. -/
theorem Sound.finished_act (hc : c.Sound streams past) (a : Action)
    (he : (c.act a).entries.get? name = some e) (hfinished : e.finished = true)
    (hopen : ((c.act a).feed e.feed).isOpen = true) :
    .endOfRecords ∈ past e.feed ++ delivered e.feed c a := by
  replace hopen := isOpen_of_act hc.ownFeeds a e.feed hopen
  obtain hover | ⟨j, old, rfl, hs⟩ := c.finished_origin a he hfinished
  · -- it was over before, and has kept its feed
    obtain ⟨old, hold, hoverold⟩ := isFinished_iff.1 hover
    obtain ⟨old', hold', hfeed, -⟩ | ⟨⟨-, hnone, -⟩, -⟩ := (c.act_origin a).2 name e he
    · obtain rfl : old' = old := Option.some.inj (hold'.symm.trans hold)
      rw [hfeed] at hopen ⊢
      exact List.mem_append_left _ (hc.finished hold hoverold hopen)
    · rw [hold] at hnone
      cases hnone
  · obtain ⟨old', hold', hfeed, -⟩ | ⟨⟨h | ⟨i, h⟩, -, -⟩, -⟩ := (c.act_origin _).2 name e he
    · obtain rfl : old' = old := Option.some.inj (hold'.symm.trans (streamed?_eq_some.1 hs).2)
      rw [hfeed] at hopen ⊢
      rw [delivered_bye hc.ownFeeds hs, if_pos hopen, Entry.closing]
      simp
    · cases h
    · cases h

/-- What is known of the feeds stays true as long as nothing is revived. -/
theorem Sound.act (hc : c.Sound streams past) (ha : a.Timely streams)
    (hrevives : c.revives a = false) :
    (c.act a).Sound (a.streams streams) fun id => past id ++ delivered id c a where
  ownFeeds := hc.ownFeeds.act a
  mem_streams := by
    intro i name h
    obtain ⟨hold, hbye⟩ | rfl := c.byIndex_origin a h
    · have hmem := hc.mem_streams hold
      cases a with
      | hello j m => exact List.mem_cons_of_mem _ hmem
      | bye j =>
        exact List.mem_filter.2 ⟨hmem, decide_eq_true fun hij => hbye (congrArg _ hij.symm)⟩
      | _ => exact hmem
    · exact List.mem_cons_self
  streams_inj := by
    intro i j name hi hj
    cases a with
    | hello k m =>
      -- the name that is announced is not streamed under another index
      obtain heqi | holdi := List.mem_cons.1 hi
      · obtain heqj | holdj := List.mem_cons.1 hj
        · cases heqi
          cases heqj
          rfl
        · cases heqi
          exact absurd rfl (ha _ holdj).2
      · obtain heqj | holdj := List.mem_cons.1 hj
        · cases heqj
          exact absurd rfl (ha _ holdi).2
        · exact hc.streams_inj holdi holdj
    | bye k => exact hc.streams_inj (List.mem_filter.1 hi).1 (List.mem_filter.1 hj).1
    | _ => exact hc.streams_inj hi hj
  byIndex_ne := by
    intro i name hfinished h
    obtain ⟨e, he, hover⟩ := isFinished_iff.1 hfinished
    obtain hold | ⟨j, old, rfl, hs⟩ := c.finished_origin a he hover
    · obtain ⟨hleads, -⟩ | rfl := c.byIndex_origin a h
      · exact hc.byIndex_ne hold hleads
      · -- an announcement of what is over would revive it
        rw [revives, hold] at hrevives
        cases hrevives
    · -- the only index that led to it is free now
      obtain ⟨hleads, hbye⟩ | heq := c.byIndex_origin _ h
      · have hj := (streamed?_eq_some.1 hs).1
        rw [hc.streams_inj (hc.mem_streams hj) (hc.mem_streams hleads)] at hbye
        exact hbye rfl
      · cases heq
  unfinished := hc.unfinished_act a
  finished := hc.finished_act a
  whole := hc.whole_act a
  fresh := by
    intro id hid
    have hle := Nat.le_trans (c.act_origin a).1 hid
    obtain hnone | ⟨name, e, he, rfl, -⟩ := delivery_cases hc.ownFeeds a id
    · rw [hc.fresh hle, hnone, List.append_nil]
    · exact absurd (hc.ownFeeds.lt he) (Nat.not_lt.2 hle)

/-- So it is after a run. -/
theorem Sound.run {as : List Action} (hc : c.Sound streams past) (has : Successive streams as)
    (hrevives : c.Unrevived as) :
    ∃ streams', (c.run as).Sound streams' fun id => past id ++ deliveries id c as := by
  induction as generalizing c streams past with
  | nil =>
    have hpast : (fun id => past id ++ deliveries id c []) = past := by
      funext id
      exact List.append_nil _
    exact ⟨streams, by rw [hpast]; exact hc⟩
  | cons a as ih =>
    obtain ⟨streams', hrest⟩ := ih (hc.act has.1 hrevives.1) has.2 hrevives.2
    refine ⟨streams', ?_⟩
    simp only [deliveries, ← List.append_assoc]
    exact hrest

/-- The end of a result set that was revived goes into the feed that has its first end. -/
theorem delivered_revived (hc : c.OwnFeeds) (habsent : c.DiscardsAbsent)
    (he : c.entries.get? name = some e) (hopen : (c.feed e.feed).isOpen = true) (i : UInt16) :
    deliveries e.feed c [.hello i name, .bye i] = e.closing := by
  have hname : name ∉ c.discarded := by
    intro hmem
    rw [habsent name hmem] at he
    cases he
  have hentry : c.entry name = (e, c) := by simp only [entry, he]
  let d : Entry := { e with index := some i }
  have hact : c.act (.hello i name) =
      { c.setEntry name d with byIndex := c.byIndex.insert i name } := by
    rw [act, hello_announces hname, hentry]
  have hs : (c.act (.hello i name)).streamed? i = some (name, d) := by
    refine streamed?_eq_some.2 ⟨?_, ?_⟩
    · rw [hact, Dict.get?_insert, if_pos rfl]
    · rw [hact, setEntry_entries, Dict.get?_insert, if_pos rfl]
  have hbye := delivered_bye (hc.act (.hello i name)) hs
  have hopen' : ((c.act (.hello i name)).feed d.feed).isOpen = true := by
    rw [act, feed_hello]
    exact hopen
  rw [if_pos hopen'] at hbye
  have hhello : delivered e.feed c (.hello i name) = [] :=
    delivered_of_feed_eq (c.feed_hello i name e.feed)
  calc deliveries e.feed c [.hello i name, .bye i]
      = delivered e.feed c (.hello i name) ++
          (delivered d.feed (c.act (.hello i name)) (.bye i) ++ []) := rfl
    _ = e.closing := by
      rw [hhello, hbye, List.nil_append, List.append_nil]
      rfl

/-- As long as nothing is revived every feed gets records and at most one end. When a result set is
revived, by an announcement that keeps to the order, its feed gets another end after the first. -/
theorem whole_unless_revived (limit : Nat) (as : List Action) (has : Successive [] as)
    (hrevives : (ofLimit limit).Unrevived as) :
    (∀ id, Feed.Whole (deliveries id (ofLimit limit) as)) ∧
    ∀ i name e, Successive [] (as ++ [.hello i name, .bye i]) →
      ((ofLimit limit).run as).entries.get? name = some e → e.finished = true →
      (((ofLimit limit).run as).feed e.feed).isOpen = true →
      ¬ Feed.Whole (deliveries e.feed (ofLimit limit) (as ++ [.hello i name, .bye i])) := by
  obtain ⟨streams, hsound⟩ := (sound_ofLimit limit).run has hrevives
  simp only [List.nil_append] at hsound
  refine ⟨hsound.whole, fun i name e _ he hfinished hopen => ?_⟩
  have habsent := DiscardsAbsent.run (inOrder_ofLimit limit).discardsAbsent as
  have hend := hsound.finished he hfinished hopen
  rw [deliveries_append, delivered_revived hsound.ownFeeds habsent he hopen i]
  exact Feed.not_whole_append hend (by simp [Entry.closing])

/-- A name that is announced again after its result set was claimed and ended. -/
def renewed : List Action :=
  [.hello 1 "a", .connect "a", .bye 1, .hello 1 "a", .piece 1 0 [7], .bye 1]

/-- The feeds stay whole, until the second result set is revived. -/
theorem whole_unless_revived_renewed :
    Successive [] renewed ∧ (ofLimit 1).Unrevived renewed ∧
      Feed.Whole (deliveries 1 (ofLimit 1) renewed) ∧
      Successive [] (renewed ++ [.hello 2 "a", .bye 2]) ∧
      ((ofLimit 1).run renewed).isFinished "a" = true ∧
      ¬ Feed.Whole (deliveries 1 (ofLimit 1) (renewed ++ [.hello 2 "a", .bye 2])) := by
  have has : Successive [] renewed := by decide
  have hrevives : (ofLimit 1).Unrevived renewed := by decide +kernel
  have hagain : Successive [] (renewed ++ [.hello 2 "a", .bye 2]) := by decide
  obtain ⟨hwhole, hbroken⟩ := whole_unless_revived 1 renewed has hrevives
  have hover : ((ofLimit 1).run renewed).isFinished "a" = true := by decide +kernel
  obtain ⟨e, he, hfinished⟩ := isFinished_iff.1 hover
  have hfeed : e.feed = 1 := by
    have hget : (((ofLimit 1).run renewed).entries.get? "a").map Entry.feed = some 1 := by
      decide +kernel
    rw [he] at hget
    exact Option.some.inj hget
  have hopen : (((ofLimit 1).run renewed).feed e.feed).isOpen = true := by
    rw [hfeed]
    decide +kernel
  have hrevived := hbroken 2 "a" e hagain he hfinished hopen
  rw [hfeed] at hrevived
  exact ⟨has, hrevives, hwhole 1, hagain, hover, hrevived⟩

/-- The result set that was announced first is over, and its feed gets the record of the second one
after its end. -/
theorem not_whole_announced_again :
    let as : List Action := [.hello 1 "rs", .bye 1, .hello 2 "rs", .piece 2 0 [7], .piece 2 0 []]
    Successive [] as ∧ deliveries 0 (ofLimit 1) as = [.endOfRecords, .record [7]] ∧
      ¬ Feed.Whole (deliveries 0 (ofLimit 1) as) := by
  intro as
  have has : Successive [] as := by decide
  have hgot : deliveries 0 (ofLimit 1) as = [.endOfRecords, .record [7]] := by decide +kernel
  have hmerged : ¬ Feed.Whole ([.endOfRecords] ++ [.record [7]]) :=
    Feed.not_whole_append List.mem_cons_self (List.cons_ne_nil _ _)
  rw [hgot]
  exact ⟨has, rfl, hmerged⟩

end Catalog

end QueryLink
