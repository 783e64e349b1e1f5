import QueryLink.Proofs.CatalogRuns
import QueryLink.Proofs.CursorClose
import QueryLink.Script.Run

/-!
# What a consumer does

A consumer that connects asks the catalog for a feed; one that reads takes events from the front
of its feed and changes nothing else; one that closes lets go of its feed and leaves by its name.
How much is read, by which operation and in how many attempts makes no difference to this.

## Key results

- `Reads.trans`, `next_reads`, `fill_reads`, `drain_reads`: reading only takes events
- `close_cases`: what closing a cursor does
- `playCursor_moves`: everything a step at a cursor can do
-/

namespace QueryLink

/-- The second exchange differs from the first one at most in who was roused and in whether the
pump stopped reading. -/
def Exchange.Alike (x x' : Exchange) : Prop :=
  ∃ readerParked roused, x' = { x with readerParked, roused }

theorem Exchange.Alike.refl (x : Exchange) : x.Alike x := ⟨x.readerParked, x.roused, rfl⟩

theorem Exchange.alike_wakeReader (x : Exchange) : x.Alike x.wakeReader := by
  unfold wakeReader
  split
  · exact ⟨false, _, rfl⟩
  · exact .refl x

/-- The second catalog is the first one after events were taken from the front of a feed. -/
structure Catalog.Read (c : Catalog) (feed : Option FeedId) (c' : Catalog) : Prop where
  registry : c'.registry = c.registry
  size : c'.feeds.size = c.feeds.size
  isOpen : ∀ id, (c'.feed id).isOpen = (c.feed id).isOpen
  other : ∀ id, feed ≠ some id → c'.feed id = c.feed id
  own : ∀ id, ∃ n, (c'.feed id).queue = (c.feed id).queue.drop n
  takes : ∃ ids : List FeedId, c' = c.run (ids.map .take)

namespace Catalog.Read

variable {c c' c'' : Catalog} {feed : Option FeedId}

theorem refl (c : Catalog) (feed : Option FeedId) : c.Read feed c :=
  ⟨rfl, rfl, fun _ => rfl, fun _ _ => rfl, fun _ => ⟨0, rfl⟩, [], rfl⟩

theorem trans (h : c.Read feed c') (h' : c'.Read feed c'') : c.Read feed c'' where
  registry := h'.registry.trans h.registry
  size := h'.size.trans h.size
  isOpen id := (h'.isOpen id).trans (h.isOpen id)
  other id hne := (h'.other id hne).trans (h.other id hne)
  own id := by
    obtain ⟨n, hn⟩ := h.own id
    obtain ⟨m, hm⟩ := h'.own id
    exact ⟨n + m, by rw [hm, hn, List.drop_drop]⟩
  takes := by
    obtain ⟨ids, rfl⟩ := h.takes
    obtain ⟨more, rfl⟩ := h'.takes
    exact ⟨ids ++ more, by rw [List.map_append, Catalog.run_append]⟩

end Catalog.Read

namespace Cursor

/-- A state in which no event can come any more. -/
def State.IsOver (s : State) : Prop :=
  s = .endOfRecords ∨ s = .closed ∨ s = .crashed

/-- The second cursor and exchange are the first ones after the consumer read, or tried to. -/
structure Reads (c : Cursor) (x : Exchange) (c' : Cursor) (x' : Exchange) : Prop where
  name : c'.name = c.name
  feed : c'.feed = c.feed
  isOver : c.state.IsOver → c'.state = c.state
  exchange : ∃ catalog readerParked roused, x.catalog.Read c.feed catalog ∧
    x' = { x with catalog, readerParked, roused }

variable {c c' c'' : Cursor} {x x' x'' : Exchange}

theorem Reads.refl (c : Cursor) (x : Exchange) : c.Reads x c x :=
  ⟨rfl, rfl, fun _ => rfl, x.catalog, x.readerParked, x.roused, .refl _ _, rfl⟩

/-- Reading may go on where it stopped. -/
theorem Reads.trans (h : c.Reads x c' x') (h' : c'.Reads x' c'' x'') : c.Reads x c'' x'' where
  name := h'.name.trans h.name
  feed := h'.feed.trans h.feed
  isOver hover := by
    have hstate := h.isOver hover
    rw [← hstate] at hover
    exact (h'.isOver hover).trans hstate
  exchange := by
    obtain ⟨catalog, _, _, hread, rfl⟩ := h.exchange
    obtain ⟨catalog', parked, roused, hread', rfl⟩ := h'.exchange
    rw [h.feed] at hread'
    exact ⟨catalog', parked, roused, hread.trans hread', rfl⟩

/-- What is left of a record is the consumer's own affair. -/
theorem Reads.keep (h : c.Reads x c' x') (current : Bytes) :
    c.Reads x { c' with current } x' :=
  ⟨h.name, h.feed, h.isOver, h.exchange⟩

/-- Taking an event takes it from the front of the feed. -/
theorem takeEvent_read (x : Exchange) (id : FeedId) :
    ∃ catalog readerParked roused, x.catalog.Read (some id) catalog ∧
      (takeEvent x id).2 = { x with catalog, readerParked, roused } := by
  have hread : x.catalog.Read (some id)
      (x.catalog.modifyFeed id fun _ => (x.catalog.feed id).take.2) := by
    obtain ⟨hopen, hqueue⟩ := (x.catalog.feed id).take_keeps
    refine ⟨rfl, Catalog.size_modifyFeed .., fun other => ?_, fun other hne => ?_, fun other => ?_,
      [id], x.catalog.modifyFeed_const id fun f => f.take.2⟩
    · rw [Catalog.feed_modifyFeed]
      split
      · rename_i hand
        rw [hopen, hand.1]
      · rfl
    · exact Catalog.feed_modifyFeed_ne _ (fun heq => hne (by rw [heq])) _
    · rw [Catalog.feed_modifyFeed]
      split
      · rename_i hand
        exact ⟨1, by rw [hqueue, hand.1]⟩
      · exact ⟨0, rfl⟩
  unfold takeEvent
  dsimp only
  split
  · split
    · -- the feed was full, so the pump may read on
      obtain ⟨parked, roused, hwake⟩ := Exchange.alike_wakeReader
        { x with catalog := x.catalog.modifyFeed id fun _ => (x.catalog.feed id).take.2 }
      exact ⟨_, parked, roused, hread, hwake⟩
    · exact ⟨_, x.readerParked, x.roused, hread, rfl⟩
  · exact ⟨_, x.readerParked, x.roused, hread, rfl⟩

/-- A cursor whose state can still change is not over. -/
private theorem not_isOver_of_settled?_eq_none {s : State} (h : settled? s = none) :
    ¬ s.IsOver := by
  rintro (rfl | rfl | rfl) <;> cases h

/-- Reading the next record takes at most one event. -/
theorem next_reads (c : Cursor) (x : Exchange) : c.Reads x (c.next x).2.1 (c.next x).2.2 := by
  unfold next
  split
  · exact (Reads.refl c x).keep []
  · split
    · exact .refl c x
    · exact .refl c x
    · rename_i id hsettled hfeed
      have hstill := not_isOver_of_settled?_eq_none hsettled
      have hexchange := takeEvent_read x id
      rw [← hfeed] at hexchange
      -- whatever the event is, it may only change the state of a cursor that is not over
      split <;> rename_i htake <;> rw [htake] at hexchange
      · exact ⟨rfl, rfl, fun hover => absurd hover hstill, hexchange⟩
      · exact ⟨rfl, rfl, fun hover => absurd hover hstill, hexchange⟩
      · exact ⟨rfl, rfl, fun hover => absurd hover hstill, hexchange⟩
      · exact ⟨rfl, rfl, fun hover => absurd hover hstill, hexchange⟩
      · split
        · exact ⟨rfl, rfl, fun hover => absurd hover hstill, hexchange⟩
        · exact ⟨rfl, rfl, fun hover => absurd hover hstill, hexchange⟩

theorem nextItem_reads (c : Cursor) (x : Exchange) :
    c.Reads x (c.nextItem x).2.1 (c.nextItem x).2.2 := by
  have hnext := c.next_reads x
  unfold nextItem
  dsimp only
  split
  · exact .refl c x
  · split <;> rename_i heq <;> rw [heq] at hnext <;> exact hnext

/-- Looking for a record reads on through empty ones. -/
theorem fill_reads (fuel : Nat) (c : Cursor) (x : Exchange) :
    c.Reads x (fill fuel c x).2.1 (fill fuel c x).2.2 := by
  induction fuel generalizing c x with
  | zero => exact .refl c x
  | succ fuel ih =>
    have hnext := c.next_reads x
    unfold fill
    split
    · rename_i heq
      rw [heq] at hnext
      exact hnext.trans (ih _ _)
    · exact hnext

theorem read_reads (c : Cursor) (x : Exchange) (n : Nat) :
    c.Reads x (c.read x n).2.1 (c.read x n).2.2 := by
  have hfill := fill_reads (c.backlog x) c x
  unfold read
  split
  · exact .refl c x
  · split <;> rename_i heq <;> rw [heq] at hfill
    · exact hfill
    · exact hfill
    · exact hfill
    · exact hfill.keep _

/-- Reading to the end reads record after record. -/
theorem drain_reads (fuel : Nat) (c : Cursor) (x : Exchange) :
    c.Reads x (drain fuel c x).2.2.1 (drain fuel c x).2.2.2 := by
  induction fuel generalizing c x with
  | zero => exact .refl c x
  | succ fuel ih =>
    have hnext := c.next_reads x
    unfold drain
    split <;> rename_i heq <;> rw [heq] at hnext
    · exact hnext.trans (ih _ _)
    · exact hnext
    · exact hnext
    · exact hnext

/-- The catalog after a consumer with a name and a feed, if it has them, let go of the feed and
left by the name. -/
def leave (c : Cursor) (catalog : Catalog) : Catalog :=
  let left := c.name.elim catalog catalog.disconnect
  c.feed.elim left fun id => left.modifyFeed id Feed.close

/-- A cursor that is closed already stays as it is, and changes nothing. Another one leaves. -/
theorem close_cases (c : Cursor) (x : Exchange) :
    c.state = .closed ∧ c.close x = (c, x) ∨
    c.state ≠ .closed ∧ ∃ readerParked roused,
      c.close x = ({ c with state := .closed, feed := none, current := [] },
        { x with catalog := c.leave x.catalog, readerParked, roused }) := by
  by_cases hstate : c.state = .closed
  · exact .inl ⟨hstate, close_of_closed hstate x⟩
  · refine .inr ⟨hstate, ?_⟩
    unfold close leave
    split
    · exact absurd ‹c.state = .closed› hstate
    · cases c.name with
      | none =>
        cases c.feed with
        | none => exact ⟨x.readerParked, x.roused, rfl⟩
        | some id => exact ⟨x.readerParked, x.roused, rfl⟩
      | some name =>
        -- the feed is let go of first, but the books do not depend on feeds
        cases c.feed with
        | none =>
          obtain ⟨parked, roused, hwake⟩ := Exchange.alike_wakeReader
            { x with catalog := x.catalog.disconnect name }
          exact ⟨parked, roused, congrArg (Prod.mk _) hwake⟩
        | some id =>
          obtain ⟨parked, roused, hwake⟩ := Exchange.alike_wakeReader
            { x with catalog := (x.catalog.disconnect name).modifyFeed id Feed.close }
          refine ⟨parked, roused, congrArg (Prod.mk _) ?_⟩
          simp only [Catalog.disconnect_modifyFeed]
          exact hwake

/-- A consumer is refused, or gets the feed of a result set. -/
theorem connect_cases (c : Cursor) (x : Exchange) (name : String) :
    (∃ e, c.connect x name = (.error e, c, x)) ∨
    ∃ feed catalog, x.closed = false ∧ x.catalog.connect name = .ok (feed, catalog) ∧
      c.connect x name =
        (.ok (), { c with state := .connecting, name := some name, feed := some feed },
          { x with catalog }) := by
  unfold connect
  split
  · exact .inl ⟨_, rfl⟩
  · split
    · split
      · exact .inl ⟨_, rfl⟩
      · rename_i hopen
        rw [Bool.not_eq_true] at hopen
        split
        · exact .inl ⟨_, rfl⟩
        · rename_i feed catalog hconnect
          exact .inr ⟨feed, catalog, hopen, hconnect, rfl⟩
    · exact .inl ⟨_, rfl⟩
    · exact .inl ⟨_, rfl⟩

/-- Everything a step at a cursor can do. -/
inductive Moves (c : Cursor) (x : Exchange) : Script.CursorStep → Cursor → Exchange → Prop
  | reads {step c' x'} (hstep : step ≠ .close) (h : c.Reads x c' x') : Moves c x step c' x'
  | connects {name feed catalog} (hopen : x.closed = false)
      (hconnect : x.catalog.connect name = .ok (feed, catalog)) :
      Moves c x (.connect name)
        { c with state := .connecting, name := some name, feed := some feed } { x with catalog }
  | stays (hstate : c.state = .closed) : Moves c x .close c x
  | leaves {readerParked roused} (hstate : c.state ≠ .closed) :
      Moves c x .close { c with state := .closed, feed := none, current := [] }
        { x with catalog := c.leave x.catalog, readerParked, roused }

/-- No step at a cursor concerns requests. -/
theorem Moves.frame {step : Script.CursorStep} (h : c.Moves x step c' x') :
    ∃ catalog readerParked roused, x' = { x with catalog, readerParked, roused } := by
  cases h with
  | reads hstep h =>
    obtain ⟨catalog, parked, roused, -, heq⟩ := h.exchange
    exact ⟨catalog, parked, roused, heq⟩
  | connects hopen hconnect => exact ⟨_, x.readerParked, x.roused, rfl⟩
  | stays hstate => exact ⟨x.catalog, x.readerParked, x.roused, rfl⟩
  | leaves hstate => exact ⟨_, _, _, rfl⟩

theorem playCursor_moves (c : Cursor) (x : Exchange) (step : Script.CursorStep) :
    c.Moves x step (Script.Stage.playCursor c x step).2.2.1
      (Script.Stage.playCursor c x step).2.2.2 := by
  cases step with
  | connect name =>
    simp only [Script.Stage.playCursor]
    obtain ⟨e, heq⟩ | ⟨feed, catalog, hopen, hconnect, heq⟩ := c.connect_cases x name
    · rw [heq]
      exact .reads (by simp) (.refl c x)
    · rw [heq]
      exact .connects hopen hconnect
  | next => exact .reads (by simp) (c.next_reads x)
  | nextItem =>
    have hitem := c.nextItem_reads x
    simp only [Script.Stage.playCursor]
    split <;> rename_i heq <;> rw [heq] at hitem <;> exact .reads (by simp) hitem
  | read n => exact .reads (by simp) (c.read_reads x n)
  | readToEnd => exact .reads (by simp) (drain_reads (c.backlog x) c x)
  | close =>
    simp only [Script.Stage.playCursor]
    obtain ⟨hstate, heq⟩ | ⟨hstate, parked, roused, heq⟩ := c.close_cases x
    · rw [heq]
      exact .stays hstate
    · rw [heq]
      exact .leaves hstate

end Cursor

end QueryLink
