import QueryLink.Proofs.FeedHistory

/-!
# Backlogs

A feed counts the records in it that its consumer has not taken. The server adds to the count and
the consumer takes from it, each on its own; `Counted` says that the two agree on what is there.
The pump looks at all feeds before it reads a frame, and reads none while a result set that is not
over has a full feed, so that no frame can take one beyond the limit.

## Key results

- `Feed.Counted`: the count of a feed that somebody listens to is that of its records
- `Metered.act`: what consumers do, and a frame that is read while no feed is full
- `Effect.catalog_cases`: every step of a session does one or the other
- `backlog_run`: counts and bounds after any run
-/

namespace QueryLink

namespace Feed

/-- The count is that of the records that wait, and nothing waits where nobody listens. -/
structure Counted (f : Feed) : Prop where
  count_eq : f.isOpen = true → f.count = f.queue.countP Event.isRecord
  queue_eq : f.isOpen = false → f.queue = []

variable {f : Feed}

theorem counted_empty : Counted {} := ⟨fun _ => rfl, nofun⟩

/-- An event is counted if it is a record. -/
theorem Counted.deliver (h : f.Counted) (event : Event) : (f.deliver event).Counted := by
  constructor
  · intro hopen
    replace hopen : f.isOpen = true := hopen
    have hcount := h.count_eq hopen
    simp only [Feed.deliver, hopen, if_true, List.countP_append, List.countP_singleton]
    split
    · omega
    · omega
  · intro hclosed
    replace hclosed : f.isOpen = false := hclosed
    simpa [Feed.deliver, hclosed] using h.queue_eq hclosed

theorem Counted.foldl_deliver (h : f.Counted) (events : List Event) :
    (events.foldl Feed.deliver f).Counted := by
  induction events generalizing f with
  | nil => exact h
  | cons event events ih => exact ih (h.deliver event)

/-- A record that is taken was counted. -/
theorem Counted.count_take (h : f.Counted) {bytes : Bytes}
    (htake : f.take.1 = some (.record bytes)) : f.take.2.count + 1 = f.count := by
  unfold take at htake ⊢
  split at htake
  · cases htake
  · rename_i event queue hqueue
    cases htake
    have hopen : f.isOpen = true := by
      rw [← Bool.not_eq_false]
      intro hclosed
      rw [h.queue_eq hclosed] at hqueue
      cases hqueue
    have hcount := h.count_eq hopen
    rw [hqueue, List.countP_cons_of_pos rfl] at hcount
    simp only [Event.isRecord, if_true]
    omega

/-- What is left is counted then. -/
theorem Counted.take (h : f.Counted) : f.take.2.Counted := by
  constructor
  · intro hopen
    rw [f.take_keeps.1] at hopen
    have hcount := h.count_eq hopen
    unfold Feed.take
    split
    · exact hcount
    · rename_i event queue hqueue
      rw [hqueue, List.countP_cons] at hcount
      dsimp only
      split <;> rename_i hrecord
      · rw [if_pos hrecord] at hcount
        omega
      · rw [if_neg hrecord] at hcount
        omega
  · intro hclosed
    rw [f.take_keeps.1] at hclosed
    rw [f.take_keeps.2, h.queue_eq hclosed]
    rfl

theorem count_take_le (f : Feed) : f.take.2.count ≤ f.count := by
  unfold Feed.take
  split
  · exact Nat.le_refl _
  · dsimp only
    split <;> omega

/-- When the consumer goes nothing waits any more. -/
theorem counted_close (f : Feed) : f.close.Counted := ⟨nofun, fun _ => rfl⟩

end Feed

namespace Catalog

/-- All feeds are counted, and a result set that is not over has a backlog of at most the limit. -/
structure Metered (c : Catalog) : Prop where
  own : c.OwnFeeds
  counted : ∀ id, (c.feed id).Counted
  bounded : ∀ {name e}, c.entries.get? name = some e → e.finished = false →
    (c.feed e.feed).count ≤ c.limit

variable {c : Catalog} {a : Action}

theorem metered_ofLimit (limit : Nat) : (ofLimit limit).Metered where
  own := ⟨nofun, nofun⟩
  counted := fun id => by
    rw [feed_of_le (Nat.zero_le id)]
    exact Feed.counted_empty
  bounded := nofun

/-- Whatever happens, the counts stay right. -/
theorem Metered.counted_act (hc : c.Metered) (a : Action) (id : FeedId) :
    ((c.act a).feed id).Counted := by
  have hold := hc.counted id
  obtain heq | ⟨-, -, events, -, -, -, heq⟩ | ⟨-, heq⟩ | ⟨-, heq⟩ := hc.own.feed_cases a id
  · rwa [heq]
  · rw [heq]
    exact hold.foldl_deliver events
  · rw [heq]
    exact hold.take
  · rw [heq]
    exact Feed.counted_close _

/-- A piece adds at most one record to a feed. -/
theorem count_piece_le (c : Catalog) (i : UInt16) (w : UInt8) (bytes : Bytes) (id : FeedId) :
    ((c.piece i w bytes).feed id).count ≤ (c.feed id).count + 1 := by
  obtain hsame | ⟨record, hgot⟩ := c.feed_piece i w bytes id
  · rw [hsame]
    exact Nat.le_succ _
  · rw [hgot]
    exact Nat.le_refl _

/-- While no feed is full, a result set that is not over has room for a record. -/
theorem count_lt_of_not_saturated (h : c.isSaturated = false) {name : String} {e : Entry}
    (he : c.entries.get? name = some e) (hfinished : e.finished = false) :
    (c.feed e.feed).count < c.limit := by
  have hroom := List.any_eq_false.1 h e (Dict.mem_values_iff.2 ⟨name, he⟩)
  simpa [hfinished, Feed.isFull] using hroom

/-- Whether a frame brings a piece of a record. -/
def Action.isPiece : Action → Bool
  | .piece _ _ _ => true
  | _ => false

/-- A result set that is not over after an action other than a piece has got no more records. -/
theorem Metered.count_act_le (hc : c.Metered) (ha : a.isPiece = false) {name : String} {e : Entry}
    (he : (c.act a).entries.get? name = some e) (hfinished : e.finished = false) :
    ((c.act a).feed e.feed).count ≤ (c.feed e.feed).count := by
  obtain heq | ⟨m, d, events, -, hfeed, hfeeds, -⟩ | ⟨-, heq⟩ | ⟨-, heq⟩ :=
    hc.own.feed_cases a e.feed
  · exact Nat.le_of_eq (congrArg Feed.count heq)
  · cases hfeeds with
    | piece => cases ha
    | bye hs =>
      -- the result set that ends is over then
      rw [hc.own.finished_of_bye hs he hfeed.symm] at hfinished
      cases hfinished
    | terminate => cases he
  · rw [heq]
    exact (c.feed e.feed).count_take_le
  · rw [heq]
    exact Nat.le_refl _

/-- Backlogs stay within the limit if pieces only come while no feed is full. -/
theorem Metered.act (hc : c.Metered) (ha : a.isPiece = true → c.isSaturated = false) :
    (c.act a).Metered := by
  refine ⟨hc.own.act a, hc.counted_act a, fun {name e} he hfinished => ?_⟩
  rw [limit_act]
  obtain ⟨old, hold, hfeed, hstill⟩ | ⟨⟨hcause, -, hnew⟩, -⟩ := (c.act_origin a).2 name e he
  · cases hpiece : a.isPiece with
    | true =>
      -- there was room for one record, and a piece brings no more than that
      have hroom := count_lt_of_not_saturated (ha hpiece) hold (hstill hfinished)
      cases a with
      | piece i w bytes =>
        have hone := c.count_piece_le i w bytes old.feed
        rw [hfeed, Catalog.act]
        omega
      | _ => cases hpiece
    | false =>
      have hless := hc.count_act_le hpiece he hfinished
      have hwithin := hc.bounded hold (hstill hfinished)
      rw [hfeed] at hless ⊢
      omega
  · -- a feed that was not there had no records, and what makes it brings none
    have hpiece : a.isPiece = false := by
      obtain rfl | ⟨i, rfl⟩ := hcause <;> rfl
    have hless := hc.count_act_le hpiece he hfinished
    rw [hnew, feed_of_le (Nat.le_refl _)] at hless
    rw [hnew]
    exact Nat.le_trans hless (Nat.zero_le _)

/-- Without pieces they stay within it anyway. -/
theorem Metered.run (hc : c.Metered) {as : List Action} (has : ∀ a ∈ as, a.isPiece = false) :
    (c.run as).Metered := by
  induction as generalizing c with
  | nil => exact hc
  | cons a as ih =>
    obtain ⟨ha, hrest⟩ := List.forall_mem_cons.1 has
    exact ih (hc.act fun hpiece => Bool.noConfusion (ha.symm.trans hpiece)) hrest

end Catalog

/-! ## Sessions -/

/-- A consumer does some things with the catalog, and sends no pieces. -/
theorem Cursor.Moves.catalog_eq_run {c c' : Cursor} {x x' : Exchange} {step : Script.CursorStep}
    (h : c.Moves x step c' x') :
    ∃ as, (∀ a ∈ as, a.isPiece = false) ∧ x'.catalog = x.catalog.run as := by
  cases h with
  | reads hstep hreads =>
    obtain ⟨catalog, parked, roused, hread, rfl⟩ := hreads.exchange
    obtain ⟨ids, htakes⟩ := hread.takes
    refine ⟨ids.map .take, fun a ha => ?_, htakes⟩
    obtain ⟨id, -, rfl⟩ := List.mem_map.1 ha
    rfl
  | connects hopen hconnect =>
    rename_i name feed catalog
    refine ⟨[.connect name], by simp [Catalog.Action.isPiece], ?_⟩
    show catalog = x.catalog.act (.connect name)
    rw [Catalog.act, hconnect]
  | stays hstate => exact ⟨[], by simp, rfl⟩
  | leaves hstate =>
    -- he leaves by his name, and lets go of his feed
    refine ⟨c.name.toList.map .disconnect ++ c.feed.toList.map .leave, fun a ha => ?_, ?_⟩
    · obtain ha | ha := List.mem_append.1 ha
      · obtain ⟨name, -, rfl⟩ := List.mem_map.1 ha
        rfl
      · obtain ⟨id, -, rfl⟩ := List.mem_map.1 ha
        rfl
    · show c.leave x.catalog = _
      rw [Catalog.run_append, Cursor.leave]
      cases c.name <;> cases c.feed <;> rfl

namespace Usage

variable {u u' : Usage} {a : Action}

/-- A step does to the catalog what consumers do, or what a frame does that is read while no feed is
full. -/
theorem Effect.catalog_cases (h : u.Effect a u') :
    (∃ as : List Catalog.Action, (∀ a ∈ as, a.isPiece = false) ∧
      u'.session.exchange.catalog = u.session.exchange.catalog.run as) ∨
    (u.session.exchange.catalog.isSaturated = false ∧ ∃ a,
      u'.session.exchange.catalog = u.session.exchange.catalog.act a) := by
  have hrests (heq : u'.session.exchange.catalog = u.session.exchange.catalog) :
      ∃ as : List Catalog.Action, (∀ a ∈ as, a.isPiece = false) ∧
        u'.session.exchange.catalog = u.session.exchange.catalog.run as :=
    ⟨[], by simp, heq⟩
  cases h with
  | rests h => exact .inl (hrests h.catalog)
  | opens => exact .inl (hrests rfl)
  | touches h => exact .inl (hrests h.catalog)
  | refuses hsubmit h =>
    exact .inl (hrests (h.catalog.trans (Exchange.submit_frame hsubmit).2.1))
  | accepts hshort hsubmit h =>
    exact .inl (hrests (h.catalog.trans (Exchange.submit_frame hsubmit).2.1))
  | plays hc hmoves => exact .inl hmoves.catalog_eq_run
  | routes hroute h hroom =>
    obtain ⟨rfl, -⟩ | ⟨-, isHead, hdeliver⟩ | ⟨-, a, ha, rfl, -⟩ := Exchange.route_cases hroute
    · exact .inl (hrests h.catalog)
    · exact .inl (hrests (h.catalog.trans (Exchange.deliver_frame hdeliver).1))
    · exact .inr ⟨hroom, a, h.catalog⟩
  | ends ha h =>
    rename_i s outage
    cases hclosed : u.session.exchange.closed with
    | true =>
      rw [Exchange.shutdown_of_closed hclosed] at h
      exact .inl (hrests h.catalog)
    | false =>
      refine .inl ⟨[.terminate outage], by simp [Catalog.Action.isPiece], ?_⟩
      exact h.catalog.trans (Exchange.catalog_shutdown hclosed outage)

/-- The catalog of a session is metered, and its limit stays as it is. -/
theorem metered_run (hu : u.session.exchange.catalog.Metered) (actions : List Action) :
    (u.run actions).session.exchange.catalog.Metered ∧
      (u.run actions).session.exchange.catalog.limit = u.session.exchange.catalog.limit := by
  induction actions generalizing u with
  | nil => exact ⟨hu, rfl⟩
  | cons a actions ih =>
    have hstep : (u.step a).session.exchange.catalog.Metered ∧
        (u.step a).session.exchange.catalog.limit = u.session.exchange.catalog.limit := by
      obtain ⟨as, has, heq⟩ | ⟨hroom, b, heq⟩ := (u.step_effect a).catalog_cases
      · rw [heq]
        exact ⟨hu.run has, Catalog.limit_run _ as⟩
      · rw [heq]
        exact ⟨hu.act fun _ => hroom, Catalog.limit_act _ b⟩
    obtain ⟨hmetered, hlimit⟩ := ih hstep.1
    exact ⟨hmetered, hlimit.trans hstep.2⟩

/-- After any run of a session the count of every result set's feed is that of the records that
wait in it, and at most the limit while the result set is not over. No record is taken from any
feed that was not counted. -/
theorem backlog_run (settings : Settings) (link : Link) (id : UInt64) (actions : List Action) :
    let c := ((start settings link id).run actions).session.exchange.catalog
    c.limit = max settings.resultSetBuffer 1 ∧
      (∀ name e, c.entries.get? name = some e →
        (c.feed e.feed).isOpen = true ∧
        (c.feed e.feed).count = (c.feed e.feed).queue.countP Feed.Event.isRecord ∧
        (e.finished = false → (c.feed e.feed).count ≤ c.limit)) ∧
      ∀ id bytes, (c.feed id).take.1 = some (.record bytes) →
        (c.feed id).take.2.count + 1 = (c.feed id).count := by
  intro c
  obtain ⟨hmetered, hlimit⟩ :=
    metered_run (u := start settings link id) (Catalog.metered_ofLimit _) actions
  have hattended := (attended_start settings link id).run actions
  refine ⟨hlimit, fun name e he => ?_, fun id bytes htake => ?_⟩
  · have hopen := hattended.isOpen he
    exact ⟨hopen, (hmetered.counted e.feed).count_eq hopen, hmetered.bounded he⟩
  · exact (hmetered.counted id).count_take htake

end Usage

end QueryLink
