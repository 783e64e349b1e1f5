import QueryLink.Proofs.ShutdownLaws
import QueryLink.Proofs.UsageSteps

/-!
# What consumers are told

The history of a feed is what its consumer took and what waits for it there. Reading moves events
from the one part to the other; an arrival adds to the end of the second one; closing a cursor
gives up what waits. `Attended` ties the result sets, the cursors on them and what these took
together: as long as a result set is not over its history is records, and it is the result set of
the name by which its consumer will leave.

## Key results

- `Attended.arrive`, `Attended.connect`, `Attended.read`, `Attended.leave`: one lemma for each way in
  which catalog and cursors change
- `gone_append`: reading leaves histories as they are
- `Usage.IsAttended.run`: what a whole run preserves
-/

namespace QueryLink

/-- What result sets, cursors and the events that cursors took have to do with each other. -/
structure Attended (catalog : Catalog) (cursors : List Cursor)
    (past : FeedId → List Feed.Event) : Prop where
  own : catalog.OwnFeeds
  /-- Somebody takes the events of a result set, or may still come to. -/
  isOpen : ∀ {name e}, catalog.entries.get? name = some e → (catalog.feed e.feed).isOpen = true
  /-- As long as a result set is not over, there are only records. -/
  records : ∀ {name e}, catalog.entries.get? name = some e → e.finished = false →
    ∀ event ∈ past e.feed ++ (catalog.feed e.feed).queue, event.isRecord = true
  /-- Nothing was taken from feeds that are not there yet. -/
  fresh : ∀ id, catalog.feeds.size ≤ id → past id = []
  /-- A cursor leaves by the name of the result set that it reads. -/
  named : ∀ c ∈ cursors, ∀ id, c.feed = some id → id < catalog.feeds.size ∧
    ∀ name e, catalog.entries.get? name = some e → e.feed = id → c.name = some name

/-! ## Consumers and the catalog -/

namespace Catalog

variable {c c' : Catalog} {name : String} {id : FeedId}

/-- The feed a consumer gets is that of the entry which is looked up. -/
theorem connect_ok (h : c.connect name = .ok (id, c')) :
    id = (c.entry name).1.feed ∧ c'.feeds.size = (c.entry name).2.feeds.size ∧
      c' = c.act (.connect name) := by
  have hact : c' = c.act (.connect name) := by rw [act, h]
  unfold connect at h
  dsimp only at h
  split at h
  · cases h
  · cases h
    exact ⟨rfl, by split <;> rfl, hact⟩

/-- The feed a consumer gets is there then, and no result set of another name has it. -/
theorem OwnFeeds.connect (hc : c.OwnFeeds) (h : c.connect name = .ok (id, c')) :
    id < c'.feeds.size ∧ ∀ m e, c'.entries.get? m = some e → e.feed = id → m = name := by
  obtain ⟨rfl, hsize, rfl⟩ := connect_ok h
  have horigin := (c.act_origin (.connect name)).2
  obtain ⟨hold, heq⟩ | ⟨-, hnew, hgrown⟩ := c.entry_origin name
  · refine ⟨?_, fun m e he hfeed => ?_⟩
    · rw [hsize, heq]
      exact hc.lt hold
    · obtain ⟨old, hm, hsame, -⟩ | ⟨⟨h | ⟨i, h⟩, -, -⟩, -⟩ := horigin m e he
      · exact hc.inj hm hold (hsame.symm.trans hfeed)
      · cases h
        rfl
      · cases h
  · rw [hnew]
    refine ⟨?_, fun m e he hfeed => ?_⟩
    · rw [hsize, hgrown]
      exact Nat.lt_succ_self _
    · obtain ⟨old, hm, hsame, -⟩ | ⟨⟨h | ⟨i, h⟩, -, -⟩, -⟩ := horigin m e he
      · exact absurd (hsame.symm.trans hfeed) (Nat.ne_of_lt (hc.lt hm))
      · cases h
        rfl
      · cases h

end Catalog

namespace Cursor

variable {c : Cursor} {catalog : Catalog} {id : FeedId}

/-- Leaving by name changes no feed. -/
private theorem feed_byName (c : Cursor) (catalog : Catalog) (id : FeedId) :
    (c.name.elim catalog catalog.disconnect).feed id = catalog.feed id := by
  cases c.name with
  | none => rfl
  | some name => exact catalog.feed_disconnect name id

/-- A consumer that leaves lets go of its own feed only. -/
theorem feed_leave_of_ne (h : c.feed ≠ some id) :
    (c.leave catalog).feed id = catalog.feed id := by
  unfold leave
  cases hfeed : c.feed with
  | none => exact c.feed_byName catalog id
  | some own =>
    rw [hfeed] at h
    rw [Option.elim_some, Catalog.feed_modifyFeed_ne _ (fun heq => h (congrArg some heq.symm))]
    exact c.feed_byName catalog id

/-- A feed is left alone by a consumer that leaves, or it is the one he lets go of. -/
theorem feed_leave_cases (c : Cursor) (catalog : Catalog) (id : FeedId) :
    (c.leave catalog).feed id = catalog.feed id ∨
      (c.leave catalog).feed id = (catalog.feed id).close := by
  by_cases hfeed : c.feed = some id
  · unfold leave
    rw [hfeed, Option.elim_some, Catalog.feed_modifyFeed, feed_byName]
    split
    · exact .inr rfl
    · exact .inl rfl
  · exact .inl (feed_leave_of_ne hfeed)

theorem size_leave (c : Cursor) (catalog : Catalog) :
    (c.leave catalog).feeds.size = catalog.feeds.size := by
  have hleft : (c.name.elim catalog catalog.disconnect).feeds.size = catalog.feeds.size := by
    cases c.name with
    | none => rfl
    | some name =>
      obtain ⟨-, heq⟩ | ⟨e, -, ⟨i, -, heq⟩ | ⟨-, discarded, -, heq⟩⟩ :=
        catalog.disconnect_cases name
      · exact congrArg (·.feeds.size) heq
      · exact congrArg (·.feeds.size) heq
      · exact congrArg (·.feeds.size) heq
  unfold leave
  cases c.feed with
  | none => exact hleft
  | some own => exact (Catalog.size_modifyFeed ..).trans hleft

/-- What is in the catalog after a consumer left was there before, and is not what it read. -/
theorem get?_leave (hnamed : ∀ id, c.feed = some id → ∀ name e,
      catalog.entries.get? name = some e → e.feed = id → c.name = some name)
    {name : String} {e : Catalog.Entry} (he : (c.leave catalog).entries.get? name = some e) :
    catalog.entries.get? name = some e ∧ c.feed ≠ some e.feed := by
  have hleft : (c.name.elim catalog catalog.disconnect).entries.get? name = some e := by
    unfold leave at he
    cases hfeed : c.feed with
    | none =>
      rw [hfeed] at he
      exact he
    | some own =>
      rw [hfeed] at he
      exact he
  cases hname : c.name with
  | none =>
    rw [hname] at hleft
    refine ⟨hleft, fun hfeed => ?_⟩
    have hown := hnamed _ hfeed name e hleft rfl
    rw [hname] at hown
    cases hown
  | some own =>
    rw [hname, Option.elim_some, Catalog.disconnect_entries, Dict.get?_erase] at hleft
    split at hleft
    · cases hleft
    · rename_i hne
      refine ⟨hleft, fun hfeed => hne ?_⟩
      have hown := hnamed _ hfeed name e hleft rfl
      rw [hname] at hown
      cases hown
      rfl

/-- Without result sets there is nothing to leave but a feed. -/
theorem registry_leave_of_empty (h : catalog.registry = (.empty, .empty, [], [])) :
    (c.leave catalog).registry = (.empty, .empty, [], []) := by
  have hentries : catalog.entries = .empty := congrArg Prod.fst h
  have hleft : c.name.elim catalog catalog.disconnect = catalog := by
    cases c.name with
    | none => rfl
    | some name => exact Catalog.disconnect_of_absent (by rw [hentries, Dict.get?_empty])
  unfold leave
  rw [hleft]
  cases c.feed with
  | none => exact h
  | some id => exact h

end Cursor

/-! ## What keeps them together -/

namespace Attended

variable {catalog catalog' : Catalog} {cursors : List Cursor}
  {past past' : FeedId → List Feed.Event} {n : Nat} {c c' : Cursor}

theorem start (limit : Nat) : Attended (.ofLimit limit) [] fun _ => [] where
  own := ⟨by simp [Catalog.ofLimit], by simp [Catalog.ofLimit]⟩
  isOpen := by simp [Catalog.ofLimit]
  records := by simp [Catalog.ofLimit]
  fresh := by simp
  named := by simp

/-- A cursor may be replaced by one that leaves by the right name. -/
theorem setCursor (h : Attended catalog cursors past)
    (hnamed : ∀ id, c.feed = some id → id < catalog.feeds.size ∧
      ∀ name e, catalog.entries.get? name = some e → e.feed = id → c.name = some name) :
    Attended catalog (cursors.set n c) past :=
  { h with
    named := fun d hd => by
      obtain hd | rfl := List.mem_or_eq_of_mem_set hd
      · exact h.named d hd
      · exact hnamed }

/-- A cursor that is not connected reads nothing. -/
theorem openCursor (h : Attended catalog cursors past) :
    Attended catalog (cursors ++ [({} : Cursor)]) past :=
  { h with
    named := fun d hd => by
      obtain hd | hd := List.mem_append.1 hd
      · exact h.named d hd
      · obtain rfl := List.mem_singleton.1 hd
        intro id hid
        cases hid }

/-- Consumers come, and frames. -/
theorem arrive (h : Attended catalog cursors past) {a : Catalog.Action} (ha : a.IsArrival) :
    Attended (catalog.act a) cursors past := by
  obtain ⟨hle, horigin⟩ := catalog.act_origin a
  refine ⟨h.own.act a, fun {name e} he => ?_, fun {name e} he hfinished => ?_, fun id hid => ?_,
    fun c hc id hid => ?_⟩
  · obtain ⟨events, hfeed, -⟩ := h.own.feed_arrival ha e.feed
    rw [hfeed, Feed.isOpen_foldl_deliver]
    obtain ⟨old, hold, hsame, -⟩ | ⟨⟨-, -, hnew⟩, -⟩ := horigin name e he
    · rw [hsame]
      exact h.isOpen hold
    · rw [hnew, Catalog.feed_of_le (Nat.le_refl _)]
  · obtain ⟨events, hfeed, hevents⟩ := h.own.feed_arrival ha e.feed
    -- what is added is records, since the result set is not over
    replace hevents := hevents.resolve_right fun hover =>
      Bool.noConfusion (hfinished.symm.trans (hover name e he rfl))
    rw [hfeed]
    obtain ⟨old, hold, hsame, hstill⟩ | hnew := catalog.unfinished_arrival a he hfinished
    · rw [hsame, Catalog.foldl_deliver (h.isOpen hold), ← List.append_assoc]
      intro event hevent
      obtain hevent | hevent := List.mem_append.1 hevent
      · exact h.records hold hstill event hevent
      · exact hevents event hevent
    · rw [hnew, h.fresh _ (Nat.le_refl _), Catalog.feed_of_le (Nat.le_refl _),
        Catalog.foldl_deliver rfl]
      exact hevents
  · exact h.fresh id (Nat.le_trans hle hid)
  · obtain ⟨hlt, hname⟩ := h.named c hc id hid
    refine ⟨Nat.lt_of_lt_of_le hlt hle, fun name e he hfeed => ?_⟩
    obtain ⟨old, hold, hsame, -⟩ | ⟨⟨-, -, hnew⟩, -⟩ := horigin name e he
    · exact hname name old hold (hsame.symm.trans hfeed)
    · exact absurd (hfeed.symm.trans hnew) (Nat.ne_of_lt hlt)

/-- A consumer gets the feed of the result set it asked for. -/
theorem connect (h : Attended catalog cursors past) {name : String} {id : FeedId}
    (hconnect : catalog.connect name = .ok (id, catalog')) (hname : c.name = some name)
    (hfeed : c.feed = some id) : Attended catalog' (cursors.set n c) past := by
  have hact : catalog' = catalog.act (.connect name) := by rw [Catalog.act, hconnect]
  obtain ⟨hlt, hown⟩ := h.own.connect hconnect
  have harrived := h.arrive (a := .connect name) trivial
  rw [← hact] at harrived
  refine harrived.setCursor fun other hother => ?_
  rw [hfeed] at hother
  cases hother
  exact ⟨hlt, fun m e he hsame => by rw [hname, hown m e he hsame]⟩

/-- Reading moves events from what waits to what was taken. -/
theorem read (h : Attended catalog cursors past) (hc : cursors[n]? = some c)
    (hread : catalog.Read c.feed catalog') (hname : c'.name = c.name) (hfeed : c'.feed = c.feed)
    (hpast : ∀ id, past' id ++ (catalog'.feed id).queue = past id ++ (catalog.feed id).queue)
    (hfresh : ∀ id, catalog.feeds.size ≤ id → past' id = []) :
    Attended catalog' (cursors.set n c') past' := by
  have hentries : catalog'.entries = catalog.entries := congrArg Prod.fst hread.registry
  have hcatalog : Attended catalog' cursors past' := by
    refine ⟨⟨fun {name e} he => ?_, fun {m m' e e'} he he' => ?_⟩, fun {name e} he => ?_,
      fun {name e} he hfinished => ?_, fun id hid => ?_, fun d hd id hid => ?_⟩
    · rw [hread.size]
      exact h.own.lt (hentries ▸ he)
    · exact h.own.inj (hentries ▸ he) (hentries ▸ he')
    · rw [hread.isOpen]
      exact h.isOpen (hentries ▸ he)
    · rw [hpast]
      exact h.records (hentries ▸ he) hfinished
    · exact hfresh id (hread.size ▸ hid)
    · rw [hread.size, hentries]
      exact h.named d hd id hid
  refine hcatalog.setCursor ?_
  rw [hname, hfeed]
  exact hcatalog.named c (List.mem_of_getElem? hc)

/-- A consumer leaves. -/
theorem leave (h : Attended catalog cursors past) (hc : cursors[n]? = some c)
    (hfeed : c'.feed = none) : Attended (c.leave catalog) (cursors.set n c') past := by
  have hnamed := h.named c (List.mem_of_getElem? hc)
  have hkept : ∀ {name e}, (c.leave catalog).entries.get? name = some e →
      catalog.entries.get? name = some e ∧ c.feed ≠ some e.feed :=
    fun he => Cursor.get?_leave (fun id hid => (hnamed id hid).2) he
  have hcatalog : Attended (c.leave catalog) cursors past := by
    refine ⟨⟨fun {name e} he => ?_, fun {m m' e e'} he he' => ?_⟩, fun {name e} he => ?_,
      fun {name e} he hfinished => ?_, fun id hid => ?_, fun d hd id hid => ?_⟩
    · rw [c.size_leave]
      exact h.own.lt (hkept he).1
    · exact h.own.inj (hkept he).1 (hkept he').1
    · rw [Cursor.feed_leave_of_ne (hkept he).2]
      exact h.isOpen (hkept he).1
    · rw [Cursor.feed_leave_of_ne (hkept he).2]
      exact h.records (hkept he).1 hfinished
    · exact h.fresh id (c.size_leave catalog ▸ hid)
    · rw [c.size_leave]
      obtain ⟨hlt, hname⟩ := h.named d hd id hid
      exact ⟨hlt, fun name e he => hname name e (hkept he).1⟩
  refine hcatalog.setCursor fun id hid => ?_
  rw [hfeed] at hid
  cases hid

/-- The session ends, and with it all result sets. -/
theorem terminate (h : Attended catalog cursors past) (outage : Outage) :
    Attended (catalog.terminate outage) cursors past := by
  have hsize : (catalog.terminate outage).feeds.size = catalog.feeds.size :=
    Catalog.size_foldl _ _ _
  have hempty : (catalog.terminate outage).entries = .empty := rfl
  refine ⟨⟨?_, ?_⟩, ?_, ?_, fun id hid => h.fresh id (hsize ▸ hid), fun c hc id hid => ?_⟩
  · simp [hempty]
  · simp [hempty]
  · simp [hempty]
  · simp [hempty]
  · rw [hsize, hempty]
    exact ⟨(h.named c hc id hid).1, by simp⟩

end Attended

/-! ## Usages -/

namespace Usage

variable {u u' : Usage} {a : Action}

/-- Events that are tagged with a feed are the ones of that feed. -/
private theorem filter_tagged (own id : FeedId) (events : List Feed.Event) :
    ((events.map fun event => (own, event)).filter fun p => p.1 = id).map Prod.snd =
      if own = id then events else [] := by
  induction events with
  | nil => simp
  | cons event events ih =>
    rw [List.map_cons, List.filter_cons]
    by_cases heq : own = id
    · simpa [heq] using ih
    · simp [heq]

private theorem gone_of_feed {c : Cursor} {step : Script.CursorStep} {before after : Exchange}
    (hstep : step ≠ .close) {own : FeedId} (hfeed : c.feed = some own) :
    gone c step before after = ((before.catalog.feed own).queue.take
      ((before.catalog.feed own).queue.length - (after.catalog.feed own).queue.length)).map
        fun event => (own, event) := by
  unfold gone
  rw [hfeed]
  cases step <;> first
    | exact absurd rfl hstep
    | rfl

private theorem gone_of_none {c : Cursor} {step : Script.CursorStep} {before after : Exchange}
    (hfeed : c.feed = none) : gone c step before after = [] := by
  unfold gone
  rw [hfeed]
  cases step <;> rfl

/-- What goes from the front of a feed is what its consumer took: the two parts of a history
change, but not the whole. -/
theorem gone_append {c : Cursor} {step : Script.CursorStep} {before after : Exchange}
    (hstep : step ≠ .close)
    (hother : ∀ id, c.feed ≠ some id → after.catalog.feed id = before.catalog.feed id)
    (hown : ∀ id, ∃ n, (after.catalog.feed id).queue = (before.catalog.feed id).queue.drop n)
    (id : FeedId) :
    ((gone c step before after).filter fun p => p.1 = id).map Prod.snd ++
      (after.catalog.feed id).queue = (before.catalog.feed id).queue := by
  cases hfeed : c.feed with
  | none =>
    rw [gone_of_none hfeed, hother id (by simp [hfeed])]
    rfl
  | some own =>
    rw [gone_of_feed hstep hfeed, filter_tagged]
    split
    · rename_i heq
      subst heq
      obtain ⟨n, hn⟩ := hown own
      rw [hn, List.length_drop]
      -- if there are fewer events than were asked for, all of them went
      by_cases hle : n ≤ (before.catalog.feed own).queue.length
      · rw [Nat.sub_sub_self hle, List.take_append_drop]
      · have hall := Nat.le_of_not_le hle
        rw [List.drop_eq_nil_of_le hall, Nat.sub_eq_zero_of_le hall]
        simp
    · rename_i hne
      rw [hother id (by simpa [hfeed] using hne)]
      rfl

/-- What a consumer took is in what it took before and what is gone from its feed since. -/
theorem takenFrom_append (u : Usage) (more : List (FeedId × Feed.Event)) (id : FeedId) :
    Usage.takenFrom { u with taken := u.taken ++ more } id =
      u.takenFrom id ++ (more.filter fun p => p.1 = id).map Prod.snd := by
  simp only [takenFrom, List.filter_append, List.map_append]

/-- When nothing is taken, what waits makes the difference. -/
theorem history_of_taken (h : u'.taken = u.taken) (id : FeedId) :
    u'.history id = u.takenFrom id ++ (u'.session.exchange.catalog.feed id).queue := by
  rw [history, takenFrom, h, takenFrom]

/-- Reading leaves all histories as they are. -/
theorem history_reads (u : Usage) {step : Script.CursorStep} {c c' : Cursor} {x : Exchange}
    (hstep : step ≠ .close) (hreads : c.Reads u.session.exchange c' x) (cursors : List Cursor)
    (id : FeedId) :
    Usage.history { u.withExchange x with
      cursors, taken := u.taken ++ gone c step u.session.exchange x } id = u.history id := by
  have hread : u.session.exchange.catalog.Read c.feed x.catalog := by
    obtain ⟨catalog, parked, roused, hread, rfl⟩ := hreads.exchange
    exact hread
  calc
    _ = (u.takenFrom id ++ ((gone c step u.session.exchange x).filter fun p => p.1 = id).map
          Prod.snd) ++ (x.catalog.feed id).queue :=
      congrArg (· ++ _) (u.takenFrom_append (gone c step u.session.exchange x) id)
    _ = u.history id := by
      rw [List.append_assoc, gone_append hstep hread.other hread.own, history]

/-- Result sets, cursors and what these took belong together. -/
def IsAttended (u : Usage) : Prop :=
  Attended u.session.exchange.catalog u.cursors u.takenFrom

/-- Consumers that find all feeds as they were take nothing. -/
private theorem takenFrom_of_same (u : Usage) {c : Cursor} {step : Script.CursorStep}
    {x : Exchange} (hstep : step ≠ .close)
    (hsame : ∀ id, x.catalog.feed id = u.session.exchange.catalog.feed id) :
    Usage.takenFrom { u with taken := u.taken ++ gone c step u.session.exchange x } =
      u.takenFrom := by
  funext id
  have hgone := gone_append (c := c) hstep (fun id _ => hsame id)
    (fun id => ⟨0, by rw [hsame]; rfl⟩) id
  rw [hsame, List.append_left_eq_self] at hgone
  rw [takenFrom_append, hgone, List.append_nil]

private theorem takenFrom_nil (u : Usage) :
    Usage.takenFrom { u with taken := u.taken ++ [] } = u.takenFrom := by
  rw [List.append_nil]

/-- A consumer does something with its cursor. -/
private theorem attended_plays (h : u.IsAttended) {number : Nat} {step : Script.CursorStep}
    {c c' : Cursor} {x : Exchange} (hc : u.cursors[number]? = some c)
    (hmoves : c.Moves u.session.exchange step c' x) :
    Usage.IsAttended { u.withExchange x with
      cursors := u.cursors.set number c'
      taken := u.taken ++ gone c step u.session.exchange x } := by
  cases hmoves with
  | reads hstep hreads =>
    have hhistory := u.history_reads hstep hreads (u.cursors.set number c')
    obtain ⟨catalog, parked, roused, hread, rfl⟩ := hreads.exchange
    refine Attended.read h hc hread hreads.name hreads.feed hhistory fun id hid => ?_
    -- where there is no feed, there is no history
    have hnil := hhistory id
    rw [history, history, Catalog.feed_of_le hid, h.fresh id hid] at hnil
    exact (List.append_eq_nil_iff.1 hnil).1
  | connects hopen hconnect =>
    rename_i name feed catalog
    have hact : catalog = u.session.exchange.catalog.act (.connect name) := by
      rw [Catalog.act, hconnect]
    have hsame : ∀ id, catalog.feed id = u.session.exchange.catalog.feed id := fun id => by
      rw [hact, Catalog.feed_connect]
    have htaken := u.takenFrom_of_same (c := c) (x := { u.session.exchange with catalog })
      (show Script.CursorStep.connect name ≠ .close by simp) hsame
    have hnew := Attended.connect (n := number)
      (c := { c with state := .connecting, name := some name, feed := some feed }) h hconnect
      rfl rfl
    rw [← htaken] at hnew
    exact hnew
  | stays hstate =>
    have hsame := Attended.setCursor (n := number) h
      (h.named c (List.mem_of_getElem? hc))
    rw [← u.takenFrom_nil] at hsame
    exact hsame
  | leaves hstate =>
    refine Attended.leave ?_ hc rfl
    rw [IsAttended, ← u.takenFrom_nil] at h
    exact h

/-- It is the catalog of a usage that cursors have to do with, not the rest of the session. -/
private theorem IsAttended.of_catalog {catalog : Catalog}
    (h : Attended catalog u'.cursors u'.takenFrom)
    (hcatalog : u'.session.exchange.catalog = catalog) : u'.IsAttended := by
  unfold IsAttended
  rw [hcatalog]
  exact h

/-- A step keeps result sets and cursors together. -/
theorem Effect.attended (h : u.Effect a u') (hu : u.IsAttended) : u'.IsAttended := by
  cases h with
  | rests h => exact .of_catalog hu h.catalog
  | opens => exact hu.openCursor
  | touches h => exact .of_catalog hu h.catalog
  | refuses hsubmit h =>
    exact .of_catalog hu (h.catalog.trans (Exchange.submit_frame hsubmit).2.1)
  | accepts hshort hsubmit h =>
    exact .of_catalog hu (h.catalog.trans (Exchange.submit_frame hsubmit).2.1)
  | plays hc hmoves => exact attended_plays hu hc hmoves
  | routes hroute h =>
    obtain ⟨rfl, -⟩ | ⟨-, isHead, hdeliver⟩ | ⟨-, a, ha, rfl, -⟩ := Exchange.route_cases hroute
    · exact .of_catalog hu h.catalog
    · exact .of_catalog hu (h.catalog.trans (Exchange.deliver_frame hdeliver).1)
    · exact .of_catalog (Attended.arrive hu ha) h.catalog
  | ends ha h =>
    rename_i s outage
    cases hclosed : u.session.exchange.closed with
    | true =>
      rw [Exchange.shutdown_of_closed hclosed] at h
      exact .of_catalog hu h.catalog
    | false =>
      exact .of_catalog (Attended.terminate hu outage)
        (h.catalog.trans (Exchange.catalog_shutdown hclosed outage))

theorem attended_start (settings : Settings) (link : Link) (id : UInt64) :
    (start settings link id).IsAttended :=
  .of_catalog (.start settings.resultSetBuffer) rfl

/-- Result sets and cursors are together after every run. -/
theorem IsAttended.run (h : u.IsAttended) (actions : List Action) : (u.run actions).IsAttended := by
  induction actions generalizing u with
  | nil => exact h
  | cons a actions ih => exact ih ((u.step_effect a).attended h)

end Usage

end QueryLink
