import QueryLink.Proofs.Hearing
import QueryLink.Proofs.Shutdown

/-!
# Abandoned result sets

A consumer may leave its result set before that is over, even before it is announced. The server
goes on as if nothing had happened: it may announce the result set, send pieces of it and end it.
None of this is kept, whatever else is going on, so the session never stops reading for a result set
that nobody reads; and the end is confirmed like any other.

It takes a server that keeps its order: a name that is announced a second time, or an index that
leads to two result sets at a time, is beyond what the session can tell apart.

## Key results

- `Catalog.Dropped.act`: nothing gets into a feed that its consumer has let go of
- `Turn.inStep`: no step of a session gets out of step with a server that keeps its order
- `Turn.lacks`: no step but a new consumer's brings an abandoned result set back
- `abandoned_run`: what is left of it after any run, and how the ends of result sets are answered
-/

namespace QueryLink

open Catalog (Schedule)

namespace Catalog

/-! ## Feeds that were let go of -/

/-- A feed that no result set adds to, whose consumer has let go of it. -/
structure Dropped (c : Catalog) (id : FeedId) : Prop where
  unfed : c.Unfed id
  queue : (c.feed id).queue = []
  isOpen : (c.feed id).isOpen = false

variable {c : Catalog} {id : FeedId}

/-- Nothing gets into it. -/
theorem Dropped.act (h : c.Dropped id) (a : Action) : (c.act a).Dropped id := by
  have hfeed : ((c.act a).feed id).queue = [] ∧ ((c.act a).feed id).isOpen = false := by
    by_cases htake : a = .take id
    · -- there is nothing to take
      obtain ⟨hopen, hqueue⟩ := (c.feed id).take_keeps
      rw [htake, Catalog.act, feed_modifyFeed_self c h.unfed.lt, hqueue, hopen, h.queue]
      exact ⟨rfl, h.isOpen⟩
    · by_cases hleave : a = .leave id
      · rw [hleave, Catalog.act, feed_modifyFeed_self c h.unfed.lt]
        exact ⟨rfl, rfl⟩
      · rw [h.unfed.feed_act htake hleave]
        exact ⟨h.queue, h.isOpen⟩
  exact ⟨h.unfed.act a, hfeed.1, hfeed.2⟩

theorem Dropped.run (h : c.Dropped id) (as : List Action) : (c.run as).Dropped id := by
  induction as generalizing c with
  | nil => exact h
  | cons a as ih => exact ih (h.act a)

end Catalog

namespace Usage

variable {u u' : Usage} {a : Action} {said : Option Catalog.Action} {s : Schedule} {n : String}
  {id : FeedId}

/-! ## In step with the server -/

/-- The session has ended, or its consumers and result sets are in step with the server. -/
def InStep (s : Schedule) (u : Usage) : Prop :=
  u.session.exchange.Emptied ∨ Hosts s u.session.exchange.catalog u.cursors

/-- What the server said in a run. -/
def schedule (u : Usage) (actions : List Action) : Schedule :=
  Schedule.afterAll {} (u.toldIn actions)

/-- Whether the server kept its order in a run. -/
def ServedInOrder (u : Usage) (actions : List Action) : Prop :=
  Catalog.Orderly [] [] (u.toldIn actions)

theorem inStep_start (settings : Settings) (link : Link) (id : UInt64) :
    (start settings link id).InStep {} :=
  .inr (.start settings.resultSetBuffer)

/-- Nothing comes back once the session has ended. -/
private theorem emptied_step (h : u.session.exchange.Emptied) (a : Action) :
    (u.step a).session.exchange.Emptied :=
  ((u.step_effect a).late h.closed).emptied h

/-- No step of a session gets out of step with the server. -/
theorem Turn.inStep (h : u.Turn a u' said) (hu : Hosts s u.session.exchange.catalog u.cursors)
    (hadmits : ∀ b ∈ said, s.Admits b) : u'.InStep (s.afterAll said.toList) := by
  cases h with
  | news hsaid hcatalog hcursors =>
    refine .inr ?_
    rw [hcatalog, hcursors]
    exact hu.news hsaid (hadmits _ rfl)
  | rests hcatalog hcursors =>
    refine .inr ?_
    rw [hcatalog, hcursors]
    exact hu
  | opens hcatalog hcursors =>
    refine .inr ?_
    rw [hcatalog, hcursors]
    exact hu.openCursor
  | plays ha hc hmoves hcatalog hcursors =>
    refine .inr ?_
    rw [hcatalog, hcursors]
    exact hmoves.hosts hc hu
  | ends h => exact .inl h

/-- Nothing is left of the result set of a name: the session has ended, or the result set is
forsaken. -/
def Lacks (n : String) (s : Schedule) (u : Usage) : Prop :=
  u.session.exchange.Emptied ∨ u.session.exchange.catalog.Forsaken n s

/-- No step but a new consumer's brings a forsaken result set back. -/
theorem Turn.lacks (h : u.Turn a u' said) (hu : u.session.exchange.catalog.Follows s)
    (hforsaken : u.session.exchange.catalog.Forsaken n s) (hadmits : ∀ b ∈ said, s.Admits b)
    (hconnect : ∀ k, a ≠ .useCursor k (.connect n)) : u'.Lacks n (s.afterAll said.toList) := by
  cases h with
  | news hsaid hcatalog hcursors =>
    refine .inr ?_
    rw [hcatalog]
    refine hforsaken.act hu (hadmits _ rfl) ?_ ?_
    · rintro rfl
      exact hsaid
    · rintro outage rfl
      exact hsaid
  | rests hcatalog hcursors =>
    refine .inr ?_
    rw [hcatalog]
    exact hforsaken
  | opens hcatalog hcursors =>
    refine .inr ?_
    rw [hcatalog]
    exact hforsaken
  | plays ha hc hmoves hcatalog hcursors =>
    refine .inr ?_
    rw [hcatalog]
    refine hmoves.forsaken hu hforsaken fun hstep => ?_
    rw [hstep] at ha
    exact hconnect _ ha
  | ends h => exact .inl h

/-- What is said in one step is in order if it is in order with what follows. -/
private theorem admits_of_orderly
    (h : Catalog.Orderly s.opened s.announced said.toList) : ∀ b ∈ said, s.Admits b := by
  rintro b rfl
  exact h.1

theorem InStep.step (h : u.InStep s) (hadmits : ∀ b ∈ u.told a, s.Admits b) :
    (u.step a).InStep (s.afterAll (u.told a).toList) := by
  obtain hemptied | hhosts := h
  · exact .inl (emptied_step hemptied a)
  · exact (u.step_turn a).inStep hhosts hadmits

theorem Lacks.step (h : u.Lacks n s) (hu : u.InStep s) (hadmits : ∀ b ∈ u.told a, s.Admits b)
    (hconnect : ∀ k, a ≠ .useCursor k (.connect n)) :
    (u.step a).Lacks n (s.afterAll (u.told a).toList) := by
  obtain hemptied | hhosts := hu
  · exact .inl (emptied_step hemptied a)
  · obtain hemptied | hforsaken := h
    · exact .inl (emptied_step hemptied a)
    · exact (u.step_turn a).lacks hhosts.follows hforsaken hadmits hconnect

/-- A session stays in step with a server that keeps its order. -/
theorem InStep.run {actions : List Action} (h : u.InStep s)
    (horder : Catalog.Orderly s.opened s.announced (u.toldIn actions)) :
    (u.run actions).InStep (s.afterAll (u.toldIn actions)) := by
  induction actions generalizing u s with
  | nil => exact h
  | cons a actions ih =>
    rw [toldIn_cons] at horder ⊢
    obtain ⟨hfirst, hrest⟩ := Schedule.orderly_append.1 horder
    rw [Schedule.afterAll_append]
    exact ih (h.step (admits_of_orderly hfirst)) hrest

/-- Nothing is left of a forsaken result set as long as no new consumer asks for it. -/
theorem Lacks.run {actions : List Action} (h : u.Lacks n s) (hu : u.InStep s)
    (horder : Catalog.Orderly s.opened s.announced (u.toldIn actions))
    (hconnect : ∀ k, .useCursor k (.connect n) ∉ actions) :
    (u.run actions).Lacks n (s.afterAll (u.toldIn actions)) := by
  induction actions generalizing u s with
  | nil => exact h
  | cons a actions ih =>
    rw [toldIn_cons] at horder ⊢
    obtain ⟨hfirst, hrest⟩ := Schedule.orderly_append.1 horder
    have hadmits := admits_of_orderly hfirst
    have hstep := h.step hu hadmits fun k heq => hconnect k (heq ▸ List.mem_cons_self)
    rw [Schedule.afterAll_append]
    exact ih hstep (hu.step hadmits) hrest fun k hmem => hconnect k (List.mem_cons_of_mem a hmem)

/-- Whatever happens, nothing gets into a feed that was let go of. -/
theorem dropped_run (h : u.session.exchange.catalog.Dropped id) (actions : List Action) :
    (u.run actions).session.exchange.catalog.Dropped id := by
  induction actions generalizing u with
  | nil => exact h
  | cons a actions ih =>
    refine ih ?_
    obtain ⟨as, -, heq⟩ | ⟨-, b, heq⟩ := (u.step_effect a).catalog_cases
    · rw [heq]
      exact h.run as
    · rw [heq]
      exact h.act b

/-! ## Consumers that leave -/

/-- A consumer that is bound to a name has a feed. -/
def Fed (u : Usage) : Prop :=
  ∀ c ∈ u.cursors, ∀ n, c.IsBoundTo n → ∃ id, c.feed = some id

theorem Effect.fed (h : u.Effect a u') (hu : u.Fed) : u'.Fed := by
  cases h with
  | opens =>
    intro c hc n hbound
    obtain hc | hc := List.mem_append.1 hc
    · exact hu c hc n hbound
    · obtain rfl := List.mem_singleton.1 hc
      cases hbound.1
  | plays hc hmoves =>
    have hold := hu _ (List.mem_of_getElem? hc)
    intro d hd n hbound
    obtain hd | rfl := List.mem_or_eq_of_mem_set hd
    · exact hu d hd n hbound
    · cases hmoves with
      | reads hstep hreads =>
        rw [hreads.feed]
        exact hold n (hreads.isBoundTo hbound)
      | connects hopen hconnect => exact ⟨_, rfl⟩
      | stays hstate => exact hold n hbound
      | leaves hstate => exact absurd rfl hbound.2
  | _ => exact hu

theorem fed_run (hu : u.Fed) (actions : List Action) : (u.run actions).Fed := by
  induction actions generalizing u with
  | nil => exact hu
  | cons a actions ih => exact ih ((u.step_effect a).fed hu)

variable {c : Cursor} {k : Nat}

/-- A consumer that has not left yet leaves when it is closed. -/
theorem catalog_close (hc : u.cursors[k]? = some c) (hstate : c.state ≠ .closed) :
    (u.step (.useCursor k .close)).session.exchange.catalog =
      c.leave u.session.exchange.catalog := by
  obtain ⟨hclosed, -⟩ | ⟨-, parked, roused, heq⟩ := c.close_cases u.session.exchange
  · exact absurd hclosed hstate
  · simp only [Usage.step, useCursor, hc, Script.Stage.playCursor, heq]
    rfl

/-- The feed of a consumer that leaves is empty then, and nothing gets into it any more. -/
theorem IsAttended.dropped (hu : u.IsAttended) (hc : c ∈ u.cursors) (hfeed : c.feed = some id) :
    (c.leave u.session.exchange.catalog).Dropped id := by
  have hsize := c.size_leave u.session.exchange.catalog
  have hlt : id < (c.leave u.session.exchange.catalog).feeds.size := by
    rw [hsize]
    exact (hu.named c hc id hfeed).1
  have hclosed : (c.leave u.session.exchange.catalog).feed id =
      ((c.name.elim u.session.exchange.catalog
        u.session.exchange.catalog.disconnect).feed id).close := by
    rw [Cursor.leave, hfeed, Option.elim_some, Catalog.size_modifyFeed] at hlt
    rw [Cursor.leave, hfeed, Option.elim_some, Catalog.feed_modifyFeed_self _ hlt]
  refine ⟨⟨hlt, fun m e he heq => ?_⟩, ?_, ?_⟩
  · have hnamed := Cursor.get?_leave (fun id hid => (hu.named c hc id hid).2) he
    rw [heq] at hnamed
    exact hnamed.2 hfeed
  · rw [hclosed]
    rfl
  · rw [hclosed]
    rfl

/-- A consumer that leaves before the end leaves nothing of its result set. -/
theorem InStep.lacks (hu : u.InStep s) (hc : u.cursors[k]? = some c) (hbound : c.IsBoundTo n)
    (hover : ¬ s.IsOver n) : (u.step (.useCursor k .close)).Lacks n s := by
  obtain hemptied | hhosts := hu
  · exact .inl (emptied_step hemptied _)
  · refine .inr ?_
    rw [catalog_close hc hbound.2]
    exact hhosts.forsaken hc hbound hover

/-! ## What is left -/

/-- What a session has to do with a result set that its consumer has abandoned; `id` is the feed
the consumer had. -/
structure Abandoned (n : String) (id : FeedId) (s : Schedule) (u : Usage) : Prop where
  /-- Nothing is kept of it, -/
  absent : u.session.exchange.catalog.entries.get? n = none
  /-- and nothing waits for the consumer, or ever will. -/
  dropped : u.session.exchange.catalog.Dropped id
  /-- If reading has to stop, it is for another result set. -/
  spared : u.session.exchange.catalog.isSaturated = true →
    ∃ m e, m ≠ n ∧ u.session.exchange.catalog.entries.get? m = some e ∧ e.feed ≠ id ∧
      e.finished = false ∧
      u.session.exchange.catalog.limit ≤ (u.session.exchange.catalog.feed e.feed).count
  /-- If it is announced, the name is crossed off the list of those that will not be wanted. -/
  swallowed : u.IsOpen → n ∉ s.announced → ∀ i,
    u.session.exchange.catalog.hello i n = { u.session.exchange.catalog with
      discarded := u.session.exchange.catalog.discarded.filter (· ≠ n) }
  /-- Whatever piece of it comes changes nothing. -/
  ignored : ∀ i, (i, n) ∈ s.streams → ∀ w bytes,
    u.session.exchange.catalog.piece i w bytes = u.session.exchange.catalog
  /-- When its end is heard it is answered once, under its index, and nothing else happens. -/
  answered : ∀ a r, u.heard a = some r → r.kind = .resultSetBye → (r.slot, n) ∈ s.streams →
    (u.step a).farewells = u.farewells ++ [⟨.byeOk, r.slot, []⟩] ∧
      (u.step a).session.exchange.catalog = u.session.exchange.catalog

/-- When the end of a result set is heard it is answered, and taken down. -/
theorem step_bye {r : Reply} (h : u.heard a = some r) (hbye : r.kind = .resultSetBye) :
    (u.step a).farewells = u.farewells ++ [⟨.byeOk, r.slot, []⟩] ∧
      (u.step a).session.exchange.catalog = u.session.exchange.catalog.bye r.slot := by
  have htold : u.told a = some (.bye r.slot) := by
    simp only [told, h, Option.bind_some, Reply.action?, hbye]
  constructor
  · rw [step_farewell, h, Option.bind_some, Reply.farewell?, if_pos hbye]
    rfl
  · have hturn := u.step_turn a
    rw [htold] at hturn
    cases hturn with
    | news hsaid hcatalog hcursors => exact hcatalog

/-- A result set that is lacking has been abandoned if its consumer's feed was dropped. -/
theorem Lacks.abandoned (h : u.Lacks n s) (hdropped : u.session.exchange.catalog.Dropped id) :
    u.Abandoned n id s := by
  have habsent : u.session.exchange.catalog.entries.get? n = none := by
    obtain hemptied | hforsaken := h
    · have hentries : u.session.exchange.catalog.entries = .empty :=
        congrArg Prod.fst hemptied.registry
      rw [hentries, Dict.get?_empty]
    · exact hforsaken.absent
  have hfree : ∀ i, (i, n) ∈ s.streams → u.session.exchange.catalog.byIndex.get? i = none := by
    obtain hemptied | hforsaken := h
    · have hindices : u.session.exchange.catalog.byIndex = .empty :=
        congrArg (fun books => books.2.1) hemptied.registry
      exact fun i _ => by rw [hindices, Dict.get?_empty]
    · exact hforsaken.unindexed
  refine ⟨habsent, hdropped, fun hfull => ?_, fun hopen hnew i => ?_,
    fun i hi => Catalog.piece_of_free (hfree i hi), fun a r hheard hbye hi => ?_⟩
  · obtain ⟨m, e, he, hfinished, hcount⟩ := Catalog.isSaturated_iff.1 hfull
    refine ⟨m, e, ?_, he, hdropped.unfed.ne m e he, hfinished, hcount⟩
    rintro rfl
    rw [habsent] at he
    cases he
  · obtain hemptied | hforsaken := h
    · exact Bool.noConfusion (hemptied.closed.symm.trans hopen)
    · exact Catalog.hello_swallowed (hforsaken.discarded hnew) i
  · obtain ⟨hanswer, hcatalog⟩ := step_bye hheard hbye
    rw [Catalog.bye_of_free (hfree r.slot hi)] at hcatalog
    exact ⟨hanswer, hcatalog⟩

/-- An abandoned result set never stalls the session. Whatever was done with a session before: if a
consumer is closed, as it also is when it is dropped, before its result set is over, announced or
not, then after whatever follows nothing is kept of the result set and reading never stops for it,
provided that the server keeps its order and no new consumer asks for it. The ends of result sets
are answered in any run, be anything known of them or not: once for each, in the order in which
they are heard. -/
theorem abandoned_run (settings : Settings) (link : Link) (id : UInt64) :
    let u := start settings link id
    (∀ past number c n after, (u.run past).cursors[number]? = some c → c.IsBoundTo n →
      ¬ (u.schedule past).IsOver n →
      u.ServedInOrder (past ++ .useCursor number .close :: after) →
      (∀ k, .useCursor k (.connect n) ∉ after) →
      ∃ feed, c.feed = some feed ∧
        (u.run (past ++ .useCursor number .close :: after)).Abandoned n feed
          (u.schedule (past ++ .useCursor number .close :: after))) ∧
    ∀ actions, (u.run actions).farewells = (u.heardIn actions).filterMap Reply.farewell? := by
  intro u
  refine ⟨fun past number c n after hc hbound hover horder hconnect => ?_, fun actions => ?_⟩
  · obtain ⟨feed, hfeed⟩ : ∃ feed, c.feed = some feed :=
      fed_run (u := u) nofun past c (List.mem_of_getElem? hc) n hbound
    refine ⟨feed, hfeed, ?_⟩
    -- the server says nothing while the consumer leaves
    have hquiet : (u.run past).told (.useCursor number .close) = none := rfl
    have htold : u.toldIn (past ++ .useCursor number .close :: after) =
        u.toldIn past ++ ((u.run past).step (.useCursor number .close)).toldIn after := by
      rw [toldIn_append, toldIn_cons, hquiet]
      rfl
    rw [Usage.ServedInOrder, htold] at horder
    obtain ⟨hbefore, hafter⟩ := (Schedule.orderly_append (s := {})).1 horder
    have hstep : (u.run past).InStep (u.schedule past) :=
      (inStep_start settings link id).run hbefore
    have hleft : ((u.run past).step (.useCursor number .close)).InStep (u.schedule past) :=
      hstep.step (by simp [hquiet])
    -- the books have nothing of the result set from then on
    have hlacks := (hstep.lacks hc hbound hover).run hleft hafter hconnect
    -- and neither has the feed
    have hdropped := ((attended_start settings link id).run past).dropped
      (List.mem_of_getElem? hc) hfeed
    rw [← catalog_close hc hbound.2] at hdropped
    rw [run_append, run_cons, schedule, htold, Schedule.afterAll_append]
    exact hlacks.abandoned (dropped_run hdropped after)
  · exact farewells_run u actions

/-- A session with room for one record of a result set, of which two come. -/
def stalled : Usage × List Action :=
  let settings := ({} : Environment).settings.withResultSetBuffer 1
  let link : LocalLink := { capacity := 1 }
  let name : Bytes := Utf8.encode "a"
  let replies : List Reply := [.plain .resultSetHello 3 name, ⟨.resultSetPayload, 3, 0, [7]⟩,
    ⟨.resultSetPayload, 3, 0, []⟩, ⟨.resultSetPayload, 3, 0, [8]⟩, ⟨.resultSetPayload, 3, 0, []⟩,
    .plain .resultSetBye 3 []]
  (start settings (.inProcess link) 0,
    [.openCursor, .useCursor 0 (.connect "a"), .farEnd (.inProcess { link with replies }) true,
      .routeNext, .routeNext, .routeNext, .routeNext])

/-- `abandoned_run` where reading has stopped for the result set that is abandoned: it goes on, and
the end of the result set is heard and answered. -/
theorem abandoned_run_stalled :
    let after := [.routeNext, .routeNext, .routeNext]
    (stalled.1.run stalled.2).session.exchange.catalog.isSaturated = true ∧
    stalled.1.ServedInOrder (stalled.2 ++ .useCursor 0 .close :: after) ∧
    (∃ feed, (stalled.1.run (stalled.2 ++ .useCursor 0 .close :: after)).Abandoned "a" feed
      (stalled.1.schedule (stalled.2 ++ .useCursor 0 .close :: after))) ∧
    (stalled.1.run (stalled.2 ++ .useCursor 0 .close :: after)).farewells = [⟨.byeOk, 3, []⟩] := by
  intro after
  have htold : stalled.1.toldIn (stalled.2 ++ .useCursor 0 .close :: after) =
      [.hello 3 "a", .piece 3 0 [7], .piece 3 0 [], .piece 3 0 [8], .piece 3 0 [], .bye 3] := by
    decide +kernel
  have horder : stalled.1.ServedInOrder (stalled.2 ++ .useCursor 0 .close :: after) := by
    rw [Usage.ServedInOrder, htold]
    simp [Catalog.Orderly, Catalog.Action.Admitted]
  have hstreams : (3, "a") ∈ (stalled.1.schedule stalled.2).streams := by decide +kernel
  have hcursor : (stalled.1.run stalled.2).cursors[0]? =
      some { state := .connecting, name := some "a", feed := some 0 } := by decide +kernel
  obtain ⟨feed, -, habandoned⟩ := (abandoned_run _ _ _).1 stalled.2 0 _ "a" after hcursor
    ⟨rfl, by decide⟩ (fun hover => hover.2 3 hstreams) horder (by simp [after])
  exact ⟨by decide +kernel, horder, ⟨feed, habandoned⟩, by decide +kernel⟩

end Usage

end QueryLink
