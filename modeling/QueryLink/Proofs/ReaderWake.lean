import QueryLink.Proofs.Backlog
import QueryLink.Proofs.StreamTraffic

/-!
# The pump that stopped reading

The pump stops reading while a result set that is not over has a full feed, and leaves word that
it waits to be roused. Consumers make room: they take a record from a full feed, or leave, and then
they rouse the pump if it waits. They do so without looking whether another feed is still full;
the pump looks again and stops again if so. Everything else that could make room, the end of a
result set above all, comes by a frame, and none is read meanwhile. So a pump that waits has a
reason to: a feed is full, or the session has ended.

Effects of steps leave open who was roused, so the operations are gone through here one by one:
most of them `Spares` the pump, the others `Heeds` it.

## Key results

- `Exchange.Heeds`: the pump keeps waiting only for a reason, and whoever ends its waiting rouses
  it
- `Cursor.heeds_takeEvent`, `Cursor.heeds_close`: consumers that make room
- `Exchange.heeds_route`: no frame does, as none is read while the pump waits
- `Session.routeAll_parks`, `Session.turn_parks`: a pump that stops for a full feed waits
- `Usage.step_heeds`: every step of a session
- `Usage.paused_run`: when the pump waits, after any run, and what ends it
-/

namespace QueryLink

namespace Catalog

variable {c c' : Catalog}

/-- Reading has to stop for a result set that is not over and has a full feed. -/
theorem isSaturated_iff :
    c.isSaturated = true ↔ ∃ name e, c.entries.get? name = some e ∧ e.finished = false ∧
      c.limit ≤ (c.feed e.feed).count := by
  simp only [isSaturated, List.any_eq_true, Dict.mem_values_iff, Feed.isFull, Bool.and_eq_true,
    Bool.not_eq_true', decide_eq_true_eq]
  constructor
  · rintro ⟨e, ⟨name, he⟩, hfinished, hfull⟩
    exact ⟨name, e, he, hfinished, hfull⟩
  · rintro ⟨name, e, he, hfinished, hfull⟩
    exact ⟨e, ⟨name, he⟩, hfinished, hfull⟩

/-- A consumer who comes makes no room. -/
theorem isSaturated_connect (h : c.isSaturated = true) (m : String) :
    (c.act (.connect m)).isSaturated = true := by
  obtain ⟨name, e, he, hfinished, hfull⟩ := isSaturated_iff.1 h
  rw [isSaturated_iff, limit_act]
  simp only [feed_connect]
  cases hclaimed : (c.entry m).1.claimed with
  | true =>
    rw [connect_refused hclaimed]
    exact ⟨name, e, he, hfinished, hfull⟩
  | false =>
    by_cases hname : name = m
    · -- the result set that is full gets its consumer, and is still not over
      subst hname
      have hentry : (c.entry name).1 = e := by simp only [entry, he]
      rw [connect_claims hclaimed (by rw [hentry, hfinished]), hentry]
      exact ⟨name, _, (c.get?_setEntry_entry name _ name).trans (if_pos rfl), hfinished, hfull⟩
    · refine ⟨name, e, ?_, hfinished, hfull⟩
      have hspared : (c.act (.connect m)).entries.get? name = c.entries.get? name :=
        c.get?_act (fun heq => hname heq.symm) List.not_mem_nil
      exact hspared.trans he

/-- Changing a feed that is not full, or keeping its count, makes no room. -/
theorem isSaturated_modifyFeed (h : c.isSaturated = true) {id : FeedId} {f : Feed → Feed}
    (hroom : (c.feed id).isFull c.limit = false ∨ (f (c.feed id)).count = (c.feed id).count) :
    (c.modifyFeed id f).isSaturated = true := by
  obtain ⟨name, e, he, hfinished, hfull⟩ := isSaturated_iff.1 h
  refine isSaturated_iff.2 ⟨name, e, he, hfinished, ?_⟩
  show c.limit ≤ _
  rw [feed_modifyFeed]
  split
  · rename_i hfeed
    rw [hfeed.1] at hfull
    obtain hroom | hkept := hroom
    · -- the feed that is full is not this one
      simp only [Feed.isFull, decide_eq_false_iff_not] at hroom
      exact absurd hfull hroom
    · rw [hkept]
      exact hfull
  · exact hfull

end Catalog

/-- Only a record that is taken counts. -/
theorem Feed.count_take_of_ne {f : Feed} (h : ∀ bytes, f.take.1 ≠ some (.record bytes)) :
    f.take.2.count = f.count := by
  unfold take at h ⊢
  split
  · rfl
  · rename_i event queue hqueue
    simp only [hqueue] at h
    cases event with
    | record bytes => exact absurd rfl (h bytes)
    | endOfRecords => rfl
    | cutOff outage => rfl

namespace Exchange

variable {x x' x'' : Exchange}

/-- The pump does not wait without a reason: the session has ended, or a feed is full. -/
def Guarded (x : Exchange) : Prop :=
  x.readerParked = true → x.closed = true ∨ x.catalog.isSaturated = true

/-- The second exchange is what became of the first one without the pump being forgotten: whoever
ended its waiting roused it, and it does not go on waiting without a reason. -/
structure Heeds (x x' : Exchange) : Prop where
  roused : ∃ more, x'.roused = x.roused ++ more ∧
    (x.readerParked = true → x'.readerParked = false → .pump ∈ more)
  guarded : x.Guarded → x'.Guarded

theorem Heeds.refl (x : Exchange) : x.Heeds x where
  roused := ⟨[], by simp, fun hparked hfree => by simp [hparked] at hfree⟩
  guarded h := h

theorem Heeds.trans (h : x.Heeds x') (h' : x'.Heeds x'') : x.Heeds x'' where
  roused := by
    obtain ⟨more, hmore, hpump⟩ := h.roused
    obtain ⟨later, hlater, hpump'⟩ := h'.roused
    refine ⟨more ++ later, by rw [hlater, hmore, List.append_assoc], fun hparked hfree => ?_⟩
    cases hmid : x'.readerParked with
    | true => exact List.mem_append_right _ (hpump' hmid hfree)
    | false => exact List.mem_append_left _ (hpump hparked hmid)
  guarded hx := h'.guarded (h.guarded hx)

/-- The second exchange is what became of the first one without anything that concerns the pump's
waiting, but somebody may have been roused. -/
structure Spares (x x' : Exchange) : Prop where
  parked : x'.readerParked = x.readerParked
  closed : x'.closed = x.closed
  catalog : x'.catalog = x.catalog
  roused : ∃ more, x'.roused = x.roused ++ more

theorem Spares.refl (x : Exchange) : x.Spares x := ⟨rfl, rfl, rfl, [], by simp⟩

theorem Spares.trans (h : x.Spares x') (h' : x'.Spares x'') : x.Spares x'' where
  parked := h'.parked.trans h.parked
  closed := h'.closed.trans h.closed
  catalog := h'.catalog.trans h.catalog
  roused := by
    obtain ⟨more, hmore⟩ := h.roused
    obtain ⟨later, hlater⟩ := h'.roused
    exact ⟨more ++ later, by rw [hlater, hmore, List.append_assoc]⟩

/-- A change during which the pump waits on. -/
theorem Heeds.of_parked (hparked : x'.readerParked = x.readerParked)
    (hroused : ∃ more, x'.roused = x.roused ++ more) (hguarded : x.Guarded → x'.Guarded) :
    x.Heeds x' where
  roused := by
    obtain ⟨more, hmore⟩ := hroused
    refine ⟨more, hmore, fun hwaits hfree => ?_⟩
    rw [hparked, hwaits] at hfree
    cases hfree
  guarded := hguarded

theorem Spares.heeds (h : x.Spares x') : x.Heeds x' := by
  refine .of_parked h.parked h.roused fun hx hwaits => ?_
  rw [h.closed, h.catalog]
  exact hx (h.parked ▸ hwaits)

theorem spares_rouse (x : Exchange) (r : Runner) : x.Spares (x.rouse r) :=
  ⟨rfl, rfl, rfl, [r], rfl⟩

/-! ## What callers do -/

theorem spares_settle (x : Exchange) (f : Promise.State → Promise.State) (id : PromiseId) :
    x.Spares (x.settle f id) := by
  unfold settle
  split
  · exact .refl x
  · exact ⟨rfl, rfl, rfl, _, rfl⟩

theorem spares_settleAll (x : Exchange) (f : Promise.State → Promise.State)
    (ids : List PromiseId) : x.Spares (x.settleAll f ids) := by
  induction ids generalizing x with
  | nil => exact .refl x
  | cons id ids ih => exact (x.spares_settle f id).trans (ih (x.settle f id))

theorem spares_take (x : Exchange) (id : PromiseId) : x.Spares (x.take id).2 := by
  unfold take
  split
  · exact .refl x
  · exact ⟨rfl, rfl, rfl, [], by simp⟩

theorem spares_await (x : Exchange) (task : TaskId) (id : PromiseId) :
    x.Spares (x.await task id).2 := by
  unfold await
  split
  · exact .refl x
  · exact ⟨rfl, rfl, rfl, [], by simp⟩

theorem spares_submit (x : Exchange) (ask : Ask) (payload : Bytes) :
    x.Spares (x.submit ask payload).2 := by
  obtain ⟨e, waitlist, heq, -⟩ | ⟨slot, boxes, -, -, heq⟩ | ⟨waitlist, line, -, -, -, heq⟩ :=
    x.submit_cases ask payload <;> rw [heq] <;> exact ⟨rfl, rfl, rfl, [], by simp [addPromises]⟩

/-- A session that ends leaves the pump as it is; that it has ended is a reason to wait. -/
theorem heeds_shutdown (x : Exchange) (outage : Outage) : x.Heeds (x.shutdown outage) := by
  unfold shutdown
  split
  · exact .refl x
  · rcases x.boxes.clear with ⟨owners, boxes⟩
    rcases x.waitlist.clear with ⟨waiting, waitlist⟩
    -- those in flight fail first, then those that wait
    have hfailed := (spares_settleAll { x with closed := true, boxes, waitlist } (.fail outage)
      owners).trans (spares_settleAll _ (.fail outage) waiting)
    exact .of_parked hfailed.parked hfailed.roused fun _ _ => .inl hfailed.closed

/-! ## What the pump does -/

theorem spares_deliver {r : Reply} {isHead : Bool} {frames : List Request}
    (h : x.deliver r isHead = .ok (frames, x')) : x.Spares x' := by
  obtain ⟨completes, freed, boxes, -, heq⟩ := deliver_cases h
  have hboxes : x.Spares { x with boxes } := ⟨rfl, rfl, rfl, [], by simp⟩
  have hsettled := hboxes.trans (spares_settleAll _ (.complete r.payload) completes)
  split at heq
  · obtain ⟨waitlist, boxes', hdispatch⟩ := dispatch_frame
      (({ x with boxes } : Exchange).settleAll (.complete r.payload) completes)
    rw [Prod.mk.injEq] at heq
    rw [heq.2, hdispatch]
    exact hsettled.trans ⟨rfl, rfl, rfl, [], by simp⟩
  · cases heq
    exact hsettled

/-- A pump that reads a frame does not wait, unless the session has ended. -/
theorem heeds_route (hroom : x.catalog.isSaturated = false) {r : Reply} {frames : List Request}
    (h : x.route r = .ok (frames, x')) : x.Heeds x' := by
  obtain ⟨rfl, -⟩ | ⟨-, isHead, hdeliver⟩ | ⟨hopen, a, -, rfl, -⟩ := route_cases h
  · exact .refl x'
  · exact (spares_deliver hdeliver).heeds
  · refine .of_parked rfl ⟨[], by simp⟩ fun hx hwaits => ?_
    -- no feed is full, so there is nothing the pump could wait for
    obtain hclosed | hfull := hx hwaits
    · rw [hopen] at hclosed
      cases hclosed
    · rw [hroom] at hfull
      cases hfull

/-- Rousing the pump ends its waiting, whatever happened to the result sets before. -/
theorem heeds_wakeReader (x : Exchange) (catalog : Catalog) :
    x.Heeds { x with catalog }.wakeReader := by
  unfold wakeReader
  split
  · exact ⟨⟨[.pump], rfl, fun _ _ => List.mem_singleton.2 rfl⟩, nofun⟩
  · rename_i hfree
    exact .of_parked rfl ⟨[], by simp⟩ fun _ hwaits => absurd hwaits hfree

end Exchange

/-! ## What consumers do -/

namespace Cursor

open Exchange (Heeds)

/-- The record that makes room in a full feed rouses the pump. -/
theorem heeds_takeEvent (x : Exchange) (id : FeedId) : x.Heeds (takeEvent x id).2 := by
  -- as long as this makes no room the pump may wait on
  have hwaits (hroom : (x.catalog.feed id).isFull x.catalog.limit = false ∨
      (x.catalog.feed id).take.2.count = (x.catalog.feed id).count) :
      x.Heeds { x with
        catalog := x.catalog.modifyFeed id fun _ => (x.catalog.feed id).take.2 } := by
    refine .of_parked rfl ⟨[], by simp⟩ fun hx hparked => ?_
    exact (hx hparked).imp_right fun hfull => Catalog.isSaturated_modifyFeed hfull hroom
  unfold takeEvent
  dsimp only
  split
  · split
    · exact x.heeds_wakeReader _
    · rename_i hroom
      exact hwaits (.inl (Bool.not_eq_true _ ▸ hroom))
  · rename_i hother
    exact hwaits (.inr (Feed.count_take_of_ne fun bytes htake => hother bytes htake))

theorem heeds_next (c : Cursor) (x : Exchange) : x.Heeds (c.next x).2.2 := by
  unfold next
  split
  · exact .refl x
  · split
    · exact .refl x
    · exact .refl x
    · rename_i id _ _
      have htake := heeds_takeEvent x id
      split <;> rename_i heq <;> rw [heq] at htake
      · exact htake
      · exact htake
      · exact htake
      · exact htake
      · split <;> exact htake

theorem heeds_nextItem (c : Cursor) (x : Exchange) : x.Heeds (c.nextItem x).2.2 := by
  have hnext := c.heeds_next x
  unfold nextItem
  dsimp only
  split
  · exact .refl x
  · split <;> rename_i heq <;> rw [heq] at hnext <;> exact hnext

theorem heeds_fill (fuel : Nat) (c : Cursor) (x : Exchange) : x.Heeds (fill fuel c x).2.2 := by
  induction fuel generalizing c x with
  | zero => exact .refl x
  | succ fuel ih =>
    have hnext := c.heeds_next x
    unfold fill
    split
    · rename_i heq
      rw [heq] at hnext
      exact hnext.trans (ih _ _)
    · exact hnext

theorem heeds_read (c : Cursor) (x : Exchange) (n : Nat) : x.Heeds (c.read x n).2.2 := by
  have hfill := heeds_fill (c.backlog x) c x
  unfold read
  split
  · exact .refl x
  · split <;> rename_i heq <;> rw [heq] at hfill <;> exact hfill

theorem heeds_drain (fuel : Nat) (c : Cursor) (x : Exchange) :
    x.Heeds (drain fuel c x).2.2.2 := by
  induction fuel generalizing c x with
  | zero => exact .refl x
  | succ fuel ih =>
    have hnext := c.heeds_next x
    unfold drain
    split <;> rename_i heq <;> rw [heq] at hnext
    · exact hnext.trans (ih _ _)
    · exact hnext
    · exact hnext
    · exact hnext

theorem heeds_connect (c : Cursor) (x : Exchange) (name : String) :
    x.Heeds (c.connect x name).2.2 := by
  obtain ⟨e, heq⟩ | ⟨feed, catalog, hopen, hconnect, heq⟩ := c.connect_cases x name
  · rw [heq]
    exact .refl x
  · rw [heq]
    have hcatalog : catalog = x.catalog.act (.connect name) := by rw [Catalog.act, hconnect]
    rw [hcatalog]
    refine .of_parked rfl ⟨[], by simp⟩ fun hx hparked => ?_
    exact (hx hparked).imp_right fun hfull => Catalog.isSaturated_connect hfull name

/-- A consumer that leaves takes a full feed with it, and rouses the pump. -/
theorem heeds_close (c : Cursor) (x : Exchange) : x.Heeds (c.close x).2 := by
  unfold close
  split
  · exact .refl x
  · cases c.name with
    | some name =>
      cases c.feed with
      | none => exact x.heeds_wakeReader _
      | some id => exact x.heeds_wakeReader _
    | none =>
      cases c.feed with
      | none => exact .refl x
      | some id =>
        -- a feed that its consumer lets go of keeps its count
        refine .of_parked rfl ⟨[], by simp⟩ fun hx hparked => ?_
        exact (hx hparked).imp_right fun hfull =>
          Catalog.isSaturated_modifyFeed hfull (.inr rfl)

theorem heeds_playCursor (c : Cursor) (x : Exchange) (step : Script.CursorStep) :
    x.Heeds (Script.Stage.playCursor c x step).2.2.2 := by
  cases step with
  | connect name => exact c.heeds_connect x name
  | next => exact c.heeds_next x
  | nextItem =>
    have hitem := c.heeds_nextItem x
    simp only [Script.Stage.playCursor]
    split <;> rename_i heq <;> rw [heq] at hitem <;> exact hitem
  | read n => exact c.heeds_read x n
  | readToEnd => exact heeds_drain (c.backlog x) c x
  | close => exact c.heeds_close x

end Cursor

/-! ## Replies that can be received -/

theorem StreamLink.backlog_eq (l : StreamLink) : l.backlog = l.unread.length := by
  rw [backlog, unread, List.length_append]

/-- A reply that is received is one less to receive. -/
theorem Link.backlog_receive {l l' : Link} {reply : Reply}
    (h : l.receive = (some (.ok (some reply)), l')) : l'.backlog < l.backlog := by
  cases l with
  | stream l =>
    obtain ⟨hanswer, rfl⟩ := Prod.mk.inj h
    have hspec := l.receive_spec
    rcases hdecode : Reply.decode l.unread with e | _ | ⟨found, rest⟩
    · rw [hdecode] at hspec
      cases hspec.1.symm.trans hanswer
    · rw [hdecode] at hspec
      exact absurd (hspec.1.symm.trans hanswer) (StreamLink.atEnd_ne_frame _ _ _)
    · rw [hdecode] at hspec
      show l.receive.2.backlog < l.backlog
      rw [StreamLink.backlog_eq, StreamLink.backlog_eq, hspec.2]
      exact Reply.lawful.length_lt hdecode
  | inProcess l =>
    unfold receive LocalLink.receive at h
    cases hreplies : l.replies with
    | nil =>
      simp only [hreplies] at h
      split at h <;> cases h
    | cons first later =>
      simp only [hreplies] at h
      obtain ⟨-, rfl⟩ := Prod.mk.inj h
      simp [backlog, hreplies]

/-- Sending has nothing to do with that. -/
theorem Link.backlog_sendAll (l : Link) (frames : List Request) :
    (l.sendAll frames).backlog = l.backlog := by
  induction frames generalizing l with
  | nil => rfl
  | cons frame frames ih =>
    have hsend : (l.send frame).backlog = l.backlog := by cases l <;> rfl
    exact (ih (l.send frame)).trans hsend

/-! ## Sessions -/

namespace Session

open Exchange (Heeds Spares)

theorem spares_rousePump (s : Session) : s.exchange.Spares s.rousePump.exchange := by
  unfold rousePump
  split
  · exact .refl s.exchange
  · exact s.exchange.spares_rouse .pump

theorem spares_letGo (s : Session) : s.exchange.Spares s.letGo.exchange := by
  unfold letGo
  dsimp only
  split
  · exact spares_rousePump { s with holders := s.holders - 1 }
  · exact .refl s.exchange

theorem spares_farEnd (s : Session) (link : Link) (noticed : Bool) :
    s.exchange.Spares (s.farEnd link noticed).exchange := by
  unfold farEnd
  dsimp only
  split
  · exact spares_rousePump { s with link, linkWatched := false }
  · exact .refl s.exchange

theorem spares_mail (s : Session) (m : Mail) : s.exchange.Spares (s.mail m).exchange :=
  spares_rousePump { s with mailbox := s.mailbox ++ [m] }

theorem spares_submit (s : Session) (ask : Exchange.Ask) (service : UInt64) (payload : Bytes) :
    s.exchange.Spares (s.submit ask service payload).2.exchange := by
  unfold submit
  split
  · exact .refl s.exchange
  · rename_i bytes _
    have hsubmit := s.exchange.spares_submit ask bytes
    split <;> rename_i exchange heq <;> rw [heq] at hsubmit
    · exact hsubmit
    · dsimp only
      split
      · rename_i frame _
        exact hsubmit.trans (spares_mail { s with exchange } (.request frame))
      · exact hsubmit

theorem heeds_close (s : Session) (closer : TaskId) :
    s.exchange.Heeds (s.close closer).2.exchange := by
  unfold close
  split
  · exact .refl s.exchange
  · have hmail := spares_mail { s with exchange := s.exchange.shutdown .closed } (.close closer)
    exact (s.exchange.heeds_shutdown .closed).trans hmail.heeds

theorem heeds_finish (s : Session) (outage : Outage) :
    s.exchange.Heeds (s.finish outage).exchange :=
  s.exchange.heeds_shutdown outage

theorem heeds_closeLink (s : Session) (closer : Option TaskId) :
    s.exchange.Heeds (s.closeLink closer).exchange := by
  unfold closeLink
  split
  · exact .refl s.exchange
  · rename_i result link _
    have hfinish := heeds_finish { s with link } .closed
    cases closer with
    | none => exact hfinish
    | some task => exact hfinish.trans (Exchange.spares_rouse _ (.task task)).heeds

theorem heeds_flushLink (s : Session) : s.exchange.Heeds s.flushLink.exchange := by
  unfold flushLink
  split
  · exact .refl s.exchange
  · exact .refl s.exchange
  · exact heeds_finish _ .crashed

theorem heeds_route (s : Session) (hroom : s.exchange.catalog.isSaturated = false) (r : Reply) :
    s.exchange.Heeds (s.route r).exchange := by
  unfold route
  split
  · exact .refl s.exchange
  · rename_i frames exchange hroute
    exact s.exchange.heeds_route hroom hroute

/-- The pump waits when a feed is full. -/
theorem heeds_routeAll (fuel : Nat) (s : Session) :
    s.exchange.Heeds (s.routeAll fuel).2.exchange := by
  induction fuel generalizing s with
  | zero => exact .refl s.exchange
  | succ fuel ih =>
    unfold routeAll
    split
    · rename_i hfull
      exact ⟨⟨[], by simp, fun _ hfree => by cases hfree⟩, fun _ _ => .inr hfull⟩
    · rename_i hroom
      rw [Bool.not_eq_true] at hroom
      split
      · exact .refl s.exchange
      · rename_i reply link _
        exact (heeds_route { s with link } hroom reply).trans (ih _)
      · exact .refl s.exchange
      · exact .refl s.exchange

/-- A pump that finds a feed full when it stops routing has left word that it waits. It can route
what it has from the link, so it stops for the feed or because the link has no more. -/
theorem routeAll_parks {fuel : Nat} {s : Session} (hfuel : s.link.backlog < fuel)
    (hgood : (s.routeAll fuel).1 = true)
    (hfull : (s.routeAll fuel).2.exchange.catalog.isSaturated = true) :
    (s.routeAll fuel).2.exchange.readerParked = true := by
  induction fuel generalizing s with
  | zero => exact absurd hfuel (Nat.not_lt_zero _)
  | succ fuel ih =>
    unfold routeAll at hgood hfull ⊢
    split at hgood
    · rename_i hbefore
      rw [if_pos hbefore]
    · rename_i hroom
      rw [if_neg hroom] at hfull ⊢
      rcases hreceive : s.link.receive with ⟨_ | e | _ | reply, link⟩
      · -- no feed was full, and none is now
        simp only [hreceive] at hfull
        exact absurd hfull hroom
      · simp only [hreceive, Bool.false_eq_true] at hgood
      · simp only [hreceive, Bool.false_eq_true] at hgood
      · simp only [hreceive] at hgood hfull ⊢
        have hless := Link.backlog_receive hreceive
        refine ih ?_ hgood hfull
        rw [link_route, Link.backlog_sendAll]
        exact Nat.lt_of_lt_of_le hless (Nat.le_of_lt_succ hfuel)

/-- A pump that closes goes on closing, or it is done. -/
theorem closeLink_phase_ne {s : Session} {closer : Option TaskId}
    (hclosing : s.phase = .closing closer) : (s.closeLink closer).phase ≠ .running := by
  unfold closeLink
  split
  · exact fun hrunning => by cases hclosing.symm.trans hrunning
  · cases closer <;> exact fun hrunning => by cases hrunning

/-- Flushing leaves the exchange as it is, if the pump still runs. -/
theorem flushLink_running {s : Session} (hrunning : s.flushLink.phase = .running) :
    s.flushLink.exchange = s.exchange := by
  unfold flushLink at hrunning ⊢
  split at hrunning
  · rfl
  · rfl
  · cases hrunning

/-- A pump that still runs after a turn has routed replies until it stopped. -/
theorem turn_running {s : Session} (hrunning : s.turn.phase = .running) :
    (s.takeMail.routeAll (s.takeMail.link.backlog + 1)).1 = true ∧ s.turn.exchange =
      (s.takeMail.routeAll (s.takeMail.link.backlog + 1)).2.exchange := by
  unfold turn at hrunning ⊢
  cases hphase : s.takeMail.phase with
  | running =>
    simp only [hphase] at hrunning ⊢
    rcases hall : s.takeMail.routeAll (s.takeMail.link.backlog + 1) with ⟨_ | _, s'⟩
    · simp only [hall] at hrunning
      cases hrunning
    · simp only [hall] at hrunning ⊢
      exact ⟨trivial, flushLink_running hrunning⟩
  | closing closer =>
    simp only [hphase] at hrunning
    exact absurd hrunning (closeLink_phase_ne hphase)
  | finished =>
    simp only [hphase] at hrunning
    cases hrunning

/-- So a pump that still runs after a turn has left word if a feed is full. -/
theorem turn_parks {s : Session} (hrunning : s.turn.phase = .running)
    (hfull : s.turn.exchange.catalog.isSaturated = true) :
    s.turn.exchange.readerParked = true := by
  obtain ⟨hgood, hexchange⟩ := turn_running hrunning
  rw [hexchange] at hfull ⊢
  exact routeAll_parks (Nat.lt_succ_self s.takeMail.link.backlog) hgood hfull

end Session

namespace Usage

open Exchange (Heeds Spares)

theorem submit_session (u : Usage) (ask : Exchange.Ask) (service : UInt64) (payload : Bytes) :
    (u.submit ask service payload).session = (u.session.submit ask service payload).2 := by
  unfold submit
  rcases u.session.submit ask service payload with ⟨e | receivers, session⟩ <;>
    cases u.session.envelope service payload <;> rfl

/-- No step forgets the pump. -/
theorem step_heeds (u : Usage) (a : Action) :
    u.session.exchange.Heeds (u.step a).session.exchange := by
  cases a with
  | submit ask service payload =>
    simp only [step, submit_session]
    exact (u.session.spares_submit ask service payload).heeds
  | abandon promise => exact (u.session.exchange.spares_settle .close promise).heeds
  | take promise => exact (u.session.exchange.spares_take promise).heeds
  | await task promise => exact (u.session.exchange.spares_await task promise).heeds
  | hold => exact .refl _
  | letGo => exact u.session.spares_letGo.heeds
  | close closer => exact u.session.heeds_close closer
  | openCursor => exact .refl _
  | useCursor number step =>
    simp only [Usage.step, useCursor]
    split
    · exact .refl _
    · rename_i c _
      exact c.heeds_playCursor u.session.exchange step
  | takeMail =>
    simp only [step, u.session.takeMail_exchange]
    exact .refl _
  | routeNext =>
    simp only [step]
    split
    · simp only [routeNext]
      split
      · exact u.session.heeds_routeAll 1
      · exact (u.session.heeds_routeAll 1).trans (Session.heeds_finish _ .crashed)
    · exact .refl _
  | flush =>
    simp only [step]
    split
    · exact u.session.heeds_flushLink
    · exact .refl _
  | shutLink =>
    simp only [step, shutLink]
    split
    · rename_i closer _
      exact u.session.heeds_closeLink closer
    · exact .refl _
  | farEnd link noticed => exact (u.session.spares_farEnd link noticed).heeds

/-- Nor does any run. -/
theorem run_heeds (u : Usage) (actions : List Action) :
    u.session.exchange.Heeds (u.run actions).session.exchange := by
  induction actions generalizing u with
  | nil => exact .refl _
  | cons a actions ih => exact (u.step_heeds a).trans (ih (u.step a))

/-- A pump that waits, after any run of a session, has a reason to: the session has ended, or a
result set that is not over has at least as many records waiting as the limit. Every step only adds
to those who were roused. One that ends the waiting rouses the pump, and so does every one that
leaves no feed full, unless the session ends with it. -/
theorem paused_run (settings : Settings) (link : Link) (id : UInt64) (actions : List Action) :
    let u := (start settings link id).run actions
    let x := u.session.exchange
    (x.readerParked = true → x.closed = true ∨
      ∃ name e, x.catalog.entries.get? name = some e ∧ e.finished = false ∧
        max settings.resultSetBuffer 1 ≤ (x.catalog.feed e.feed).count) ∧
    ∀ a, ∃ more, (u.step a).session.exchange.roused = x.roused ++ more ∧
      (x.readerParked = true → (u.step a).session.exchange.readerParked = false →
        .pump ∈ more) ∧
      (x.readerParked = true → (u.step a).IsOpen →
        (u.step a).session.exchange.catalog.isSaturated = false →
          (u.step a).session.exchange.readerParked = false ∧ .pump ∈ more) := by
  intro u x
  have hguarded : x.Guarded := ((start settings link id).run_heeds actions).guarded nofun
  have hlimit : x.catalog.limit = max settings.resultSetBuffer 1 :=
    (metered_run (u := start settings link id) (Catalog.metered_ofLimit _) actions).2
  refine ⟨fun hparked => ?_, fun a => ?_⟩
  · have hreason := hguarded hparked
    rwa [Catalog.isSaturated_iff, hlimit] at hreason
  · have hstep := u.step_heeds a
    obtain ⟨more, hmore, hpump⟩ := hstep.roused
    refine ⟨more, hmore, hpump, fun hparked hopen hroom => ?_⟩
    have hfree : (u.step a).session.exchange.readerParked = false := by
      rw [← Bool.not_eq_true]
      intro hwaits
      obtain hclosed | hfull := hstep.guarded hguarded hwaits
      · exact Bool.noConfusion (hclosed.symm.trans hopen)
      · exact Bool.noConfusion (hfull.symm.trans hroom)
    exact ⟨hfree, hpump hparked hfree⟩

/-- A session with room for one record of a result set, which came, and a consumer that has not
taken it. -/
def parked : Usage × List Action :=
  let settings := ({} : Environment).settings.withResultSetBuffer 1
  let link : LocalLink := { capacity := 1 }
  let replies : List Reply := [.plain .resultSetHello 3 (Utf8.encode "a"),
    ⟨.resultSetPayload, 3, 0, [7]⟩, ⟨.resultSetPayload, 3, 0, []⟩]
  (start settings (.inProcess link) 0,
    [.openCursor, .useCursor 0 (.connect "a"), .farEnd (.inProcess { link with replies }) true,
      .routeNext, .routeNext, .routeNext, .routeNext])

/-- `paused_run` where the pump waits: it has a reason, and the consumer that takes the record ends
its waiting and rouses it. -/
theorem paused_run_parked :
    let u := parked.1.run parked.2
    u.session.exchange.readerParked = true ∧
    (∃ name e, u.session.exchange.catalog.entries.get? name = some e ∧ e.finished = false ∧
      1 ≤ (u.session.exchange.catalog.feed e.feed).count) ∧
    ∃ more, (u.step (.useCursor 0 .next)).session.exchange.roused =
        u.session.exchange.roused ++ more ∧
      (u.step (.useCursor 0 .next)).session.exchange.readerParked = false ∧ .pump ∈ more := by
  intro u
  have hparked : u.session.exchange.readerParked = true := by decide +kernel
  have hopen : u.session.exchange.closed = false := by decide +kernel
  obtain ⟨hreason, hstep⟩ := paused_run (({} : Environment).settings.withResultSetBuffer 1)
    (.inProcess { capacity := 1 }) 0 parked.2
  obtain ⟨more, hmore, -, hroom⟩ := hstep (.useCursor 0 .next)
  have hstill : (u.step (.useCursor 0 .next)).session.exchange.closed = false := by decide +kernel
  refine ⟨hparked, (hreason hparked).resolve_left ?_, more, hmore,
    hroom hparked hstill (by decide +kernel)⟩
  exact fun hclosed => Bool.noConfusion (hopen.symm.trans hclosed)

end Usage

end QueryLink
