import QueryLink.Proofs.RequestLedger
import QueryLink.Proofs.RouteLaws

/-!
# Who has a request

While an exchange is open, an accepted request waits in line, or it was sent: then it owns the box
its frame names until all its promises are done. No reply, whatever it is and whoever sends it,
changes that, since only the owner of a box hears replies to it, and he gives it back after the
last one that he may expect.

## Key results

- `Held.grant`, `Held.hear`: a box is given to a request, and its owner hears a reply
- `Custody.submit_sent`, `Custody.submit_waits`: accepting a request
- `Custody.route`: routing a reply, and handing on the box that it may free
-/

namespace QueryLink

/-! ## Boxes -/

/-- How far the owner of a box got, given which promises are done: he heard nothing yet, or the
head of a query. -/
def Owner.Heard (o : Owner) (done : PromiseId → Prop) : Prop :=
  (o.received = 0 ∧ o.expected = 1) ∨
    ∃ head body, o.receivers = .query head body ∧ o.received = 1 ∧ o.expected = 2 ∧ done head

/-- A request that was sent owns the box its frame names, or its promises are done. -/
structure Held (boxes : BoxTable) (emitted : List Parcel) (done : PromiseId → Prop) : Prop where
  valid : boxes.Valid
  heard : ∀ slot o, boxes.owner? slot = some o → o.Heard done
  owned : ∀ slot o, boxes.owner? slot = some o →
    ∃ p ∈ emitted, p.receivers = some o.receivers ∧ p.frame.slot = slot
  settled : ∀ p ∈ emitted, ∀ r, p.receivers = some r →
    (∃ o, boxes.owner? p.frame.slot = some o ∧ o.receivers = r) ∨ ∀ id ∈ r.promises, done id

/-- An owner that hears a reply stays who he is. He has all replies only when all his promises
are done; until then he waits for the body of a query. -/
theorem Owner.Heard.next {o : Owner} {done : PromiseId → Prop} (h : o.Heard done) {isHead : Bool}
    {arrival : BoxTable.Arrival} (harrival : BoxTable.Arrival.of? o isHead = some arrival) :
    arrival.owner.receivers = o.receivers ∧
      (∀ id ∈ arrival.completes, id ∈ o.receivers.promises) ∧
      if arrival.owner.expected ≤ arrival.owner.received then
        ∀ id ∈ o.receivers.promises, id ∈ arrival.completes ∨ done id
      else ∃ head body, arrival.owner.receivers = .query head body ∧ arrival.owner.received = 1 ∧
        arrival.owner.expected = 2 ∧ head ∈ arrival.completes := by
  obtain ⟨receivers, expected, received⟩ := o
  obtain ⟨rfl, rfl⟩ | ⟨head, body, rfl, rfl, rfl, hdone⟩ := h
  · cases receivers with
    | statement reply =>
      cases harrival
      exact ⟨rfl, fun _ hid => hid, fun _ hid => .inl hid⟩
    | query head body =>
      -- only the head of a query leaves something to wait for
      cases isHead with
      | true =>
        cases harrival
        exact ⟨rfl, fun id hid => List.mem_cons.2 (.inl (List.mem_singleton.1 hid)),
          head, body, rfl, rfl, rfl, List.mem_singleton.2 rfl⟩
      | false =>
        cases harrival
        exact ⟨rfl, fun _ hid => hid, fun _ hid => .inl hid⟩
  · cases harrival
    refine ⟨rfl, fun id hid => List.mem_cons_of_mem _ hid, fun id hid => ?_⟩
    obtain rfl | hid := List.mem_cons.1 hid
    · exact .inr hdone
    · exact .inl hid

namespace Held

variable {boxes boxes' : BoxTable} {emitted : List Parcel} {done done' : PromiseId → Prop}
  {slot : UInt16}

/-- Promises that get done change nothing. -/
theorem mono (h : Held boxes emitted done) (hdone : ∀ id, done id → done' id) :
    Held boxes emitted done' where
  valid := h.valid
  heard slot o howner := by
    obtain hnone | ⟨head, body, hreceivers, hreceived, hexpected, hhead⟩ := h.heard slot o howner
    · exact .inl hnone
    · exact .inr ⟨head, body, hreceivers, hreceived, hexpected, hdone head hhead⟩
  owned := h.owned
  settled p hp r hr := (h.settled p hp r hr).imp_right fun hall id hid => hdone id (hall id hid)

/-- Frames that are no requests own no boxes. -/
theorem send_other (h : Held boxes emitted done) {p : Parcel} (hnone : p.receivers = none) :
    Held boxes (emitted ++ [p]) done where
  valid := h.valid
  heard := h.heard
  owned slot o howner := by
    obtain ⟨p', hp', hp⟩ := h.owned slot o howner
    exact ⟨p', List.mem_append_left _ hp', hp⟩
  settled p' hp' r hr := by
    obtain hp' | hp' := List.mem_append.1 hp'
    · exact h.settled p' hp' r hr
    · rw [List.mem_singleton.1 hp', hnone] at hr
      cases hr

/-- A box that is given to a request is named in the frame that is sent for it. -/
theorem grant (h : Held boxes emitted done) {r : Receivers}
    (hbox : boxes.allocate r = some (slot, boxes')) (payload : Bytes) :
    Held boxes' (emitted ++ [⟨⟨.payload, slot, payload⟩, some r⟩]) done := by
  obtain ⟨hfree, howner⟩ := h.valid.owner?_allocate hbox
  have hnew : boxes'.owner? slot = some ⟨r, 1, 0⟩ := by rw [howner, if_pos rfl]
  refine ⟨h.valid.allocate hbox, fun s o hs => ?_, fun s o hs => ?_, fun p hp r' hr => ?_⟩
  · rw [howner] at hs
    split at hs
    · cases hs
      exact .inl ⟨rfl, rfl⟩
    · exact h.heard s o hs
  · rw [howner] at hs
    split at hs
    · rename_i heq
      cases hs
      exact ⟨_, List.mem_append_right _ List.mem_cons_self, rfl, heq.symm⟩
    · obtain ⟨p, hp, hsame⟩ := h.owned s o hs
      exact ⟨p, List.mem_append_left _ hp, hsame⟩
  · obtain hp | hp := List.mem_append.1 hp
    · refine (h.settled p hp r' hr).imp_left fun ⟨o, ho, hreceivers⟩ => ⟨o, ?_, hreceivers⟩
      -- the box was free, so it is another one
      have hne : p.frame.slot ≠ slot := by
        rintro heq
        rw [heq, hfree] at ho
        cases ho
      rw [howner, if_neg hne, ho]
    · obtain rfl := List.mem_singleton.1 hp
      cases hr
      exact .inl ⟨_, hnew, rfl⟩

/-- The owner of a box hears a reply. The promises it completes are his, and he keeps the box
unless all of them are done then. -/
theorem hear (h : Held boxes emitted done) {isHead : Bool} {completes : List PromiseId}
    {freed : Bool} (hpush : boxes.push slot isHead = .ok (completes, freed, boxes'))
    (hdone : ∀ id, done id → done' id) (hcompletes : ∀ id ∈ completes, done' id) :
    Held boxes' emitted done' := by
  obtain ⟨o, arrival, howner, harrival, rfl, -, hvalid, hothers⟩ := h.valid.push_ok hpush
  obtain ⟨hreceivers, -, hnext⟩ := (h.heard slot o howner).next harrival
  have hlater := h.mono hdone
  refine ⟨hvalid, fun s o' hs => ?_, fun s o' hs => ?_, fun p hp r hr => ?_⟩
  · rw [hothers] at hs
    split at hs
    · split at hs
      · cases hs
      · rename_i hmore
        rw [if_neg hmore] at hnext
        cases hs
        obtain ⟨head, body, hquery, hreceived, hexpected, hhead⟩ := hnext
        exact .inr ⟨head, body, hquery, hreceived, hexpected, hcompletes head hhead⟩
    · exact hlater.heard s o' hs
  · rw [hothers] at hs
    split at hs
    · rename_i heq
      split at hs
      · cases hs
      · cases hs
        rw [hreceivers, heq]
        exact h.owned slot o howner
    · exact h.owned s o' hs
  · obtain ⟨o', ho', hr'⟩ | hall := hlater.settled p hp r hr
    · by_cases heq : p.frame.slot = slot
      · rw [heq, howner] at ho'
        cases ho'
        rw [heq, hothers, if_pos rfl]
        split
        · -- the last reply: all promises of the owner are done
          rename_i hlast
          rw [if_pos hlast] at hnext
          refine .inr fun id hid => ?_
          rw [← hr'] at hid
          exact (hnext id hid).elim (hcompletes id) (hdone id)
        · exact .inl ⟨arrival.owner, rfl, hreceivers.trans hr'⟩
      · exact .inl ⟨o', by rw [hothers, if_neg heq, ho'], hr'⟩
    · exact .inr hall

end Held

/-! ## The exchange -/

/-- Requests have promises of their own. -/
theorem Ledger.eq_of_mem_promises {submitted : List (Receivers × Bytes)} {size : Nat}
    {waiting : List WaitingRequest} {parcels : List Parcel} {cases : List Case}
    (h : Ledger submitted size waiting parcels cases) {s t : Receivers × Bytes}
    (hs : s ∈ submitted) (ht : t ∈ submitted) {id : PromiseId} (hids : id ∈ s.1.promises)
    (hidt : id ∈ t.1.promises) : t = s := by
  obtain ⟨before, after, rfl⟩ := List.append_of_mem hs
  have hnodup := h.promises
  rw [List.flatMap_append, List.flatMap_cons, List.nodup_append, List.nodup_append] at hnodup
  obtain ⟨-, ⟨-, -, hafter⟩, hbefore⟩ := hnodup
  obtain ht | ht := List.mem_append.1 ht
  · have hmem := List.mem_append_left (after.flatMap fun q => q.1.promises) hids
    exact absurd rfl (hbefore id (List.mem_flatMap.2 ⟨t, ht, hidt⟩) id hmem)
  · obtain rfl | ht := List.mem_cons.1 ht
    · rfl
    · exact absurd rfl (hafter id hids id (List.mem_flatMap.2 ⟨t, ht, hidt⟩))

/-- Nothing came for a promise yet: it is pending, or its caller closed it. -/
def Exchange.Unanswered (x : Exchange) (id : PromiseId) : Prop :=
  x.promiseState id = .pending ∨ x.promiseState id = .closed

/-- A promise that was made is done. -/
def Exchange.Done (x : Exchange) (id : PromiseId) : Prop :=
  id < x.promises.size ∧ (x.promiseState id).isDone = true

/-- Every request that was accepted and has a place is in one place only, and is looked after
there. -/
structure Custody (x : Exchange) (accepted : List (Receivers × Bytes)) (emitted : List Parcel) :
    Prop where
  ledger : Ledger accepted x.promises.size x.waitlist.line emitted []
  held : Held x.boxes emitted x.Done
  /-- Nothing came for requests that wait. -/
  waiting : ∀ w ∈ x.waitlist.line, ∀ id ∈ w.receivers.promises, x.Unanswered id

namespace Custody

variable {x x' : Exchange} {accepted : List (Receivers × Bytes)} {emitted : List Parcel}

theorem start (settings : Settings) : Custody (.ofSettings settings) [] [] where
  ledger := .start (by simp)
  held := by
    have hcapacity := settings.responseBoxes_le
    refine ⟨BoxTable.valid_ofCapacity (by omega), fun slot o howner => ?_, fun slot o howner => ?_,
      by simp⟩
    · simp only [Exchange.ofSettings, BoxTable.owner?_ofCapacity, reduceCtorEq] at howner
    · simp only [Exchange.ofSettings, BoxTable.owner?_ofCapacity, reduceCtorEq] at howner
  waiting := by simp [Exchange.ofSettings, Waitlist.ofLimit]

/-- Callers may do what they like with promises, as long as nothing else changes. -/
theorem congr (h : Custody x accepted emitted) (hboxes : x'.boxes = x.boxes)
    (hwaitlist : x'.waitlist = x.waitlist) (hsize : x'.promises.size = x.promises.size)
    (hdone : ∀ id, x.Done id → x'.Done id)
    (hunanswered : ∀ id, x.Unanswered id → x'.Unanswered id) : Custody x' accepted emitted where
  ledger := by
    rw [hsize, hwaitlist]
    exact h.ledger
  held := by
    rw [hboxes]
    exact h.held.mono hdone
  waiting w hw id hid := by
    rw [hwaitlist] at hw
    exact hunanswered id (h.waiting w hw id hid)

theorem touched (h : Custody x accepted emitted) (htouched : x.Touched x') :
    Custody x' accepted emitted := by
  refine h.congr htouched.boxes htouched.waitlist htouched.size (fun id hid => ?_)
    (fun id => (htouched.2 id).unanswered)
  exact ⟨htouched.size ▸ hid.1, (htouched.2 id).isDone hid.2⟩

/-- Requests may leave the line. -/
theorem leave (h : Custody x accepted emitted) {waitlist : Waitlist}
    (hline : waitlist.line.Sublist x.waitlist.line) :
    Custody { x with waitlist } accepted emitted where
  ledger := h.ledger.leave hline
  held := h.held
  waiting w hw := h.waiting w (hline.subset hw)

theorem send_other (h : Custody x accepted emitted) {p : Parcel} (hkind : p.frame.kind ≠ .payload)
    (hnone : p.receivers = none) : Custody x accepted (emitted ++ [p]) where
  ledger := h.ledger.send_other hkind hnone
  held := h.held.send_other hnone
  waiting := h.waiting

/-! ## Submitting -/

/-- New promises leave the others as they are. -/
private theorem done_addPromises {r : Receivers} {id : PromiseId} (hid : x.Done id) :
    (x.addPromises r).Done id := by
  refine ⟨?_, ?_⟩
  · rw [Exchange.size_addPromises]
    exact Nat.lt_add_right _ hid.1
  · rw [x.promiseState_addPromises_of_lt r hid.1]
    exact hid.2

/-- Nothing came for promises that wait, and nothing for new ones. -/
private theorem unanswered_addPromises {ask : Exchange.Ask} {r : Receivers}
    (hr : r = ask.receivers x.promises.size) (h : Custody x accepted emitted)
    {w : WaitingRequest} (hw : w ∈ x.waitlist.line ∨ w.receivers = r) {id : PromiseId}
    (hid : id ∈ w.receivers.promises) : (x.addPromises r).Unanswered id := by
  subst hr
  obtain hw | hw := hw
  · unfold Exchange.Unanswered
    rw [x.promiseState_addPromises_of_lt _ (h.ledger.known _ (h.ledger.waiting w hw) id hid)]
    exact h.waiting w hw id hid
  · rw [hw] at hid
    exact .inl (x.promiseState_addPromises ask hid)

/-- A request that gets a box is sent. -/
theorem submit_sent (h : Custody x accepted emitted) {ask : Exchange.Ask} {payload : Bytes}
    (hshort : payload.length ≤ maxPayload) {slot : UInt16} {boxes : BoxTable}
    (hbox : x.boxes.allocate (ask.receivers x.promises.size) = some (slot, boxes)) :
    Custody ({ x with boxes }.addPromises (ask.receivers x.promises.size))
      (accepted ++ [(ask.receivers x.promises.size, payload)])
      (emitted ++ [⟨⟨.payload, slot, payload⟩, some (ask.receivers x.promises.size)⟩]) := by
  obtain ⟨hledger, hnew⟩ := h.ledger.submit ask hshort
  refine ⟨?_, ?_, fun w hw id hid => ?_⟩
  · rw [Exchange.size_addPromises]
    exact hledger.send (List.mem_append_right _ List.mem_cons_self) hnew slot
  · exact (h.held.grant hbox payload).mono fun id hid =>
      done_addPromises (x := { x with boxes }) hid
  · exact unanswered_addPromises rfl h (.inl hw) hid

/-- A request that gets no box waits. -/
theorem submit_waits (h : Custody x accepted emitted) {ask : Exchange.Ask} {payload : Bytes}
    (hshort : payload.length ≤ maxPayload) {waitlist : Waitlist} {line : List WaitingRequest}
    (hline : line.Sublist x.waitlist.line)
    (hwaits : waitlist.line = line ++ [⟨payload, ask.receivers x.promises.size⟩]) :
    Custody ({ x with waitlist }.addPromises (ask.receivers x.promises.size))
      (accepted ++ [(ask.receivers x.promises.size, payload)]) emitted := by
  obtain ⟨hledger, hnew⟩ := (h.ledger.leave hline).submit ask hshort
  refine ⟨?_, h.held.mono fun id hid => done_addPromises (x := { x with waitlist }) hid,
    fun w hw id hid => ?_⟩
  · rw [Exchange.size_addPromises]
    show Ledger _ _ waitlist.line _ _
    rw [hwaits]
    exact hledger.wait (List.mem_append_right _ List.mem_cons_self) hnew
  · -- it stands in line, or it is the new one
    replace hw : w ∈ waitlist.line := hw
    rw [hwaits, List.mem_append, List.mem_singleton] at hw
    refine unanswered_addPromises rfl h (hw.imp (fun hmem => hline.subset hmem) fun heq => ?_) hid
    rw [heq]

/-! ## Routing -/

/-- A waiting request that gets a box is sent. -/
theorem dispatch (h : Custody x accepted emitted) :
    Custody x.dispatch.2 accepted (emitted ++ x.dispatch.2.parcels x.dispatch.1) := by
  rcases x.dispatch_cases with ⟨waitlist, heq, hline⟩ | ⟨w, waitlist, slot, boxes, hline, hbox, heq⟩
  · rw [heq]
    simp only [Exchange.parcels, List.map_nil, List.append_nil]
    exact h.leave hline
  · obtain ⟨-, howner⟩ := h.held.valid.owner?_allocate hbox
    rw [heq]
    simp only [Exchange.parcels, List.map_cons, List.map_nil, if_true, howner, Option.map_some]
    exact ⟨h.ledger.dispatch hline slot, h.held.grant hbox w.payload,
      fun w' hw' => h.waiting w' (hline.subset (List.mem_cons_of_mem _ hw'))⟩

/-- A request that waits has no box. -/
theorem ne_of_waiting (h : Custody x accepted emitted) {w : WaitingRequest}
    (hw : w ∈ x.waitlist.line) {slot : UInt16} {o : Owner} (howner : x.boxes.owner? slot = some o) :
    w.receivers ≠ o.receivers := by
  intro heq
  obtain ⟨p, hp, hreceivers, -⟩ := h.held.owned slot o howner
  have hmem : o.receivers ∈ emitted.filterMap Parcel.receivers ++ [] := by
    rw [List.append_nil]
    exact List.mem_filterMap.2 ⟨p, hp, hreceivers⟩
  exact (List.nodup_append.1 h.ledger.once).2.2 w.receivers (List.mem_map_of_mem hw)
    o.receivers hmem heq

/-- The owner of a box was accepted. -/
theorem accepted_of_owner (h : Custody x accepted emitted) {slot : UInt16} {o : Owner}
    (howner : x.boxes.owner? slot = some o) : ∃ payload, (o.receivers, payload) ∈ accepted := by
  obtain ⟨p, hp, hreceivers, -⟩ := h.held.owned slot o howner
  exact ⟨_, (h.ledger.labelled hp hreceivers).2⟩

/-- A reply completes promises of the owner of its box. -/
private theorem hear (h : Custody x accepted emitted) {slot : UInt16} {isHead freed : Bool}
    {completes : List PromiseId} {boxes : BoxTable}
    (hpush : x.boxes.push slot isHead = .ok (completes, freed, boxes)) (payload : Bytes) :
    Custody (({ x with boxes } : Exchange).settleAll (.complete payload) completes) accepted
      emitted := by
  obtain ⟨o, arrival, howner, harrival, rfl, -, -, -⟩ := h.held.valid.push_ok hpush
  obtain ⟨-, hcompletes, -⟩ := (h.held.heard slot o howner).next harrival
  obtain ⟨bytes, haccepted⟩ := h.accepted_of_owner howner
  have hstate : ∀ id, (({ x with boxes } : Exchange).settleAll (.complete payload)
      arrival.completes).promiseState id =
        if id ∈ arrival.completes then (x.promiseState id).complete payload
        else x.promiseState id :=
    Exchange.promiseState_complete { x with boxes } payload arrival.completes
  have hknown : ∀ id ∈ arrival.completes, id < x.promises.size := fun id hid =>
    h.ledger.known _ haccepted id (hcompletes id hid)
  refine ⟨?_, ?_, fun w hw id hid => ?_⟩
  · rw [Exchange.settleAll_size, Exchange.settleAll_waitlist]
    exact h.ledger
  · rw [Exchange.settleAll_boxes]
    refine h.held.hear hpush (fun id hid => ⟨?_, ?_⟩) (fun id hid => ⟨?_, ?_⟩)
    · rw [Exchange.settleAll_size]
      exact hid.1
    · rw [hstate]
      split
      · exact Promise.State.isDone_complete _
      · exact hid.2
    · rw [Exchange.settleAll_size]
      exact hknown id hid
    · rw [hstate, if_pos hid]
      exact Promise.State.isDone_complete _
  · -- what waits is another request, with other promises
    rw [Exchange.settleAll_waitlist] at hw
    have hother : id ∉ arrival.completes := by
      intro hmem
      have heq := h.ledger.eq_of_mem_promises haccepted (h.ledger.waiting w hw)
        (hcompletes id hmem) hid
      exact h.ne_of_waiting hw howner (congrArg Prod.fst heq)
    unfold Exchange.Unanswered
    rw [hstate, if_neg hother]
    exact h.waiting w hw id hid

/-- A reply that is delivered completes promises of the owner of its box. A box that it frees goes
to a waiting request. -/
theorem deliver (h : Custody x accepted emitted) {r : Reply} {isHead : Bool}
    {frames : List Request} (hdeliver : x.deliver r isHead = .ok (frames, x')) :
    Custody x' accepted (emitted ++ x'.parcels frames) := by
  obtain ⟨completes, freed, boxes, hpush, heq⟩ := Exchange.deliver_cases hdeliver
  have hheard := h.hear hpush r.payload
  split at heq
  · rw [Prod.mk.injEq] at heq
    rw [heq.1, heq.2]
    exact hheard.dispatch
  · cases heq
    simp only [Exchange.parcels, List.map_nil, List.append_nil]
    exact hheard

/-- Frames that are no requests to a service may be sent. -/
private theorem send_others (h : Custody x accepted emitted) {frames : List Request}
    (hframes : ∀ frame ∈ frames, frame.kind ≠ .payload) :
    Custody x accepted (emitted ++ x.parcels frames) := by
  induction frames generalizing emitted with
  | nil => simpa [Exchange.parcels] using h
  | cons frame frames ih =>
    rw [List.forall_mem_cons] at hframes
    have hone := h.send_other (p := ⟨frame, none⟩) hframes.1 rfl
    have hrest := ih hone hframes.2
    simpa [Exchange.parcels, hframes.1] using hrest

/-- Whatever frame comes, routing it keeps custody. -/
theorem route (h : Custody x accepted emitted) {r : Reply} {frames : List Request}
    (hroute : x.route r = .ok (frames, x')) :
    Custody x' accepted (emitted ++ x'.parcels frames) := by
  obtain ⟨rfl, rfl⟩ | ⟨-, isHead, hdeliver⟩ | ⟨-, a, -, rfl, hframes⟩ :=
    Exchange.route_cases hroute
  · simpa [Exchange.parcels] using h
  · exact h.deliver hdeliver
  · have hcatalog : Custody { x with catalog := x.catalog.act a } accepted emitted :=
      h.congr rfl rfl rfl (fun _ hid => hid) (fun _ hid => hid)
    exact hcatalog.send_others hframes

/-! ## Leaving the line -/

/-- A request that waits and that everybody gave up was closed by all who waited for it. -/
theorem closed_of_isAbandoned (h : Custody x accepted emitted) {w : WaitingRequest}
    (hw : w ∈ x.waitlist.line) (habandoned : x.isAbandoned w.receivers = true) :
    ∀ id ∈ w.receivers.promises, id < x.promises.size ∧ x.promiseState id = .closed := by
  intro id hid
  refine ⟨h.ledger.known _ (h.ledger.waiting w hw) id hid, ?_⟩
  exact Promise.State.closed_of_isAbandoned (h.waiting w hw id hid)
    (List.all_eq_true.1 habandoned id hid)

/-- A request that leaves the line when a reply is routed is sent, or everybody had given it up
before the reply came. -/
theorem route_left (h : Custody x accepted emitted) {r : Reply} {frames : List Request}
    (hroute : x.route r = .ok (frames, x')) {w : WaitingRequest} (hw : w ∈ x.waitlist.line) :
    w ∈ x'.waitlist.line ∨ x.isAbandoned w.receivers = true ∨
      ∃ p ∈ x'.parcels frames, p.receivers = some w.receivers := by
  obtain ⟨rfl, -⟩ | ⟨-, isHead, hdeliver⟩ | ⟨-, a, -, rfl, -⟩ := Exchange.route_cases hroute
  · exact .inl hw
  · obtain ⟨completes, freed, boxes, hpush, heq⟩ := Exchange.deliver_cases hdeliver
    have hheard := h.hear hpush r.payload
    have hline : w ∈ (({ x with boxes } : Exchange).settleAll (.complete r.payload)
        completes).waitlist.line := by
      rw [Exchange.settleAll_waitlist]
      exact hw
    have hgiven : (({ x with boxes } : Exchange).settleAll (.complete r.payload)
        completes).isAbandoned w.receivers = true → x.isAbandoned w.receivers = true :=
      Exchange.isAbandoned_of_complete
    generalize ({ x with boxes } : Exchange).settleAll (.complete r.payload) completes = y
      at heq hheard hgiven hline
    split at heq
    · rw [Prod.mk.injEq] at heq
      rw [heq.1, heq.2]
      obtain hkept | habandoned | ⟨slot, boxes', hbox, hsent, hboxes⟩ := y.dispatch_left hline
      · exact .inl hkept
      · exact .inr (.inl (hgiven habandoned))
      · have howner := (hheard.held.valid.owner?_allocate hbox).2 slot
        rw [if_pos rfl] at howner
        refine .inr (.inr ?_)
        simp [hsent, Exchange.parcels, hboxes, howner]
    · cases heq
      exact .inl hline
  · exact .inl hw

end Custody

end QueryLink
