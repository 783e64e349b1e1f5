import QueryLink.Proofs.ExchangeLaws
import QueryLink.Proofs.RequestLedger

/-!
# The account of an exchange

`Account` relates an exchange to what was submitted, what is on its way to the server and what the
server has: each request is in one place, no two requests at the server's side share a box, and a
promise is ready only with what the server replied to it. An open exchange keeps the account, and
`Served`, when a request is submitted and when a reply is routed.

## Key results

- `Account.submit_sent`, `Account.submit_waits`: accepting a request keeps the account
- `Account.Open.route_ok`, `Account.Open.route_error`: so does routing a reply
- `Account.same`, `Account.ended`: so do what callers do with promises, and shutting down
-/

namespace QueryLink

/-- The account of an exchange. -/
structure Account (x : Exchange) (submitted : List (Receivers × Bytes)) (parcels : List Parcel)
    (cases : List Case) : Prop where
  ledger : Ledger submitted x.promises.size x.waitlist.line parcels cases
  /-- Requests that are not fully answered have different boxes. -/
  slots : (occupied parcels cases).Nodup
  proper : ∀ k ∈ cases, k.Proper
  /-- A promise that is ready holds what the server replied to it. -/
  ready : ∀ id b, x.promiseState id = .ready b → RepliedTo cases id b

namespace Account

variable {x x' : Exchange} {submitted : List (Receivers × Bytes)} {parcels parcels' : List Parcel}
  {cases : List Case} {inbound later : List Reply}

/-- What callers do with promises keeps the account. -/
theorem same (h : Account x submitted parcels cases) (hsame : x.Same x') :
    Account x' submitted parcels cases where
  ledger := by
    rw [hsame.size, hsame.waitlist]
    exact h.ledger
  slots := h.slots
  proper := h.proper
  ready := fun id b hready => h.ready id b (hsame.ready id b hready)

/-- Shutting down keeps the account: the line is emptied, and no promise becomes ready. -/
theorem ended (h : Account x submitted parcels cases) (hended : x.Ended x') :
    Account x' submitted parcels cases where
  ledger := by
    rw [hended.size]
    exact h.ledger.leave hended.waitlist
  slots := h.slots
  proper := h.proper
  ready := fun id b hready => h.ready id b (hended.ready id b hready)

/-- The order of frames does not matter. -/
theorem perm (h : Account x submitted parcels cases) (hperm : parcels'.Perm parcels) :
    Account x submitted parcels' cases where
  ledger := h.ledger.perm hperm
  slots := (occupied_perm hperm cases).nodup_iff.2 h.slots
  proper := h.proper
  ready := h.ready

/-- Requests may leave the line. -/
theorem leave (h : Account x submitted parcels cases) {waitlist : Waitlist}
    (hline : waitlist.line.Sublist x.waitlist.line) :
    Account { x with waitlist } submitted parcels cases where
  ledger := h.ledger.leave hline
  slots := h.slots
  proper := h.proper
  ready := h.ready

/-- A frame that is no request to a service may be sent. -/
theorem send_other (h : Account x submitted parcels cases) {p : Parcel}
    (hkind : p.frame.kind ≠ .payload) (hnone : p.receivers = none) :
    Account x submitted (parcels ++ [p]) cases where
  ledger := h.ledger.send_other hkind hnone
  slots := by
    rw [occupied_send_other hnone]
    exact h.slots
  proper := h.proper
  ready := h.ready

/-! ## Submitting -/

/-- A request that gets a box is on its way. -/
theorem submit_sent (h : Account x submitted parcels cases)
    (hserved : Served x.boxes parcels cases inbound) {ask : Exchange.Ask} {payload : Bytes}
    (hshort : payload.length ≤ maxPayload) {slot : UInt16} {boxes : BoxTable}
    (hbox : x.boxes.allocate (ask.receivers x.promises.size) = some (slot, boxes)) :
    Account ({ x with boxes }.addPromises (ask.receivers x.promises.size))
      (submitted ++ [(ask.receivers x.promises.size, payload)])
      (parcels ++ [⟨⟨.payload, slot, payload⟩, some (ask.receivers x.promises.size)⟩]) cases ∧
    Served boxes
      (parcels ++ [⟨⟨.payload, slot, payload⟩, some (ask.receivers x.promises.size)⟩]) cases
      inbound := by
  obtain ⟨hledger, hnew⟩ := h.ledger.submit ask hshort
  have hfree := (hserved.valid.owner?_allocate hbox).1
  refine ⟨⟨?_, ?_, h.proper, fun id b hready => ?_⟩, hserved.grant hbox ?_ payload⟩
  · rw [Exchange.size_addPromises]
    exact hledger.send (List.mem_append_right _ List.mem_cons_self) hnew slot
  · refine (occupied_send rfl).nodup_iff.2 (List.nodup_cons.2 ⟨?_, h.slots⟩)
    -- the box was free, so no request that is not fully answered has it
    exact hserved.not_mem_occupied hfree
  · exact h.ready id b (Exchange.ready_of_addPromises hready)
  · -- no case is about the request yet
    intro k hk heq
    have hcase := List.mem_filterMap.2 ⟨k, hk, heq⟩
    exact hnew (List.mem_append_right _ (List.mem_append_right _ hcase))

/-- A request that gets no box waits. -/
theorem submit_waits (h : Account x submitted parcels cases) {ask : Exchange.Ask} {payload : Bytes}
    (hshort : payload.length ≤ maxPayload) {waitlist : Waitlist} {line : List WaitingRequest}
    (hline : line.Sublist x.waitlist.line)
    (hwaits : waitlist.line = line ++ [⟨payload, ask.receivers x.promises.size⟩]) :
    Account ({ x with waitlist }.addPromises (ask.receivers x.promises.size))
      (submitted ++ [(ask.receivers x.promises.size, payload)]) parcels cases := by
  obtain ⟨hledger, hnew⟩ := (h.ledger.leave hline).submit ask hshort
  refine ⟨?_, h.slots, h.proper, fun id b hready => ?_⟩
  · rw [Exchange.size_addPromises]
    show Ledger _ _ waitlist.line _ _
    rw [hwaits]
    exact hledger.wait (List.mem_append_right _ List.mem_cons_self) hnew
  · exact h.ready id b (Exchange.ready_of_addPromises hready)

/-! ## Routing -/

/-- The account of an open exchange, and of the replies on their way to it. -/
structure Open (x : Exchange) (submitted : List (Receivers × Bytes)) (parcels : List Parcel)
    (cases : List Case) (inbound : List Reply) : Prop where
  account : Account x submitted parcels cases
  served : Served x.boxes parcels cases inbound
  isOpen : x.closed = false

theorem Open.perm (h : Open x submitted parcels cases inbound) (hperm : parcels'.Perm parcels) :
    Open x submitted parcels' cases inbound where
  account := h.account.perm hperm
  served := h.served.congr_parcels fun _ _ => hperm.mem_iff
  isOpen := h.isOpen

/-- A waiting request that gets a box is on its way. -/
theorem Open.dispatch (h : Open x submitted parcels cases inbound) :
    Open x.dispatch.2 submitted (parcels ++ x.dispatch.2.parcels x.dispatch.1) cases inbound ∧
      ∀ frame ∈ x.dispatch.1, frame.payload.length ≤ maxPayload := by
  obtain ⟨hledger, hslots, hproper, hready⟩ := h.account
  rcases x.dispatch_cases with ⟨waitlist, heq, hline⟩ | ⟨w, waitlist, slot, boxes, hline, hbox, heq⟩
  · -- the line may only have got shorter
    rw [heq]
    simp only [Exchange.parcels, List.map_nil, List.append_nil]
    exact ⟨⟨h.account.leave hline, h.served, h.isOpen⟩, by simp⟩
  · obtain ⟨hfree, howner⟩ := h.served.valid.owner?_allocate hbox
    rw [heq]
    simp only [Exchange.parcels, List.map_cons, List.map_nil, if_true, howner, Option.map_some]
    -- the request leaves the line before it is sent, so it is in one place all the time
    have hnew := (List.nodup_cons.1 (hledger.leave hline).once).1
    refine ⟨⟨⟨hledger.dispatch hline slot, ?_, hproper, hready⟩, ?_, h.isOpen⟩, ?_⟩
    · refine (occupied_send rfl).nodup_iff.2 (List.nodup_cons.2 ⟨?_, hslots⟩)
      exact h.served.not_mem_occupied hfree
    · refine h.served.grant hbox (fun k hk heq' => hnew ?_) w.payload
      exact List.mem_append_right _ (List.mem_append_right _ (List.mem_filterMap.2 ⟨k, hk, heq'⟩))
    · intro frame hframe
      rw [List.mem_singleton.1 hframe]
      exact hledger.short _ (hledger.waiting w (hline.subset List.mem_cons_self))

theorem Open.send_other (h : Open x submitted parcels cases inbound) {p : Parcel}
    (hkind : p.frame.kind ≠ .payload) (hnone : p.receivers = none) :
    Open x submitted (parcels ++ [p]) cases inbound where
  account := h.account.send_other hkind hnone
  served := by
    refine h.served.congr_parcels fun p' hsome => ?_
    rw [List.mem_append, List.mem_singleton, or_iff_left]
    rintro rfl
    rw [hnone] at hsome
    cases hsome
  isOpen := h.isOpen

/-- A reply to a request completes promises with what the server replied to them. -/
private theorem Open.complete {r : Reply} (h : Open x submitted parcels cases (r :: later))
    (hkind : r.kind = .payload ∨ r.kind = .bodyHead) :
    ∃ completes freed boxes,
      x.boxes.push r.slot (decide (r.kind = .bodyHead)) = .ok (completes, freed, boxes) ∧
      Open ({ x with boxes }.settleAll (.complete r.payload) completes) submitted parcels cases
        later := by
  obtain ⟨hledger, hslots, hproper, hready⟩ := h.account
  obtain ⟨completes, freed, boxes, hpush, hserved, hreplied⟩ :=
    h.served.hear hledger.distinct hproper
    (fun k hk receivers => hledger.nodup_promises hk) hkind
  refine ⟨completes, freed, boxes, hpush, ⟨⟨?_, hslots, hproper, fun id b hid => ?_⟩, ?_, ?_⟩⟩
  · rw [Exchange.settleAll_size, Exchange.settleAll_waitlist]
    exact hledger
  · obtain hbefore | ⟨hmem, rfl⟩ := Exchange.ready_of_complete hid
    · exact hready id b hbefore
    · -- a promise that became ready is one that the reply is for
      exact hreplied id hmem
  · rwa [Exchange.settleAll_boxes]
  · rw [Exchange.settleAll_closed]
    exact h.isOpen

/-- A reply to a request is never refused. The box that it may free goes to a waiting request. -/
theorem Open.deliver {r : Reply} (h : Open x submitted parcels cases (r :: later))
    (hkind : r.kind = .payload ∨ r.kind = .bodyHead) {frames : List Request}
    (hdeliver : x.deliver r (decide (r.kind = .bodyHead)) = .ok (frames, x')) :
    Open x' submitted (parcels ++ x'.parcels frames) cases later ∧
      ∀ frame ∈ frames, frame.payload.length ≤ maxPayload := by
  obtain ⟨completes, freed, boxes, hpush, hopen⟩ := h.complete hkind
  simp only [Exchange.deliver, hpush, Except.ok.injEq] at hdeliver
  cases freed with
  | true =>
    obtain ⟨hopen', hshort⟩ := hopen.dispatch
    rw [if_pos rfl] at hdeliver
    rw [hdeliver] at hopen' hshort
    exact ⟨hopen', hshort⟩
  | false =>
    rw [if_neg Bool.false_ne_true] at hdeliver
    cases hdeliver
    simp only [Exchange.parcels, List.map_nil, List.append_nil]
    exact ⟨hopen, by simp⟩

/-- What is no reply to a request concerns result sets only. -/
theorem Open.other {r : Reply} (h : Open x submitted parcels cases (r :: later))
    (hkind : ¬(r.kind = .payload ∨ r.kind = .bodyHead)) (catalog : Catalog) :
    Open { x with catalog } submitted parcels cases later :=
  ⟨⟨h.account.ledger, h.account.slots, h.account.proper, h.account.ready⟩,
    h.served.congr_inbound fun slot => (answers_cons_other hkind slot later).symm, h.isOpen⟩

/-- An open exchange hands a reply to a request to the owner of its box. -/
private theorem route_answer (hopen : x.closed = false) {r : Reply}
    (hkind : r.kind = .payload ∨ r.kind = .bodyHead) :
    x.route r = x.deliver r (decide (r.kind = .bodyHead)) := by
  unfold Exchange.route
  rw [if_neg (by rw [hopen]; exact Bool.false_ne_true)]
  obtain hlast | hhead := hkind
  · simp only [hlast, reduceCtorEq, decide_false]
  · simp only [hhead, decide_true]

/-- A frame that is refused is lost, and with it no reply to a request. -/
theorem Open.route_error {r : Reply} (h : Open x submitted parcels cases (r :: later)) {e : Cause}
    (hroute : x.route r = .error e) : Open x submitted parcels cases later := by
  have hkind : ¬(r.kind = .payload ∨ r.kind = .bodyHead) := by
    intro hkind
    obtain ⟨completes, freed, boxes, hpush, -⟩ := h.complete hkind
    rw [route_answer h.isOpen hkind, Exchange.deliver, hpush] at hroute
    cases hroute
  -- a frame that is refused is thus about result sets
  exact h.other hkind x.catalog

/-- Routing a frame keeps the account; what is sent because of it is on its way. -/
theorem Open.route_ok {r : Reply} (h : Open x submitted parcels cases (r :: later))
    {frames : List Request} (hroute : x.route r = .ok (frames, x')) :
    Open x' submitted (parcels ++ x'.parcels frames) cases later ∧
      ∀ frame ∈ frames, frame.payload.length ≤ maxPayload := by
  by_cases hkind : r.kind = .payload ∨ r.kind = .bodyHead
  · rw [route_answer h.isOpen hkind] at hroute
    exact h.deliver hkind hroute
  -- the rest concerns result sets; only the end of one is confirmed with a frame
  unfold Exchange.route at hroute
  rw [if_neg (by rw [h.isOpen]; exact Bool.false_ne_true)] at hroute
  split at hroute
  · rename_i hlast
    exact absurd (.inl hlast) hkind
  · rename_i hhead
    exact absurd (.inr hhead) hkind
  · split at hroute
    · cases hroute
    · cases hroute
      simp only [Exchange.parcels, List.map_nil, List.append_nil]
      exact ⟨h.other hkind _, by simp⟩
  · cases hroute
    simp only [Exchange.parcels, List.map_nil, List.append_nil]
    exact ⟨h.other hkind _, by simp⟩
  · cases hroute
    refine ⟨(h.other hkind _).send_other ?_ ?_, by simp⟩
    · simp
    · simp
  · cases hroute
  · cases hroute

end Account

end QueryLink
