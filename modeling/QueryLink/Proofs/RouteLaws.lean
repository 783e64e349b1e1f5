import QueryLink.Proofs.FeedGrowth
import QueryLink.Proofs.PromiseLaws

/-!
# What routing a reply does

A reply to a request moves the owner of its box on; if that frees the box, it goes to the oldest
request in line that somebody still waits for. Other frames concern result sets. Requests leave
the line to be sent, or because their callers gave them up.

## Key results

- `Waitlist.mem_push`, `Waitlist.mem_pop`: only abandoned requests are lost
- `Waitlist.pop_eq_some`: the first in line that is not abandoned is taken
- `BoxTable.Valid.push_ok`, `BoxTable.Complete.push`: what a reply that is taken does to the boxes
- `Exchange.dispatch_left`, `Exchange.submit_left`: why a request is not in line any more
- `Exchange.route_cases`: everything routing can do
-/

namespace QueryLink

/-! ## The line -/

namespace Waitlist

variable {abandoned : Receivers → Bool} {w w' : Waitlist} {q r : WaitingRequest}

/-- Making room in the line costs abandoned requests only. -/
theorem mem_push {room : Bool} (h : w.push abandoned r = (room, w')) (hq : q ∈ w.line) :
    q ∈ w'.line ∨ abandoned q.receivers = true := by
  have hpurge : q ∈ (if w.limit ≤ w.length then w.purge abandoned else w).line ∨
      abandoned q.receivers = true := by
    split
    · cases habandoned : abandoned q.receivers with
      | true => exact .inr rfl
      | false => exact .inl (List.mem_filter.2 ⟨hq, by simp [habandoned]⟩)
    · exact .inl hq
  refine hpurge.imp_left fun hkept => ?_
  unfold push at h
  dsimp only at h
  generalize (if w.limit ≤ w.length then w.purge abandoned else w) = w₀ at h hkept
  split at h <;> cases h
  · exact hkept
  · exact List.mem_append_left _ hkept

/-- A request that is passed over was abandoned. -/
theorem mem_dropWhile {p : WaitingRequest → Bool} {line : List WaitingRequest} (hq : q ∈ line) :
    q ∈ line.dropWhile p ∨ p q = true := by
  rw [← List.takeWhile_append_dropWhile (p := p) (l := line), List.mem_append] at hq
  exact hq.symm.imp_right fun htaken => List.all_eq_true.1 List.all_takeWhile q htaken

/-- A request leaves the line to be sent, or it was abandoned. -/
theorem mem_pop {next : Option WaitingRequest} (h : w.pop abandoned = (next, w'))
    (hq : q ∈ w.line) :
    next = some q ∨ q ∈ w'.line ∨ abandoned q.receivers = true := by
  have hleft : q ∈ (w.line.dropWhile fun r => abandoned r.receivers) ∨
      abandoned q.receivers = true := mem_dropWhile hq
  unfold pop at h
  split at h <;> rename_i hline <;> cases h <;> rw [hline] at hleft
  · exact .inr (.inr (hleft.resolve_left List.not_mem_nil))
  · rw [List.mem_cons, or_assoc] at hleft
    exact hleft.imp_left fun heq => by rw [heq]

/-- The request that is taken out of the line comes after abandoned ones only. -/
theorem pop_eq_some (h : w.pop abandoned = (some r, w')) :
    ∃ given, w.line = given ++ r :: w'.line ∧ ∀ q ∈ given, abandoned q.receivers = true := by
  unfold pop at h
  split at h
  · cases h
  · rename_i hline
    cases h
    refine ⟨w.line.takeWhile fun r => abandoned r.receivers, ?_, fun q hq => ?_⟩
    · rw [← hline, List.takeWhile_append_dropWhile]
    · exact List.all_eq_true.1 List.all_takeWhile q hq

end Waitlist

/-! ## Boxes -/

/-- A reply that is taken moves the owner of its box on; the last one frees the box. -/
theorem BoxTable.Valid.push_ok {t t' : BoxTable} (ht : t.Valid) {slot : UInt16} {isHead : Bool}
    {completes : List PromiseId} {freed : Bool}
    (h : t.push slot isHead = .ok (completes, freed, t')) :
    ∃ o arrival, t.owner? slot = some o ∧ Arrival.of? o isHead = some arrival ∧
      completes = arrival.completes ∧
      freed = decide (arrival.owner.expected ≤ arrival.owner.received) ∧ t'.Valid ∧
      ∀ other, t'.owner? other =
        if other = slot then
          if arrival.owner.expected ≤ arrival.owner.received then none else some arrival.owner
        else t.owner? other := by
  rcases howner : t.owner? slot with _ | o
  · simp only [BoxTable.push, howner, reduceCtorEq] at h
  rcases harrival : Arrival.of? o isHead with _ | arrival
  · simp only [BoxTable.push, howner, harrival, reduceCtorEq] at h
  obtain ⟨t'', hpush, hvalid, hothers⟩ := ht.push howner harrival
  rw [hpush] at h
  cases h
  exact ⟨o, arrival, rfl, harrival, rfl, rfl, hvalid, hothers⟩

/-- A box that loses its owner joins the free list. -/
theorem BoxTable.Complete.push {t t' : BoxTable} (ht : t.Complete) (hvalid : t.Valid)
    {slot : UInt16} {isHead freed : Bool} {completes : List PromiseId}
    (h : t.push slot isHead = .ok (completes, freed, t')) : t'.Complete := by
  obtain ⟨hfree, hsize⟩ := free_of_push h
  obtain ⟨o, arrival, -, -, -, rfl, -, hothers⟩ := hvalid.push_ok h
  intro other hlt hnone
  rw [hsize] at hlt
  rw [hothers] at hnone
  rw [hfree]
  split at hnone
  · -- the box has no owner any more because all replies are there
    rename_i hslot
    split at hnone
    · rename_i hdone
      rw [decide_eq_true hdone, if_pos rfl, hslot]
      exact List.mem_append_right _ List.mem_cons_self
    · cases hnone
  · have hmem := ht other hlt hnone
    split
    · exact List.mem_append_left _ hmem
    · exact hmem

namespace Exchange

variable {x x' : Exchange} {q : WaitingRequest}

/-- A request that leaves the line when a box is free gets the box, or was abandoned. -/
theorem dispatch_left (x : Exchange) (hq : q ∈ x.waitlist.line) :
    q ∈ x.dispatch.2.waitlist.line ∨ x.isAbandoned q.receivers = true ∨
      ∃ slot boxes, x.boxes.allocate q.receivers = some (slot, boxes) ∧
        x.dispatch.1 = [⟨.payload, slot, q.payload⟩] ∧ x.dispatch.2.boxes = boxes := by
  unfold dispatch
  rcases hpop : x.waitlist.pop x.isAbandoned with ⟨_ | r, waitlist⟩
  · obtain hnext | hleft := Waitlist.mem_pop hpop hq
    · cases hnext
    · exact hleft.imp_right .inl
  · simp only
    obtain hnext | hleft := Waitlist.mem_pop hpop hq
    · cases hnext
      rcases hbox : x.boxes.allocate q.receivers with _ | ⟨slot, boxes⟩
      · exact .inl List.mem_cons_self
      · exact .inr (.inr ⟨slot, boxes, rfl, rfl, rfl⟩)
    · rcases x.boxes.allocate r.receivers with _ | ⟨slot, boxes⟩
      · exact hleft.imp (List.mem_cons_of_mem _) .inl
      · exact hleft.imp_right .inl

/-- A request that leaves the line when another one is submitted was abandoned. -/
theorem submit_left {ask : Ask} {payload : Bytes} {answer : Except Cause Accepted}
    (h : x.submit ask payload = (answer, x')) (hq : q ∈ x.waitlist.line) :
    q ∈ x'.waitlist.line ∨ x.isAbandoned q.receivers = true := by
  unfold submit at h
  split at h
  · cases h
    exact .inl hq
  · dsimp only at h
    split at h
    · cases h
      exact .inl hq
    · split at h <;> rename_i hpush <;> cases h <;> exact Waitlist.mem_push hpush hq

/-- Submitting a request neither closes an exchange nor changes result sets or promises that are
there. -/
theorem submit_frame {ask : Ask} {payload : Bytes} {answer : Except Cause Accepted}
    (h : x.submit ask payload = (answer, x')) :
    x'.closed = x.closed ∧ x'.catalog = x.catalog ∧
      ∀ id < x.promises.size, id < x'.promises.size ∧ x'.promiseState id = x.promiseState id := by
  obtain ⟨e, waitlist, heq, -⟩ | ⟨slot, boxes, -, -, heq⟩ | ⟨waitlist, line, -, -, -, heq⟩ :=
    x.submit_cases ask payload <;> rw [h] at heq <;> cases heq
  · exact ⟨rfl, rfl, fun id hid => ⟨hid, rfl⟩⟩
  · refine ⟨rfl, rfl, fun id hid => ⟨?_, promiseState_addPromises_of_lt { x with boxes } _ hid⟩⟩
    rw [size_addPromises]
    exact Nat.lt_add_right _ hid
  · refine ⟨rfl, rfl, fun id hid => ⟨?_, promiseState_addPromises_of_lt { x with waitlist } _ hid⟩⟩
    rw [size_addPromises]
    exact Nat.lt_add_right _ hid

/-- Handing a free box on changes neither promises nor result sets. -/
theorem dispatch_frame (x : Exchange) :
    ∃ waitlist boxes, x.dispatch.2 = { x with waitlist, boxes } := by
  obtain ⟨waitlist, heq, -⟩ | ⟨r, waitlist, slot, boxes, -, -, heq⟩ := x.dispatch_cases
  · exact ⟨waitlist, x.boxes, by rw [heq]⟩
  · exact ⟨waitlist, boxes, by rw [heq]⟩

/-- A reply to a request that is delivered is taken by the owner of its box. -/
theorem deliver_cases {r : Reply} {isHead : Bool} {frames : List Request}
    (h : x.deliver r isHead = .ok (frames, x')) :
    ∃ completes freed boxes, x.boxes.push r.slot isHead = .ok (completes, freed, boxes) ∧
      (frames, x') = if freed then
        (({ x with boxes } : Exchange).settleAll (.complete r.payload) completes).dispatch
      else ([], ({ x with boxes } : Exchange).settleAll (.complete r.payload) completes) := by
  unfold deliver at h
  rcases hpush : x.boxes.push r.slot isHead with e | ⟨completes, freed, boxes⟩
  · rw [hpush] at h
    cases h
  · rw [hpush] at h
    simp only [Except.ok.injEq] at h
    exact ⟨completes, freed, boxes, rfl, h.symm⟩

/-- What is sent because of a reply to a request is a request to a service. -/
theorem deliver_kind {r : Reply} {isHead : Bool} {frames : List Request}
    (h : x.deliver r isHead = .ok (frames, x')) : ∀ frame ∈ frames, frame.kind = .payload := by
  have hdispatch (x : Exchange) : ∀ frame ∈ x.dispatch.1, frame.kind = .payload := by
    obtain ⟨waitlist, heq, -⟩ | ⟨r, waitlist, slot, boxes, -, -, heq⟩ := x.dispatch_cases
    · simp [heq]
    · simp [heq]
  obtain ⟨completes, freed, boxes, -, heq⟩ := deliver_cases h
  split at heq
  · rw [(Prod.mk.inj heq).1]
    exact hdispatch _
  · cases heq
    simp

/-- Whom a reply reaches had not been given up. -/
theorem isAbandoned_of_complete {payload : Bytes} {ids : List PromiseId} {r : Receivers}
    (h : (x.settleAll (.complete payload) ids).isAbandoned r = true) : x.isAbandoned r = true := by
  refine List.all_eq_true.2 fun id hid => ?_
  have hgiven := List.all_eq_true.1 h id hid
  rw [promiseState_complete] at hgiven
  split at hgiven
  · exact Promise.State.isAbandoned_of_complete hgiven
  · exact hgiven

/-- Delivering a reply leaves the result sets alone and does not close the exchange. It completes
promises, if anything. -/
theorem deliver_frame {r : Reply} {isHead : Bool} {frames : List Request}
    (h : x.deliver r isHead = .ok (frames, x')) :
    x'.catalog = x.catalog ∧ x'.closed = x.closed ∧ x'.promises.size = x.promises.size ∧
      ∀ id, x'.promiseState id = x.promiseState id ∨
        x'.promiseState id = (x.promiseState id).complete r.payload := by
  obtain ⟨completes, freed, boxes, -, heq⟩ := deliver_cases h
  obtain ⟨promises, roused, hsize, hsettle⟩ :=
    Exchange.settleAll_frame { x with boxes } (.complete r.payload) completes
  have hstate : ∀ id, Exchange.promiseState { x with boxes, promises, roused } id =
      if id ∈ completes then (x.promiseState id).complete r.payload else x.promiseState id := by
    rw [← hsettle]
    exact promiseState_complete { x with boxes } r.payload completes
  have hpromises : ∀ id, Exchange.promiseState { x with boxes, promises, roused } id =
      x.promiseState id ∨ Exchange.promiseState { x with boxes, promises, roused } id =
        (x.promiseState id).complete r.payload := by
    intro id
    rw [hstate]
    split
    · exact .inr rfl
    · exact .inl rfl
  rw [hsettle] at heq
  split at heq
  · obtain ⟨waitlist, boxes', hdispatch⟩ := dispatch_frame { x with boxes, promises, roused }
    rw [Prod.mk.injEq] at heq
    rw [heq.2, hdispatch]
    exact ⟨rfl, rfl, hsize, hpromises⟩
  · cases heq
    exact ⟨rfl, rfl, hsize, hpromises⟩

/-- Nothing comes of routing to a closed exchange. A reply to a request is delivered; another frame
is about a result set, and what is sent because of it is no request to a service. -/
theorem route_cases {r : Reply} {frames : List Request} (h : x.route r = .ok (frames, x')) :
    x' = x ∧ frames = [] ∨
    (x.closed = false ∧ ∃ isHead, x.deliver r isHead = .ok (frames, x')) ∨
    (x.closed = false ∧ ∃ a : Catalog.Action, a.IsArrival ∧
      x' = { x with catalog := x.catalog.act a } ∧ ∀ frame ∈ frames, frame.kind ≠ .payload) := by
  unfold route at h
  split at h
  · cases h
    exact .inl ⟨rfl, rfl⟩
  · rename_i hopen
    rw [Bool.not_eq_true] at hopen
    refine .inr ?_
    split at h
    · exact .inl ⟨hopen, false, h⟩
    · exact .inl ⟨hopen, true, h⟩
    · split at h
      · cases h
      · rename_i name hname
        cases h
        exact .inr ⟨hopen, .hello r.slot name, trivial, rfl, by simp⟩
    · cases h
      exact .inr ⟨hopen, .piece r.slot r.writer r.payload, trivial, rfl, by simp⟩
    · cases h
      exact .inr ⟨hopen, .bye r.slot, trivial, rfl, by simp⟩
    · cases h
    · cases h

/-- Routing does not close an exchange. It completes promises, if it does anything to them. -/
theorem route_frame {r : Reply} {frames : List Request} (h : x.route r = .ok (frames, x')) :
    x'.closed = x.closed ∧ x'.promises.size = x.promises.size ∧
      ∀ id, x'.promiseState id = x.promiseState id ∨
        x'.promiseState id = (x.promiseState id).complete r.payload := by
  obtain ⟨rfl, -⟩ | ⟨-, isHead, hdeliver⟩ | ⟨-, a, -, rfl, -⟩ := route_cases h
  · exact ⟨rfl, rfl, fun _ => .inl rfl⟩
  · exact (deliver_frame hdeliver).2
  · exact ⟨rfl, rfl, fun _ => .inl rfl⟩

end Exchange

end QueryLink
