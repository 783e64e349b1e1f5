import Mathlib.Data.List.Basic
import QueryLink.Proofs.RequestFates

/-!
# Boxes are given out in the order of submission

No box is free while a request waits, and a box that is given back goes to the first request in
line that somebody still waits for, in the same step. So requests are sent in the order in which
they were accepted, and a request that was accepted later gets no box before those in line.

## Key results

- `Exchange.Busy.submit`, `Exchange.Busy.deliver`: no box is free while a request waits
- `Effect.grants`: which requests get boxes in a step
- `Grants.granted`: a request that gets a box comes before all that wait
- `fair_run`: what holds in every session that is still open
-/

namespace QueryLink

/-- A reply does not change who waits for the replies to a request. -/
theorem BoxTable.Arrival.receivers_of? {o : Owner} {isHead : Bool} {arrival : BoxTable.Arrival}
    (h : BoxTable.Arrival.of? o isHead = some arrival) : arrival.owner.receivers = o.receivers := by
  obtain ⟨receivers, expected, received⟩ := o
  unfold of? at h
  dsimp only at h
  split at h
  · cases h
    rfl
  · split at h <;> cases h <;> rfl
  · cases h
    rfl
  · cases h

namespace Exchange

/-- No box is lost, and none is free while a request waits. -/
structure Busy (capacity : Nat) (x : Exchange) : Prop where
  size : x.boxes.boxes.size = capacity
  complete : x.boxes.Complete
  free_eq_nil : x.waitlist.line ≠ [] → x.boxes.free = []

variable {capacity : Nat} {x x' : Exchange}

theorem busy_ofSettings (settings : Settings) :
    (ofSettings settings).Busy settings.responseBoxes where
  size := Array.size_replicate
  complete := BoxTable.complete_ofCapacity _
  free_eq_nil := fun h => absurd rfl h

/-- While a request waits every box has an owner. -/
theorem Busy.owned (h : x.Busy capacity) (hline : x.waitlist.line ≠ []) {slot : UInt16}
    (hlt : slot.toNat < capacity) : ∃ o, x.boxes.owner? slot = some o := by
  rw [← Option.ne_none_iff_exists']
  intro hnone
  have hfree := h.complete slot (h.size ▸ hlt) hnone
  rw [h.free_eq_nil hline] at hfree
  cases hfree

/-- If a box is free nobody waits. -/
theorem Busy.line_eq_nil (h : x.Busy capacity) {r : Receivers} {slot : UInt16} {boxes : BoxTable}
    (hbox : x.boxes.allocate r = some (slot, boxes)) : x.waitlist.line = [] := by
  refine Classical.byContradiction fun hwaits => ?_
  have hfree := (BoxTable.free_of_allocate hbox).1
  rw [h.free_eq_nil hwaits] at hfree
  cases hfree

/-- Requests may leave the line. -/
theorem Busy.congr (h : x.Busy capacity) (hboxes : x'.boxes = x.boxes)
    (hline : x'.waitlist.line.Sublist x.waitlist.line) : x'.Busy capacity where
  size := by rw [hboxes, h.size]
  complete := by rw [hboxes]; exact h.complete
  free_eq_nil := by
    intro hwaits
    rw [hboxes]
    refine h.free_eq_nil fun hnil => hwaits ?_
    rw [hnil] at hline
    exact List.sublist_nil.1 hline

/-- A request has to wait only if no box is free. -/
theorem free_of_waits {ask : Ask} {payload : Bytes} {r : Receivers}
    (h : x.submit ask payload = (.ok ⟨r, none⟩, x')) : x.boxes.free = [] := by
  unfold submit at h
  split at h
  · cases h
  · dsimp only at h
    split at h
    · cases h
    · rename_i hnone
      exact BoxTable.allocate_eq_none.1 hnone

/-- A request that is submitted takes a box if one is free. -/
theorem Busy.submit (h : x.Busy capacity) (hvalid : x.boxes.Valid) {ask : Ask} {payload : Bytes}
    {answer : Except Cause Accepted} (hsubmit : x.submit ask payload = (answer, x')) :
    x'.Busy capacity := by
  obtain ⟨e, waitlist, heq, hline⟩ | ⟨slot, boxes, -, hbox, heq⟩ | ⟨waitlist, line, -, -, -, heq⟩ :=
    x.submit_cases ask payload
  · rw [hsubmit] at heq
    cases heq
    exact h.congr rfl hline
  · rw [hsubmit] at heq
    cases heq
    have hsize := (BoxTable.free_of_allocate hbox).2
    exact ⟨hsize.trans h.size, h.complete.allocate hvalid hbox,
      fun hwaits => absurd (h.line_eq_nil hbox) hwaits⟩
  · have hfree := free_of_waits heq
    rw [hsubmit] at heq
    cases heq
    exact ⟨h.size, h.complete, fun _ => hfree⟩

/-- The only free box goes to the first in line who was not given up; if there is nobody, the line
is empty afterwards. -/
theorem dispatch_only {slot : UInt16} (hfree : x.waitlist.line ≠ [] → x.boxes.free = [slot]) :
    (x.dispatch.1 = [] ∧ x.dispatch.2.waitlist.line = [] ∧ x.dispatch.2.boxes = x.boxes) ∨
    ∃ given w, x.waitlist.line = given ++ w :: x.dispatch.2.waitlist.line ∧
      (∀ q ∈ given, x.isAbandoned q.receivers = true) ∧
      x.dispatch.1 = [⟨.payload, slot, w.payload⟩] ∧
      x.boxes.allocate w.receivers = some (slot, x.dispatch.2.boxes) ∧
      x.dispatch.2.boxes.free = [] := by
  unfold dispatch
  rcases hpop : x.waitlist.pop x.isAbandoned with ⟨_ | w, waitlist⟩
  · exact .inl ⟨rfl, Waitlist.pop_none hpop, rfl⟩
  · obtain ⟨given, hline, hgiven⟩ := Waitlist.pop_eq_some hpop
    have hwaits : x.waitlist.line ≠ [] := by
      rw [hline]
      exact List.append_ne_nil_of_right_ne_nil _ (List.cons_ne_nil _ _)
    replace hfree := hfree hwaits
    rcases hbox : x.boxes.allocate w.receivers with _ | ⟨first, boxes⟩
    · rw [BoxTable.allocate_eq_none.1 hbox] at hfree
      cases hfree
    · obtain ⟨hfirst, -⟩ := BoxTable.free_of_allocate hbox
      rw [hfree] at hfirst
      obtain ⟨rfl, hnone⟩ := List.cons.inj hfirst
      simp only [hbox]
      exact .inr ⟨given, w, hline, hgiven, rfl, hbox, hnone.symm⟩

/-- The second exchange is the first one after the owner of a box heard a reply, before the box is
handed on if that frees it. -/
structure Hears (x : Exchange) (slot : UInt16) (freed : Bool) (x' : Exchange) : Prop where
  waitlist : x'.waitlist = x.waitlist
  /-- Nobody was given up meanwhile. -/
  abandoned : ∀ r, x'.isAbandoned r = true → x.isAbandoned r = true
  valid : x'.boxes.Valid
  size : x'.boxes.boxes.size = x.boxes.boxes.size
  complete : x.boxes.Complete → x'.boxes.Complete
  free : x'.boxes.free = if freed then x.boxes.free ++ [slot] else x.boxes.free
  owned : ∃ o, x.boxes.owner? slot = some o
  others : ∀ other, other ≠ slot → x'.boxes.owner? other = x.boxes.owner? other
  /-- Who has a box then had it before. -/
  kept : ∀ other o', x'.boxes.owner? other = some o' →
    ∃ o, x.boxes.owner? other = some o ∧ o.receivers = o'.receivers

/-- A reply that is delivered is heard by the owner of its box. -/
theorem hears_of_deliver (hvalid : x.boxes.Valid) {r : Reply} {isHead : Bool}
    {frames : List Request} (hdeliver : x.deliver r isHead = .ok (frames, x')) :
    ∃ freed y, x.Hears r.slot freed y ∧
      (frames, x') = if freed then y.dispatch else ([], y) := by
  obtain ⟨completes, freed, boxes, hpush, heq⟩ := deliver_cases hdeliver
  obtain ⟨hfree, hsize⟩ := BoxTable.free_of_push hpush
  obtain ⟨o, arrival, howner, harrival, -, -, hvalid', hothers⟩ := hvalid.push_ok hpush
  have hreceivers := BoxTable.Arrival.receivers_of? harrival
  have hboxes : (({ x with boxes } : Exchange).settleAll (.complete r.payload)
      completes).boxes = boxes := settleAll_boxes ..
  refine ⟨freed, _, ?_, heq⟩
  constructor
  · exact settleAll_waitlist ..
  · exact fun q hq => isAbandoned_of_complete (x := { x with boxes }) hq
  · rwa [hboxes]
  · rwa [hboxes]
  · rw [hboxes]
    exact fun hcomplete => hcomplete.push hvalid hpush
  · rwa [hboxes]
  · exact ⟨o, howner⟩
  · intro other hne
    rw [hboxes, hothers, if_neg hne]
  · intro other o' ho'
    rw [hboxes, hothers] at ho'
    split at ho'
    · rename_i hslot
      split at ho'
      · cases ho'
      · cases ho'
        exact ⟨o, hslot ▸ howner, hreceivers.symm⟩
    · exact ⟨o', ho', rfl⟩

/-- Which requests get a box when a reply is delivered: none, or one that gets the box that its
owner gives back. -/
inductive HandsOn (x : Exchange) (frames : List Request) (x' : Exchange) : Prop
  | keeps (hframes : frames = []) (hline : x'.waitlist.line.Sublist x.waitlist.line)
      (howner : ∀ slot o', x'.boxes.owner? slot = some o' →
        ∃ o, x.boxes.owner? slot = some o ∧ o.receivers = o'.receivers)
  /-- The request is the first in line who was not given up. -/
  | grants {given w slot owner} (hline : x.waitlist.line = given ++ w :: x'.waitlist.line)
      (hgiven : ∀ q ∈ given, x.isAbandoned q.receivers = true)
      (hframes : frames = [⟨.payload, slot, w.payload⟩])
      (hfreed : x.boxes.owner? slot = some owner)
      (howner : ∀ other, x'.boxes.owner? other =
        if other = slot then some ⟨w.receivers, 1, 0⟩ else x.boxes.owner? other)

/-- A reply to a request moves the owner of its box on. If that frees the box, it is handed on. -/
theorem Busy.deliver (h : x.Busy capacity) (hvalid : x.boxes.Valid) {r : Reply} {isHead : Bool}
    {frames : List Request} (hdeliver : x.deliver r isHead = .ok (frames, x')) :
    x'.Busy capacity ∧ x.HandsOn frames x' := by
  obtain ⟨freed, y, hy, heq⟩ := hears_of_deliver hvalid hdeliver
  have hsize := hy.size.trans h.size
  have hcomplete := hy.complete h.complete
  have hfree := hy.free
  cases freed with
  | false =>
    rw [if_neg Bool.false_ne_true] at heq hfree
    obtain ⟨rfl, rfl⟩ := Prod.mk.inj heq
    refine ⟨⟨hsize, hcomplete, fun hwaits => ?_⟩, .keeps rfl ?_ hy.kept⟩
    · rw [hfree]
      exact h.free_eq_nil (hy.waitlist ▸ hwaits)
    · rw [hy.waitlist]
  | true =>
    rw [if_pos rfl] at heq hfree
    -- if somebody waits, the box that was freed is the only free one
    have honly : y.waitlist.line ≠ [] → y.boxes.free = [r.slot] := by
      rw [hy.waitlist, hfree]
      intro hwaits
      rw [h.free_eq_nil hwaits, List.nil_append]
    obtain ⟨hnone, hnil, hsame⟩ | ⟨given, w, hline, hgiven, hsent, hbox, hused⟩ :=
      dispatch_only honly
    · rw [← heq] at hnone hnil hsame
      refine ⟨⟨?_, ?_, fun hwaits => absurd hnil hwaits⟩, .keeps hnone ?_ ?_⟩
      · rw [hsame, hsize]
      · rwa [hsame]
      · rw [hnil]
        exact List.nil_sublist _
      · rw [hsame]
        exact hy.kept
    · rw [← heq] at hline hsent hbox hused
      rw [hy.waitlist] at hline
      obtain ⟨o, howner⟩ := hy.owned
      obtain ⟨-, hnew⟩ := hy.valid.owner?_allocate hbox
      have hsize' := (BoxTable.free_of_allocate hbox).2.trans hsize
      refine ⟨⟨hsize', hcomplete.allocate hy.valid hbox, fun _ => hused⟩,
        .grants hline (fun q hq => hy.abandoned _ (hgiven q hq)) hsent howner fun other => ?_⟩
      rw [hnew]
      split
      · rfl
      · rename_i hne
        exact hy.others other hne

end Exchange

/-- No two different elements stand before each other in a list without duplicates. -/
theorem not_sublist_swap {α : Type} {l : List α} {a b : α} (h : l.Nodup)
    (hab : [a, b].Sublist l) : ¬ [b, a].Sublist l := by
  induction l with
  | nil => cases hab
  | cons c l ih =>
    obtain ⟨hc, hnodup⟩ := List.nodup_cons.1 h
    intro hba
    -- whichever pair takes the head, the other one would need it again behind the head
    cases hab with
    | cons _ hab =>
      cases hba with
      | cons _ hba => exact ih hnodup hab hba
      | cons_cons => exact hc (hab.subset (List.mem_cons_of_mem _ List.mem_cons_self))
    | cons_cons _ hb =>
      cases hba with
      | cons _ hba => exact hc (hba.subset (List.mem_cons_of_mem _ List.mem_cons_self))
      | cons_cons => exact hc (hb.subset List.mem_cons_self)

namespace Usage

variable {u u' s : Usage} {a : Action} {capacity : Nat}

/-- The requests that wait, oldest first. -/
def line (u : Usage) : List WaitingRequest :=
  u.session.exchange.waitlist.line

/-- What was sent and what waits, in this order, is in the order in which it was accepted. -/
def InTurn (u : Usage) : Prop :=
  (u.emitted.filterMap Parcel.receivers ++ u.line.map WaitingRequest.receivers).Sublist
    (u.accepted.map Prod.fst)

/-- Whether a request was accepted before another one. -/
def Precedes (u : Usage) (r r' : Receivers) : Prop :=
  [r, r'].Sublist (u.accepted.map Prod.fst)

/-! ## One step -/

/-- Which requests get boxes in a step. -/
inductive Grants (u u' : Usage) : Prop
  /-- No request does. Some may leave the line, others join it. -/
  | nobody {kept new : List WaitingRequest} (hkept : kept.Sublist u.line)
      (hline : u'.line = kept ++ new)
      (haccepted : u'.accepted = u.accepted ++ new.map fun w => (w.receivers, w.payload))
      (hemitted : u'.emitted.filterMap Parcel.receivers = u.emitted.filterMap Parcel.receivers)
      (howns : ∀ r slot, u'.Owns r slot → u.Owns r slot)
  /-- A request that was just accepted, since nobody waits. -/
  | fresh {r payload slot} (hnobody : u.line = []) (hline : u'.line = [])
      (haccepted : u'.accepted = u.accepted ++ [(r, payload)])
      (hemitted : u'.emitted = u.emitted ++ [⟨⟨.payload, slot, payload⟩, some r⟩])
      (howns : ∀ r' other, u'.Owns r' other → u.Owns r' other ∨ r' = r ∧ other = slot)
  /-- The first in line that was not given up gets a box from its owner. -/
  | next {given w slot owner} (hline : u.line = given ++ w :: u'.line)
      (hgiven : ∀ q ∈ given, u.AllClosed q.receivers)
      (haccepted : u'.accepted = u.accepted)
      (hemitted : u'.emitted = u.emitted ++ [⟨⟨.payload, slot, w.payload⟩, some w.receivers⟩])
      (hfreed : u.Owns owner slot) (hlost : ¬ u'.Owns owner slot)
      (howns : ∀ r other, u'.Owns r other → u.Owns r other ∨ r = w.receivers ∧ other = slot)

/-- No request gets a box when the boxes stay as they are. -/
private theorem grants_of_same (hbusy : u.session.exchange.Busy capacity)
    (hboxes : u'.session.exchange.boxes = u.session.exchange.boxes)
    (hline : u'.session.exchange.waitlist.line.Sublist u.session.exchange.waitlist.line)
    (haccepted : u'.accepted = u.accepted)
    (hemitted : u'.emitted.filterMap Parcel.receivers = u.emitted.filterMap Parcel.receivers) :
    u.Grants u' ∧ u'.session.exchange.Busy capacity := by
  refine ⟨.nobody hline (List.append_nil _).symm ?_ hemitted fun r slot howns => ?_,
    hbusy.congr hboxes hline⟩
  · rw [haccepted, List.map_nil, List.append_nil]
  · rwa [Owns, hboxes] at howns

/-- A request is accepted. It gets a box only if nobody waits. -/
private theorem grants_of_accept {x : Exchange} {t : Session} {ask : Exchange.Ask} {bytes : Bytes}
    {answer : Exchange.Accepted} (hu : u.InCustody) (hbusy : u.session.exchange.Busy capacity)
    (hsubmit : u.session.exchange.submit ask bytes = (.ok answer, x)) (h : x.Alike t.exchange) :
    u.Grants { u with
      session := t
      accepted := u.accepted ++ [(answer.receivers, bytes)]
      emitted := u.emitted ++ x.parcels answer.frame.toList } ∧ t.exchange.Busy capacity := by
  have hbusy' := hbusy.submit hu.held.valid hsubmit
  refine ⟨?_, hbusy'.congr h.boxes (h.waitlist ▸ List.Sublist.refl _)⟩
  obtain ⟨hreceivers, ⟨slot, boxes, hbox, rfl, hparcels⟩ |
    ⟨waitlist, line, hkept, hwaits, rfl, hparcels⟩⟩ := accepts_cases hu.held.valid hsubmit
  · have hnobody := hbusy.line_eq_nil hbox
    have hline := (congrArg Waitlist.line h.waitlist).trans hnobody
    refine .fresh hnobody hline rfl (congrArg (u.emitted ++ ·) hparcels) ?_
    rintro r' other ⟨o', ho', rfl⟩
    replace ho' : t.exchange.boxes.owner? other = some o' := ho'
    rw [h.boxes, Exchange.addPromises, (hu.held.valid.owner?_allocate hbox).2] at ho'
    split at ho'
    · rename_i hslot
      cases ho'
      exact .inr ⟨hreceivers.symm, hslot⟩
    · exact .inl ⟨o', ho', rfl⟩
  · have hline : t.exchange.waitlist.line = line ++ [⟨bytes, answer.receivers⟩] := by
      rw [h.waitlist, hreceivers]
      exact hwaits
    refine .nobody hkept hline rfl ?_ ?_
    · rw [hparcels, List.append_nil]
    · rintro r' other ⟨o', ho', rfl⟩
      replace ho' : t.exchange.boxes.owner? other = some o' := ho'
      rw [h.boxes] at ho'
      exact ⟨o', ho', rfl⟩

/-- A reply is routed. -/
private theorem grants_of_route {x : Exchange} {t : Session} {r : Reply} {frames : List Request}
    (hu : u.InCustody) (hbusy : u.session.exchange.Busy capacity)
    (hroute : u.session.exchange.route r = .ok (frames, x)) (h : x.Alike t.exchange) :
    u.Grants { u with session := t, emitted := u.emitted ++ x.parcels frames } ∧
      t.exchange.Busy capacity := by
  obtain ⟨rfl, rfl⟩ | ⟨-, isHead, hdeliver⟩ | ⟨-, c, -, rfl, hframes⟩ :=
    Exchange.route_cases hroute
  · refine grants_of_same hbusy h.boxes ?_ rfl ?_
    · rw [h.waitlist]
    · simp [Exchange.parcels]
  · obtain ⟨hbusy', hhands⟩ := hbusy.deliver hu.held.valid hdeliver
    refine ⟨?_, hbusy'.congr h.boxes (h.waitlist ▸ List.Sublist.refl _)⟩
    cases hhands with
    | keeps hnone hline howner =>
      subst hnone
      have hsame : t.exchange.waitlist.line = x.waitlist.line ++ [] := by
        rw [List.append_nil, h.waitlist]
      refine .nobody hline hsame (List.append_nil _).symm ?_ ?_
      · simp [Exchange.parcels]
      · rintro r' slot ⟨o', ho', rfl⟩
        exact howner slot o' (h.boxes ▸ ho')
    | @grants given w slot o hline hgiven hsent hfreed howner =>
      have hnew := howner slot
      rw [if_pos rfl] at hnew
      have hwaits : w ∈ u.session.exchange.waitlist.line := by
        rw [hline]
        exact List.mem_append_right _ List.mem_cons_self
      have hclosed : ∀ q ∈ given, u.AllClosed q.receivers := by
        intro q hq
        have hmem : q ∈ u.session.exchange.waitlist.line := by
          rw [hline]
          exact List.mem_append_left _ hq
        exact Custody.closed_of_isAbandoned hu hmem (hgiven q hq)
      rw [← h.waitlist] at hline
      refine .next hline hclosed rfl ?_ ⟨o, hfreed, rfl⟩ ?_ ?_
      · simp [hsent, Exchange.parcels, hnew]
      · -- the box is owned for the request that waited
        rintro ⟨o', ho', hsame⟩
        replace ho' : t.exchange.boxes.owner? slot = some o' := ho'
        rw [h.boxes, hnew] at ho'
        cases ho'
        exact Custody.ne_of_waiting hu hwaits hfreed hsame
      · rintro r' other ⟨o', ho', rfl⟩
        replace ho' : t.exchange.boxes.owner? other = some o' := ho'
        rw [h.boxes, howner] at ho'
        split at ho'
        · rename_i hslot
          cases ho'
          exact .inr ⟨rfl, hslot⟩
        · exact .inl ⟨o', ho', rfl⟩
  · refine grants_of_same hbusy h.boxes ?_ rfl ?_
    · rw [h.waitlist]
    · -- nobody waits for a reply to what is sent
      rw [List.filterMap_append]
      refine (congrArg _ (List.filterMap_eq_nil_iff.2 ?_)).trans (List.append_nil _)
      intro p hp
      obtain ⟨frame, hframe, rfl⟩ := List.mem_map.1 hp
      simp [hframes frame hframe]

/-- Only a request before which nobody waits gets a box. -/
theorem Effect.grants (h : u.Effect a u') (hu : u.InCustody)
    (hbusy : u.session.exchange.Busy capacity) (hopen : u'.IsOpen) :
    u.Grants u' ∧ u'.session.exchange.Busy capacity := by
  cases h with
  | rests h =>
    exact grants_of_same hbusy h.boxes (by rw [h.waitlist]) rfl rfl
  | opens => exact grants_of_same hbusy rfl (List.Sublist.refl _) rfl rfl
  | touches h =>
    exact grants_of_same hbusy h.boxes (by rw [h.waitlist]) rfl rfl
  | refuses hsubmit h =>
    obtain ⟨waitlist, rfl, hline⟩ := Exchange.submit_refused hsubmit
    refine grants_of_same hbusy h.boxes ?_ rfl rfl
    rw [h.waitlist]
    exact hline
  | accepts hshort hsubmit h => exact grants_of_accept hu hbusy hsubmit h
  | plays hc hmoves =>
    obtain ⟨_, _, _, rfl⟩ := hmoves.frame
    exact grants_of_same hbusy rfl (List.Sublist.refl _) rfl rfl
  | routes hroute h => exact grants_of_route hu hbusy hroute h
  | ends ha h => exact absurd hopen (not_isOpen_of_shutdown h)

/-- Requests are sent in the order in which they were accepted. -/
theorem Grants.inTurn (h : u.Grants u') (hu : u.InTurn) : u'.InTurn := by
  unfold InTurn at hu ⊢
  cases h with
  | @nobody kept new hkept hline haccepted hemitted howns =>
    have hold := ((List.Sublist.refl (u.emitted.filterMap Parcel.receivers)).append
      (hkept.map WaitingRequest.receivers)).trans hu
    have hnew := hold.append (List.Sublist.refl (new.map WaitingRequest.receivers))
    rw [hemitted, hline, haccepted, List.map_append, List.map_append, List.map_map,
      ← List.append_assoc]
    exact hnew
  | @fresh r payload slot hnobody hline haccepted hemitted howns =>
    rw [hnobody, List.map_nil, List.append_nil] at hu
    rw [hemitted, hline, haccepted, List.filterMap_append, List.map_append, List.map_nil,
      List.append_nil]
    exact hu.append (List.Sublist.refl [r])
  | @next given w slot owner hline hgiven haccepted hemitted hfreed hlost howns =>
    rw [hline, List.map_append, List.map_cons] at hu
    rw [hemitted, haccepted, List.filterMap_append, List.append_assoc]
    -- those that were given up are missing now
    exact ((List.Sublist.refl _).append (List.sublist_append_right _ _)).trans hu

/-- A request gets a box in a step. -/
def Gets (u u' : Usage) (r : Receivers) (slot : UInt16) : Prop :=
  ¬ u.Owns r slot ∧ u'.Owns r slot

/-- How a request gets a box in a step. -/
structure Granted (u u' : Usage) (r : Receivers) (slot : UInt16) : Prop where
  /-- Its frame names the box and is the only one that is sent in the step. -/
  sent : ∃ payload, (r, payload) ∈ u'.accepted ∧
    u'.emitted = u.emitted ++ [⟨⟨.payload, slot, payload⟩, some r⟩]
  /-- Requests that were accepted before and waited up to now had been closed. -/
  first : ∀ earlier, u'.Precedes earlier r → u.queued earlier ≠ [] →
    u.AllClosed earlier ∧ u'.queued earlier = []
  /-- It waited, and gets the box that another request gives back; or it was just accepted, and
  nobody waited. -/
  source : (u.queued r ≠ [] ∧ u'.queued r = [] ∧
      ∃ owner, u.Owns owner slot ∧ ¬ u'.Owns owner slot) ∨
    (u.line = [] ∧ ∃ payload, u'.accepted = u.accepted ++ [(r, payload)])

/-- A request that gets a box comes before all that wait. -/
theorem Grants.granted (h : u.Grants u') (hu : u.InCustody) (hturn : u.InTurn) {r : Receivers}
    {slot : UInt16} (hgets : Gets u u' r slot) : Granted u u' r slot := by
  obtain ⟨hnot, hown⟩ := hgets
  cases h with
  | nobody hkept hline haccepted hemitted howns => exact absurd (howns r slot hown) hnot
  | fresh hnobody hline haccepted hemitted howns =>
    obtain ⟨rfl, rfl⟩ := (howns r slot hown).resolve_left hnot
    refine ⟨⟨_, ?_, hemitted⟩, fun earlier _ hqueued => absurd ?_ hqueued,
      .inr ⟨hnobody, _, haccepted⟩⟩
    · rw [haccepted]
      exact List.mem_append_right _ List.mem_cons_self
    · rw [queued_eq_nil_iff, ← line, hnobody]
      exact List.not_mem_nil
  | @next given w _ owner hline hgiven haccepted hemitted hfreed hlost howns =>
    obtain ⟨rfl, rfl⟩ := (howns r slot hown).resolve_left hnot
    -- requests in line are different ones, in the order in which they were accepted
    have hnodup : (given.map WaitingRequest.receivers ++
        w.receivers :: u'.line.map WaitingRequest.receivers).Nodup := by
      have honce := (List.nodup_append.1 hu.ledger.once).1
      rwa [← line, hline, List.map_append, List.map_cons] at honce
    have horder := (List.sublist_append_right _ _).trans hturn
    rw [hline, List.map_append, List.map_cons] at horder
    obtain ⟨-, hrest, hgone⟩ := List.nodup_append.1 hnodup
    have hmem : w ∈ u.line := by
      rw [hline]
      exact List.mem_append_right _ List.mem_cons_self
    refine ⟨⟨w.payload, ?_, hemitted⟩, fun earlier hprec hqueued => ?_,
      .inl ⟨?_, ?_, owner, hfreed, hlost⟩⟩
    · rw [haccepted]
      exact hu.ledger.waiting w hmem
    · rw [Precedes, haccepted] at hprec
      have hwaits := Classical.not_not.1 (mt queued_eq_nil_iff.2 hqueued)
      rw [← line, hline, List.map_append, List.map_cons, List.mem_append, List.mem_cons] at hwaits
      obtain hbefore | rfl | hafter := hwaits
      · obtain ⟨q, hq, rfl⟩ := List.mem_map.1 hbefore
        refine ⟨hgiven q hq, queued_eq_nil_iff.2 fun hstill => ?_⟩
        exact hgone _ hbefore _ (List.mem_cons_of_mem _ hstill) rfl
      · exact absurd hprec (not_sublist_swap hu.ledger.nodup_submitted hprec)
      · -- those behind it were accepted later
        have hlater := (((List.singleton_sublist.2 hafter).cons_cons w.receivers).trans
          (List.sublist_append_right _ _)).trans horder
        exact absurd hprec (not_sublist_swap hu.ledger.nodup_submitted hlater)
    · rw [hu.queued_eq hmem]
      exact List.cons_ne_nil _ _
    · exact queued_eq_nil_iff.2 (List.nodup_cons.1 hrest).1

/-! ## Runs -/

/-- No box is free while a request waits, and requests are sent in turn. -/
structure Orderly (capacity : Nat) (u : Usage) : Prop where
  custody : u.InCustody
  busy : u.session.exchange.Busy capacity
  inTurn : u.InTurn

theorem orderly_start (settings : Settings) (link : Link) (id : UInt64) :
    Orderly settings.responseBoxes (start settings link id) where
  custody := (accounted_start settings link id).custody
  busy := (Exchange.busy_ofSettings settings).congr rfl (List.Sublist.refl _)
  inTurn := List.Sublist.refl []

theorem Orderly.step (h : Orderly capacity u) (hopen : (u.step a).IsOpen) :
    Orderly capacity (u.step a) := by
  have heffect := u.step_effect a
  obtain ⟨hgrants, hbusy⟩ := heffect.grants h.custody h.busy hopen
  exact ⟨heffect.custody h.custody hopen, hbusy, hgrants.inTurn h.inTurn⟩

theorem Orderly.run {actions : List Action} (h : Orderly capacity u)
    (hopen : (u.run actions).IsOpen) : Orderly capacity (u.run actions) := by
  induction actions generalizing u with
  | nil => exact h
  | cons a actions ih =>
    -- what is open in the end is open after the first step
    have hnext : (u.step a).IsOpen := IsOpen.of_run hopen
    exact ih (h.step hnext) hopen

/-- How boxes were given out in a run. -/
structure Fair (capacity : Nat) (s : Usage) (actions : List Action) : Prop where
  /-- While a request waits, every box has an owner. -/
  owned : (s.run actions).line ≠ [] →
    ∀ slot : UInt16, slot.toNat < capacity → ∃ r, (s.run actions).Owns r slot
  /-- What was sent was sent in the order in which it was accepted, and what waits comes after. -/
  inTurn : (s.run actions).InTurn
  /-- Nobody got a box before a request that was accepted earlier and waited. -/
  granted : ∀ before a after, actions = before ++ a :: after → ∀ r slot,
    Gets (s.run before) ((s.run before).step a) r slot →
      Granted (s.run before) ((s.run before).step a) r slot

/-- Boxes are given out in the order of submission, and none is kept back: this holds of every
session that is still open, whatever was done with it and whatever frames came. -/
theorem fair_run (settings : Settings) (link : Link) (id : UInt64) (actions : List Action)
    (hopen : ((start settings link id).run actions).IsOpen) :
    Fair settings.responseBoxes (start settings link id) actions := by
  have horderly := orderly_start settings link id
  have hend := horderly.run hopen
  refine ⟨fun hwaits slot hlt => ?_, hend.inTurn, fun before a after hsplit r slot hgets => ?_⟩
  · obtain ⟨o, howner⟩ := hend.busy.owned hwaits hlt
    exact ⟨o.receivers, o, howner, rfl⟩
  · -- the session was open before and after the step
    rw [hsplit, run_append, run_cons] at hopen
    have hstep := hopen.of_run
    have hbefore := horderly.run hstep.of_step
    have heffect := ((start settings link id).run before).step_effect a
    obtain ⟨hgrants, -⟩ := heffect.grants hbefore.custody hbefore.busy hstep
    exact hgrants.granted hbefore.custody hbefore.inTurn hgets

/-- `fair_run` in a session that is crowded: when the only box is given back, the request that
waits first gets it, and the one that was given up is passed over. -/
theorem fair_run_crowded :
    (crowded.1.run crowded.2).IsOpen ∧ Fair 1 crowded.1 crowded.2 ∧
    (crowded.1.run crowded.2).line ≠ [] ∧
    Gets (crowded.1.run (crowded.2.take 7)) (crowded.1.run crowded.2) (.query 2 3) 0 := by
  have hopen : (crowded.1.run crowded.2).session.exchange.closed = false := by decide +kernel
  have hbefore : (crowded.1.run (crowded.2.take 7)).session.exchange.boxes.owner? 0 =
      some ⟨.statement 0, 1, 0⟩ := by decide +kernel
  have hafter : (crowded.1.run crowded.2).session.exchange.boxes.owner? 0 =
      some ⟨.query 2 3, 1, 0⟩ := by decide +kernel
  refine ⟨hopen, fair_run _ _ _ _ hopen, by decide +kernel, ?_, _, hafter, rfl⟩
  rintro ⟨o, howner, hreceivers⟩
  rw [hbefore] at howner
  cases howner
  cases hreceivers

end Usage

end QueryLink
