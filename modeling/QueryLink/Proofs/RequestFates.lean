import Mathlib.Logic.ExistsUnique
import QueryLink.Proofs.Custody
import QueryLink.Proofs.UsageSteps

/-!
# No request is lost or sent twice

While a session is open, whatever callers, consumers, the pump and the far end do, each request
that was accepted is at one `Place`: it waits in line and was not sent, it was sent once and owns
the box its frame names, it was sent once and all its promises are done, or it left the line
unsent after all its promises had been closed.

## Key results

- `Effect.custody`, `Effect.left`: what one step does to requests
- `Accounted.run`: what a run does to them
- `conserves_run`: each request is at one place
-/

namespace QueryLink

/-- Who was roused, and whether the pump stopped reading, does not concern requests. -/
theorem Custody.alike {x x' : Exchange} {accepted : List (Receivers × Bytes)}
    {emitted : List Parcel} (h : Custody x accepted emitted) (halike : x.Alike x') :
    Custody x' accepted emitted := by
  obtain ⟨_, _, rfl⟩ := halike
  exact h.congr rfl rfl rfl (fun _ hid => hid) (fun _ hid => hid)

namespace Usage

/-! ## Places -/

/-- Where a request that was accepted can be. -/
inductive Place where
  /-- It stands in line. -/
  | waiting
  /-- It was sent, and it owns a box. -/
  | inFlight
  /-- It was sent, and everybody who waited for a reply is done. -/
  | answered
  /-- It left the line unsent, because nobody waited for a reply any more. -/
  | withdrawn
  deriving DecidableEq

/-- What stands in line for a request. -/
def queued (u : Usage) (r : Receivers) : List WaitingRequest :=
  u.session.exchange.waitlist.line.filter fun w => w.receivers = r

/-- Whether a request owns a box. -/
def Owns (u : Usage) (r : Receivers) (slot : UInt16) : Prop :=
  ∃ o, u.session.exchange.boxes.owner? slot = some o ∧ o.receivers = r

/-- The frames that were handed to the pump or to the link for a request. -/
def framesFor (u : Usage) (r : Receivers) : List Request :=
  (u.emitted.filter fun p => p.receivers = some r).map Parcel.frame

/-- Whether all promises of a request were made and are done. -/
def AllDone (u : Usage) (r : Receivers) : Prop :=
  ∀ id ∈ r.promises, u.session.exchange.Done id

/-- Whether all promises of a request were made and then closed, as only callers do. -/
def AllClosed (u : Usage) (r : Receivers) : Prop :=
  ∀ id ∈ r.promises, id < u.session.exchange.promises.size ∧ u.promiseState id = .closed

/-- Whether some step of a run took a request out of the line when all its promises were closed. -/
def LeftLine (s : Usage) (actions : List Action) (r : Receivers) : Prop :=
  ∃ before a after, actions = before ++ a :: after ∧ (s.run before).queued r ≠ [] ∧
    ((s.run before).step a).queued r = [] ∧ (s.run before).AllClosed r

/-- Whether a request with a payload is at a place after a run. -/
def IsAt (s : Usage) (actions : List Action) (r : Receivers) (payload : Bytes) : Place → Prop
  | .waiting =>
    (s.run actions).queued r = [⟨payload, r⟩] ∧ (∀ slot, ¬ (s.run actions).Owns r slot) ∧
      (s.run actions).framesFor r = []
  | .inFlight =>
    (s.run actions).queued r = [] ∧ ∃ slot, (∀ other, (s.run actions).Owns r other ↔ other = slot) ∧
      (s.run actions).framesFor r = [⟨.payload, slot, payload⟩]
  | .answered =>
    (s.run actions).queued r = [] ∧ (∀ slot, ¬ (s.run actions).Owns r slot) ∧
      (∃ slot, (s.run actions).framesFor r = [⟨.payload, slot, payload⟩]) ∧
      (s.run actions).AllDone r
  | .withdrawn =>
    (s.run actions).queued r = [] ∧ (∀ slot, ¬ (s.run actions).Owns r slot) ∧
      (s.run actions).framesFor r = [] ∧ LeftLine s actions r

variable {u u' s : Usage} {a : Action} {past actions : List Action} {r : Receivers}
  {payload : Bytes} {place place' : Place}

theorem IsAt.queued_iff (h : IsAt s actions r payload place) :
    (s.run actions).queued r ≠ [] ↔ place = .waiting := by
  cases place <;> simp [h.1]

theorem IsAt.owns_iff (h : IsAt s actions r payload place) :
    (∃ slot, (s.run actions).Owns r slot) ↔ place = .inFlight := by
  cases place with
  | inFlight =>
    obtain ⟨-, slot, howns, -⟩ := h
    exact iff_of_true ⟨slot, (howns slot).2 rfl⟩ rfl
  | _ => exact iff_of_false (not_exists.2 h.2.1) (by simp)

theorem IsAt.sent_iff (h : IsAt s actions r payload place) :
    (s.run actions).framesFor r ≠ [] ↔ place = .inFlight ∨ place = .answered := by
  cases place with
  | waiting => simp [h.2.2]
  | inFlight =>
    obtain ⟨-, slot, -, hframes⟩ := h
    simp [hframes]
  | answered =>
    obtain ⟨-, -, ⟨slot, hframes⟩, -⟩ := h
    simp [hframes]
  | withdrawn => simp [h.2.2.1]

/-- A request is at no two places. -/
theorem IsAt.unique (h : IsAt s actions r payload place) (h' : IsAt s actions r payload place') :
    place = place' := by
  -- whether it waits, owns a box and was sent tells the places apart
  have hqueued := h.queued_iff.symm.trans h'.queued_iff
  have howns := h.owns_iff.symm.trans h'.owns_iff
  have hsent := h.sent_iff.symm.trans h'.sent_iff
  cases place <;> cases place' <;> simp_all

/-! ## One step -/

/-- The requests of a usage are looked after. -/
def InCustody (u : Usage) : Prop :=
  Custody u.session.exchange u.accepted u.emitted

/-- A request that is accepted gets a box and is sent, or it waits. -/
theorem accepts_cases {x y : Exchange} (hvalid : x.boxes.Valid) {ask : Exchange.Ask}
    {bytes : Bytes} {answer : Exchange.Accepted}
    (hsubmit : x.submit ask bytes = (.ok answer, y)) :
    answer.receivers = ask.receivers x.promises.size ∧
    ((∃ slot boxes, x.boxes.allocate (ask.receivers x.promises.size) = some (slot, boxes) ∧
        y = Exchange.addPromises { x with boxes } (ask.receivers x.promises.size) ∧
        y.parcels answer.frame.toList = [⟨⟨.payload, slot, bytes⟩, some answer.receivers⟩]) ∨
      ∃ waitlist line, line.Sublist x.waitlist.line ∧
        waitlist.line = line ++ [⟨bytes, ask.receivers x.promises.size⟩] ∧
        y = Exchange.addPromises { x with waitlist } (ask.receivers x.promises.size) ∧
        y.parcels answer.frame.toList = []) := by
  obtain ⟨e, waitlist, heq, -⟩ | ⟨slot, boxes, -, hbox, heq⟩ |
    ⟨waitlist, line, -, hline, hwaits, heq⟩ := x.submit_cases ask bytes <;>
    rw [hsubmit] at heq <;> cases heq
  · have howner := (hvalid.owner?_allocate hbox).2 slot
    rw [if_pos rfl] at howner
    refine ⟨rfl, .inl ⟨slot, boxes, hbox, rfl, ?_⟩⟩
    simp [Exchange.parcels, Exchange.addPromises, howner]
  · exact ⟨rfl, .inr ⟨waitlist, line, hline, hwaits, rfl, rfl⟩⟩

/-- Accepting a request keeps custody. -/
private theorem custody_accepts {x y : Exchange} {accepted : List (Receivers × Bytes)}
    {emitted : List Parcel} (h : Custody x accepted emitted) {ask : Exchange.Ask} {bytes : Bytes}
    (hshort : bytes.length ≤ maxPayload) {answer : Exchange.Accepted}
    (hsubmit : x.submit ask bytes = (.ok answer, y)) :
    Custody y (accepted ++ [(answer.receivers, bytes)])
      (emitted ++ y.parcels answer.frame.toList) := by
  obtain ⟨hreceivers, ⟨slot, boxes, hbox, rfl, hparcels⟩ |
    ⟨waitlist, line, hline, hwaits, rfl, hparcels⟩⟩ := accepts_cases h.held.valid hsubmit
  · rw [hparcels, hreceivers]
    exact h.submit_sent hshort hbox
  · rw [hparcels, hreceivers, List.append_nil]
    exact h.submit_waits hshort hline hwaits

/-- A step that leaves the session open keeps its requests in custody. -/
theorem Effect.custody (h : u.Effect a u') (hu : u.InCustody) (hopen : u'.IsOpen) :
    u'.InCustody := by
  cases h with
  | rests h => exact Custody.alike hu h
  | opens => exact hu
  | touches h => exact Custody.touched hu h
  | refuses hsubmit h =>
    obtain ⟨waitlist, rfl, hline⟩ := Exchange.submit_refused hsubmit
    exact (Custody.leave hu hline).alike h
  | accepts hshort hsubmit h =>
    exact (custody_accepts hu hshort hsubmit).alike h
  | plays hc hmoves =>
    obtain ⟨_, _, _, rfl⟩ := hmoves.frame
    exact Custody.congr hu rfl rfl rfl (fun _ hid => hid) (fun _ hid => hid)
  | routes hroute h => exact (Custody.route hu hroute).alike h
  | ends ha h => exact absurd hopen (not_isOpen_of_shutdown h)

/-- Frames that were handed over stay so. -/
theorem Effect.emitted_subset (h : u.Effect a u') : u.emitted ⊆ u'.emitted := by
  cases h with
  | accepts hshort hsubmit h => exact List.subset_append_left _ _
  | routes hroute h => exact List.subset_append_left _ _
  | _ => exact List.Subset.refl _

/-- A request leaves the line to be sent, or all its promises had been closed. -/
theorem Effect.left (h : u.Effect a u') (hu : u.InCustody) (hopen : u'.IsOpen)
    {w : WaitingRequest} (hw : w ∈ u.session.exchange.waitlist.line) :
    w ∈ u'.session.exchange.waitlist.line ∨
      (∃ p ∈ u'.emitted, p.receivers = some w.receivers) ∨ u.AllClosed w.receivers := by
  have hclosed : u.session.exchange.isAbandoned w.receivers = true → u.AllClosed w.receivers :=
    Custody.closed_of_isAbandoned hu hw
  cases h with
  | rests h => exact .inl (h.waitlist ▸ hw)
  | opens => exact .inl hw
  | touches h => exact .inl (h.waitlist ▸ hw)
  | refuses hsubmit h =>
    have hleft := Exchange.submit_left hsubmit hw
    rw [← h.waitlist] at hleft
    exact hleft.imp_right fun habandoned => .inr (hclosed habandoned)
  | accepts hshort hsubmit h =>
    have hleft := Exchange.submit_left hsubmit hw
    rw [← h.waitlist] at hleft
    exact hleft.imp_right fun habandoned => .inr (hclosed habandoned)
  | plays hc hmoves =>
    obtain ⟨_, _, _, rfl⟩ := hmoves.frame
    exact .inl hw
  | routes hroute h =>
    obtain hkept | habandoned | ⟨p, hp, hreceivers⟩ := Custody.route_left hu hroute hw
    · exact .inl (h.waitlist.symm ▸ hkept)
    · exact .inr (.inr (hclosed habandoned))
    · exact .inr (.inl ⟨p, List.mem_append_right _ hp, hreceivers⟩)
  | ends ha h => exact absurd hopen (not_isOpen_of_shutdown h)

/-- A request that is accepted in a step waits then or was sent. -/
theorem Effect.accepted_cases (h : u.Effect a u') (hu : u.InCustody) {q : Receivers × Bytes}
    (hq : q ∈ u'.accepted) :
    q ∈ u.accepted ∨ q.1 ∈ placed u'.session.exchange.waitlist.line u'.emitted [] := by
  cases h with
  | accepts hshort hsubmit h =>
    rename_i s ask bytes answer x
    refine (List.mem_append.1 hq).imp_right fun hnew => ?_
    obtain rfl := List.mem_singleton.1 hnew
    unfold placed
    rw [h.waitlist]
    obtain ⟨hreceivers, ⟨slot, boxes, hbox, rfl, hparcels⟩ |
      ⟨waitlist, line, hline, hwaits, rfl, hparcels⟩⟩ := accepts_cases hu.held.valid hsubmit
    · rw [hparcels]
      exact List.mem_append_right _ (List.mem_append_left _ (List.mem_filterMap.2
        ⟨_, List.mem_append_right _ List.mem_cons_self, rfl⟩))
    · refine List.mem_append_left _ (List.mem_map.2 ⟨⟨bytes, answer.receivers⟩, ?_, rfl⟩)
      show _ ∈ waitlist.line
      rw [hwaits, hreceivers]
      exact List.mem_append_right _ List.mem_cons_self
  | _ => exact .inl hq

/-! ## Runs -/

theorem queued_eq_nil_iff : u.queued r = [] ↔
    r ∉ u.session.exchange.waitlist.line.map WaitingRequest.receivers := by
  simp [queued, List.filter_eq_nil_iff]

theorem framesFor_eq_nil_iff : u.framesFor r = [] ↔
    r ∉ u.emitted.filterMap Parcel.receivers := by
  simp [framesFor, List.filter_eq_nil_iff]

/-- What left the line in a run left it in any longer run. -/
theorem LeftLine.append (h : LeftLine s past r) (more : List Action) :
    LeftLine s (past ++ more) r := by
  obtain ⟨before, a, after, rfl, hrest⟩ := h
  exact ⟨before, a, after ++ more, by rw [List.append_assoc, List.cons_append], hrest⟩

/-- After a run, every request that was accepted is looked after, or it left the line. -/
structure Accounted (s : Usage) (past : List Action) : Prop where
  custody : (s.run past).InCustody
  placed : ∀ q ∈ (s.run past).accepted,
    q.1 ∈ placed (s.run past).session.exchange.waitlist.line (s.run past).emitted [] ∨
      LeftLine s past q.1

theorem accounted_start (settings : Settings) (link : Link) (id : UInt64) :
    Accounted (start settings link id) [] where
  custody := (Custody.start settings).alike ⟨_, _, rfl⟩
  placed := by simp [start]

/-- One more step keeps account of all requests. -/
theorem Accounted.step (h : Accounted s past) (hopen : (s.run (past ++ [a])).IsOpen) :
    Accounted s (past ++ [a]) := by
  have hrun : s.run (past ++ [a]) = (s.run past).step a := run_append s past [a]
  rw [hrun] at hopen
  have heffect := (s.run past).step_effect a
  refine ⟨?_, fun q hq => ?_⟩
  · rw [hrun]
    exact heffect.custody h.custody hopen
  rw [hrun] at hq ⊢
  obtain hold | hnew := heffect.accepted_cases h.custody hq
  · obtain hplaced | hleft := h.placed q hold
    · simp only [QueryLink.placed, List.filterMap_nil, List.append_nil, List.mem_append]
        at hplaced ⊢
      obtain hwaiting | hsent := hplaced
      · -- if it does not wait any more, it left the line in this very step
        by_cases hstill : q.1 ∈
            ((s.run past).step a).session.exchange.waitlist.line.map WaitingRequest.receivers
        · exact .inl (.inl hstill)
        · obtain ⟨w, hw, hreceivers⟩ := List.mem_map.1 hwaiting
          obtain hkept | ⟨p, hp, hlabel⟩ | hclosed := heffect.left h.custody hopen hw
          · exact absurd (List.mem_map.2 ⟨w, hkept, hreceivers⟩) hstill
          · rw [hreceivers] at hlabel
            exact .inl (.inr (List.mem_filterMap.2 ⟨p, hp, hlabel⟩))
          · rw [hreceivers] at hclosed
            refine .inr ⟨past, a, [], rfl, fun hnil => ?_, queued_eq_nil_iff.2 hstill, hclosed⟩
            exact queued_eq_nil_iff.1 hnil hwaiting
      · obtain ⟨p, hp, hlabel⟩ := List.mem_filterMap.1 hsent
        exact .inl (.inr (List.mem_filterMap.2 ⟨p, heffect.emitted_subset hp, hlabel⟩))
    · exact .inr (hleft.append [a])
  · exact .inl hnew

/-- A run that leaves the session open keeps account of all requests. -/
theorem Accounted.run (h : Accounted s past) (hopen : (s.run (past ++ actions)).IsOpen) :
    Accounted s (past ++ actions) := by
  induction actions generalizing past with
  | nil => rwa [List.append_nil]
  | cons a actions ih =>
    rw [List.append_cons] at hopen ⊢
    refine ih (h.step ?_) hopen
    -- a session that is open in the end was open all the way
    rw [run_append] at hopen
    exact hopen.of_run

/-! ## The place of a request -/

/-- Only one element of a list has a value if the values are all different. -/
private theorem filter_eq_singleton {α β : Type} [DecidableEq β] {f : α → Option β} {l : List α}
    (h : (l.filterMap f).Nodup) {a : α} (ha : a ∈ l) {b : β} (hb : f a = some b) :
    l.filter (fun x => f x = some b) = [a] := by
  obtain ⟨before, after, rfl⟩ := List.append_of_mem ha
  -- with `b` moved to the front, `Nodup` says that no other element has it
  rw [List.filterMap_append, List.filterMap_cons_some hb, List.perm_middle.nodup_iff,
    List.nodup_cons, ← List.filterMap_append] at h
  have hother : ∀ x ∈ before ++ after, ¬ (decide (f x = some b) = true) := fun x hx hsome =>
    h.1 (List.mem_filterMap.2 ⟨x, hx, of_decide_eq_true hsome⟩)
  rw [List.filter_append, List.filter_cons_of_pos (by simp [hb]),
    List.filter_eq_nil_iff.2 fun x hx => hother x (List.mem_append_left _ hx),
    List.filter_eq_nil_iff.2 fun x hx => hother x (List.mem_append_right _ hx), List.nil_append]

namespace InCustody

variable (h : u.InCustody)

include h

/-- A request stands in line once. -/
theorem queued_eq {w : WaitingRequest} (hw : w ∈ u.session.exchange.waitlist.line) :
    u.queued w.receivers = [w] := by
  have hnodup := (List.nodup_append.1 h.ledger.once).1
  rw [← List.filterMap_eq_map] at hnodup
  simpa [queued] using filter_eq_singleton hnodup hw rfl

/-- A request is sent once. -/
theorem framesFor_eq {p : Parcel} (hp : p ∈ u.emitted) (hreceivers : p.receivers = some r) :
    u.framesFor r = [p.frame] := by
  have hnodup := h.ledger.distinct
  rw [Distinct, List.filterMap_nil, List.append_nil] at hnodup
  rw [framesFor, filter_eq_singleton hnodup hp hreceivers, List.map_singleton]

/-- A request that waits was not sent. -/
theorem not_sent {w : WaitingRequest} (hw : w ∈ u.session.exchange.waitlist.line) :
    w.receivers ∉ u.emitted.filterMap Parcel.receivers := fun hsent =>
  (List.nodup_append.1 h.ledger.once).2.2 w.receivers (List.mem_map_of_mem hw) w.receivers
    (List.mem_append_left _ hsent) rfl

/-- A request that owns a box was sent, with a frame that names the box. -/
theorem sent_of_owns {slot : UInt16} (howns : u.Owns r slot) :
    ∃ p ∈ u.emitted, p.receivers = some r ∧ p.frame.slot = slot := by
  obtain ⟨o, howner, rfl⟩ := howns
  exact h.held.owned slot o howner

/-- A request that was sent owns no box but the one that its frame names. -/
theorem slot_eq_of_owns {p : Parcel} (hp : p ∈ u.emitted) (hreceivers : p.receivers = some r)
    {slot : UInt16} (howns : u.Owns r slot) : slot = p.frame.slot := by
  obtain ⟨p', hp', hreceivers', rfl⟩ := h.sent_of_owns howns
  have hsame := (h.framesFor_eq hp' hreceivers').symm.trans (h.framesFor_eq hp hreceivers)
  rw [List.singleton_inj.1 hsame]

/-- Requests that were accepted are told apart by who waits for them. -/
theorem payload_eq {bytes : Bytes} (hq : (r, payload) ∈ u.accepted)
    (hbytes : (r, bytes) ∈ u.accepted) : bytes = payload := by
  obtain ⟨id, hid⟩ := r.exists_promise
  exact congrArg Prod.snd (h.ledger.eq_of_mem_promises hq hbytes hid hid)

/-- The frame that was sent for a request carries its payload. -/
theorem frame_eq (hq : (r, payload) ∈ u.accepted) {p : Parcel} (hp : p ∈ u.emitted)
    (hreceivers : p.receivers = some r) : p.frame = ⟨.payload, p.frame.slot, payload⟩ := by
  obtain ⟨hkind, hbytes⟩ := h.ledger.labelled hp hreceivers
  rw [← hkind, ← h.payload_eq hq hbytes]

end InCustody

/-- A request that waits owns no box and was not sent. -/
private theorem Accounted.isAt_waiting (h : Accounted s actions)
    (hq : (r, payload) ∈ (s.run actions).accepted) {w : WaitingRequest}
    (hw : w ∈ (s.run actions).session.exchange.waitlist.line) (hreceivers : w.receivers = r) :
    IsAt s actions r payload .waiting := by
  subst hreceivers
  have hpayload := h.custody.payload_eq hq (h.custody.ledger.waiting w hw)
  have hnot := h.custody.not_sent hw
  refine ⟨?_, fun slot howns => ?_, framesFor_eq_nil_iff.2 hnot⟩
  · rw [h.custody.queued_eq hw, ← hpayload]
  · obtain ⟨p, hp, hlabel, -⟩ := h.custody.sent_of_owns howns
    exact hnot (List.mem_filterMap.2 ⟨p, hp, hlabel⟩)

/-- A request that was sent owns a box, or it was answered. -/
private theorem Accounted.isAt_sent (h : Accounted s actions)
    (hq : (r, payload) ∈ (s.run actions).accepted) {p : Parcel} (hp : p ∈ (s.run actions).emitted)
    (hreceivers : p.receivers = some r) :
    IsAt s actions r payload .inFlight ∨ IsAt s actions r payload .answered := by
  have hframes : (s.run actions).framesFor r = [⟨.payload, p.frame.slot, payload⟩] := by
    rw [h.custody.framesFor_eq hp hreceivers, ← h.custody.frame_eq hq hp hreceivers]
  have hqueued : (s.run actions).queued r = [] := by
    refine queued_eq_nil_iff.2 fun hmem => ?_
    obtain ⟨w, hw, rfl⟩ := List.mem_map.1 hmem
    exact h.custody.not_sent hw (List.mem_filterMap.2 ⟨p, hp, hreceivers⟩)
  -- it can own no other box than the one its frame names
  by_cases howns : (s.run actions).Owns r p.frame.slot
  · refine .inl ⟨hqueued, p.frame.slot, fun slot => ⟨fun hslot => ?_, fun heq => ?_⟩, hframes⟩
    · exact h.custody.slot_eq_of_owns hp hreceivers hslot
    · exact heq ▸ howns
  · refine .inr ⟨hqueued, fun slot hslot => ?_, ⟨p.frame.slot, hframes⟩, ?_⟩
    · exact howns (h.custody.slot_eq_of_owns hp hreceivers hslot ▸ hslot)
    · exact (h.custody.held.settled p hp r hreceivers).resolve_left howns

/-- A request that neither waits nor was sent has left the line. -/
private theorem Accounted.isAt_withdrawn (h : Accounted s actions)
    (hwaits : r ∉ (s.run actions).session.exchange.waitlist.line.map WaitingRequest.receivers)
    (hsent : r ∉ (s.run actions).emitted.filterMap Parcel.receivers)
    (hleft : LeftLine s actions r) : IsAt s actions r payload .withdrawn := by
  refine ⟨queued_eq_nil_iff.2 hwaits, fun slot howns => ?_, framesFor_eq_nil_iff.2 hsent, hleft⟩
  obtain ⟨p, hp, hlabel, -⟩ := h.custody.sent_of_owns howns
  exact hsent (List.mem_filterMap.2 ⟨p, hp, hlabel⟩)

/-- Every request that was accepted is at a place. -/
theorem Accounted.isAt (h : Accounted s actions) (hq : (r, payload) ∈ (s.run actions).accepted) :
    ∃ place, IsAt s actions r payload place := by
  by_cases hwaits :
      r ∈ (s.run actions).session.exchange.waitlist.line.map WaitingRequest.receivers
  · obtain ⟨w, hw, hreceivers⟩ := List.mem_map.1 hwaits
    exact ⟨.waiting, h.isAt_waiting hq hw hreceivers⟩
  by_cases hsent : r ∈ (s.run actions).emitted.filterMap Parcel.receivers
  · obtain ⟨p, hp, hreceivers⟩ := List.mem_filterMap.1 hsent
    obtain hat | hat := h.isAt_sent hq hp hreceivers
    · exact ⟨.inFlight, hat⟩
    · exact ⟨.answered, hat⟩
  · obtain hplaced | hleft := h.placed _ hq
    · simp only [QueryLink.placed, List.filterMap_nil, List.append_nil, List.mem_append] at hplaced
      exact absurd hplaced (not_or.2 ⟨hwaits, hsent⟩)
    · exact ⟨.withdrawn, h.isAt_withdrawn hwaits hsent hleft⟩

/-- Where all requests are after a run. -/
structure Conserves (s : Usage) (actions : List Action) : Prop where
  /-- No two requests share a promise. -/
  own : ((s.run actions).accepted.flatMap fun q => q.1.promises).Nodup
  /-- Each request that was accepted is at one place. -/
  place : ∀ q ∈ (s.run actions).accepted, ∃! place, IsAt s actions q.1 q.2 place
  /-- Nothing else stands in line. -/
  queued : ∀ w ∈ (s.run actions).session.exchange.waitlist.line,
    (w.receivers, w.payload) ∈ (s.run actions).accepted
  /-- Nothing else owns a box. -/
  owned : ∀ slot r, (s.run actions).Owns r slot →
    ∃ payload, (r, payload) ∈ (s.run actions).accepted
  /-- No other request was sent. -/
  sent : ∀ p ∈ (s.run actions).emitted, p.frame.kind = .payload →
    ∃ r, p.receivers = some r ∧ (r, p.frame.payload) ∈ (s.run actions).accepted

/-- No request is lost or sent twice: in a session that is still open, whatever was done with it
and whatever frames came, each request that was accepted is at exactly one place. -/
theorem conserves_run (settings : Settings) (link : Link) (id : UInt64) (actions : List Action)
    (hopen : ((start settings link id).run actions).IsOpen) :
    Conserves (start settings link id) actions := by
  have h : Accounted (start settings link id) actions :=
    (accounted_start settings link id).run hopen
  refine ⟨h.custody.ledger.promises, fun q hq => ?_, h.custody.ledger.waiting,
    fun slot r howns => ?_, fun p hp hkind => ?_⟩
  · obtain ⟨place, hat⟩ := h.isAt hq
    exact ⟨place, hat, fun place' hat' => hat'.unique hat⟩
  · obtain ⟨o, howner, rfl⟩ := howns
    exact h.custody.accepted_of_owner howner
  · have hlabelled := h.custody.ledger.parcels p hp
    rwa [Parcel.Labelled, if_pos hkind] at hlabelled

/-- A session with one box, in which a request is answered, one is given up in line, one gets the
box after that, and one waits. -/
def crowded : Usage × List Action :=
  let settings := (({} : Environment).settings.withResponseBoxes 1).withPendingLimit 4
  let link : LocalLink := { capacity := 1 }
  (start settings (.inProcess link) 0,
    [.submit .statement 1 [], .submit .statement 1 [], .abandon 1, .submit .query 1 [],
      .submit .statement 1 [], .takeMail,
      .farEnd (.inProcess { link with replies := [.plain .payload 0 []] }) true, .routeNext])

/-- `conserves_run` in a session that is crowded: the answered request and the one that owns the
box were sent, and one waits. -/
theorem conserves_run_crowded :
    (crowded.1.run crowded.2).IsOpen ∧ Conserves crowded.1 crowded.2 ∧
    (crowded.1.run crowded.2).accepted.map Prod.fst =
      [.statement 0, .statement 1, .query 2 3, .statement 4] ∧
    (crowded.1.run crowded.2).emitted.filterMap Parcel.receivers = [.statement 0, .query 2 3] ∧
    (crowded.1.run crowded.2).session.exchange.waitlist.line.map WaitingRequest.receivers =
      [.statement 4] := by
  have hopen : (crowded.1.run crowded.2).session.exchange.closed = false := by decide +kernel
  exact ⟨hopen, conserves_run _ _ _ _ hopen, by decide +kernel, by decide +kernel,
    by decide +kernel⟩

end Usage

end QueryLink
