import QueryLink.Proofs.Handling
import QueryLink.Proofs.SubmissionOrder

/-!
# Frames that make no sense

In a session that is open a frame fails for one of three reasons: it is a reply for a box that no
request owns, it announces a result set by a name that is no text, or it greets a session that was
greeted before. Such a frame leaves everything as it was. An owner of a box still expects a reply,
so no reply comes for a request that has all of them.

## Key results

- `Owner.Heard.expects`: an owner of a box can hear a reply
- `Exchange.route_eq_error_iff`: why routing fails
- `faults_run`: which frames fail in a session that is open, and what they change
-/

namespace QueryLink

/-- Somebody who owns a box waits for a reply. -/
theorem Owner.Heard.expects {o : Owner} {done : PromiseId → Prop} (h : o.Heard done)
    (isHead : Bool) : ∃ arrival, BoxTable.Arrival.of? o isHead = some arrival := by
  obtain ⟨receivers, expected, received⟩ := o
  obtain ⟨rfl, rfl⟩ | ⟨head, body, rfl, rfl, rfl, -⟩ := h
  · cases receivers with
    | statement reply => exact ⟨_, rfl⟩
    | query head body =>
      cases isHead with
      | true => exact ⟨_, rfl⟩
      | false => exact ⟨_, rfl⟩
  · exact ⟨_, rfl⟩

/-- A reply is refused for a box without an owner, if all owners wait for one. -/
theorem BoxTable.push_eq_error_iff {t : BoxTable} {slot : UInt16} {isHead : Bool}
    {e : ProtocolError}
    (hexpects : ∀ o, t.owner? slot = some o → ∃ arrival, Arrival.of? o isHead = some arrival) :
    t.push slot isHead = .error e ↔ t.owner? slot = none ∧ e = .unknownSlot slot := by
  unfold push
  cases howner : t.owner? slot with
  | none => simp only [Except.error.injEq, true_and, eq_comm]
  | some o =>
    obtain ⟨arrival, harrival⟩ := hexpects o howner
    simp only [harrival, reduceCtorEq, false_and]

namespace Exchange

/-- Why a frame makes no sense. -/
inductive Fault (x : Exchange) (r : Reply) : Cause → Prop
  /-- A reply for a box that nobody owns. -/
  | unowned (hkind : r.kind = .payload ∨ r.kind = .bodyHead) (h : x.boxes.owner? r.slot = none) :
      Fault x r (.protocol (.unknownSlot r.slot))
  /-- A result set with a name that is no text. -/
  | unnamed {fault} (hkind : r.kind = .resultSetHello) (h : Utf8.decode r.payload = .error fault) :
      Fault x r (.value (.utf8 fault))
  /-- A greeting, long after the session was opened. -/
  | greeting (hkind : r.kind = .helloOk ∨ r.kind = .helloNg) :
      Fault x r (.protocol (.unexpected r.kind "session"))

variable {x : Exchange} {r : Reply} {e : Cause}

/-- A reply to a request fails for want of an owner. -/
theorem deliver_eq_error_iff {isHead : Bool}
    (hexpects : ∀ o, x.boxes.owner? r.slot = some o →
      ∃ arrival, BoxTable.Arrival.of? o isHead = some arrival) :
    x.deliver r isHead = .error e ↔
      x.boxes.owner? r.slot = none ∧ e = .protocol (.unknownSlot r.slot) := by
  have hpush := fun e => BoxTable.push_eq_error_iff (e := e) hexpects
  unfold deliver
  cases h : x.boxes.push r.slot isHead with
  | error e' =>
    obtain ⟨hnone, rfl⟩ := (hpush e').1 h
    simp only [Except.error.injEq, hnone, true_and, eq_comm]
  | ok pushed =>
    -- a reply that is taken has an owner
    refine iff_of_false nofun ?_
    rintro ⟨hnone, -⟩
    have herror := (hpush (.unknownSlot r.slot)).2 ⟨hnone, rfl⟩
    rw [h] at herror
    cases herror

/-- Routing fails for a frame that makes no sense, if every owner of a box waits for a reply. -/
theorem route_eq_error_iff (hopen : x.closed = false)
    (hexpects : ∀ slot o isHead, x.boxes.owner? slot = some o →
      ∃ arrival, BoxTable.Arrival.of? o isHead = some arrival) :
    x.route r = .error e ↔ x.Fault r e := by
  have hdeliver := fun isHead =>
    deliver_eq_error_iff (x := x) (r := r) (e := e) fun o => hexpects r.slot o isHead
  unfold route
  rw [hopen, if_neg Bool.false_ne_true]
  constructor
  · intro h
    split at h
    · rename_i hkind
      obtain ⟨hnone, rfl⟩ := (hdeliver false).1 h
      exact .unowned (.inl hkind) hnone
    · rename_i hkind
      obtain ⟨hnone, rfl⟩ := (hdeliver true).1 h
      exact .unowned (.inr hkind) hnone
    · rename_i hkind
      split at h
      · rename_i fault hname
        cases h
        exact .unnamed hkind hname
      · cases h
    · cases h
    · cases h
    · rename_i hkind
      cases h
      exact hkind ▸ .greeting (.inl hkind)
    · rename_i hkind
      cases h
      exact hkind ▸ .greeting (.inr hkind)
  · intro h
    cases h with
    | unowned hkind hnone =>
      obtain hkind | hkind := hkind
      · rw [hkind]
        exact (hdeliver false).2 ⟨hnone, rfl⟩
      · rw [hkind]
        exact (hdeliver true).2 ⟨hnone, rfl⟩
    | unnamed hkind hname => simp only [hkind, hname]
    | greeting hkind => obtain hkind | hkind := hkind <;> simp only [hkind]

end Exchange

namespace Usage

variable {u : Usage} {r : Reply}

/-- A box that no request owns has no owner. -/
theorem owner?_eq_none_iff {slot : UInt16} :
    u.session.exchange.boxes.owner? slot = none ↔ ∀ q, ¬ u.Owns q slot := by
  rw [Option.eq_none_iff_forall_ne_some]
  constructor
  · rintro h q ⟨o, howner, -⟩
    exact h o howner
  · intro h o howner
    exact h o.receivers ⟨o, howner, rfl⟩

/-- Which frames fail in a session with so many boxes, and what happens then. The frame is handled
in place, so that nothing is undone when it fails. -/
structure Faults (capacity : Nat) (u : Usage) (r : Reply) : Prop where
  /-- A frame fails when it is a reply for a box that no request owns, announces a name that is no
  text, or greets. -/
  fails : (∃ e, ((Work.handle r).play u.session).1 = .error e) ↔
    ((r.kind = .payload ∨ r.kind = .bodyHead) ∧ ∀ q, ¬ u.Owns q r.slot) ∨
    (r.kind = .resultSetHello ∧ ∀ name, Utf8.encode name ≠ r.payload) ∨
    r.kind = .helloOk ∨ r.kind = .helloNg
  /-- It fails with the cause of its fault. -/
  causes : ∀ e, ((Work.handle r).play u.session).1 = .error e ↔ u.session.exchange.Fault r e
  /-- It leaves the boxes, the promises, the line, the result sets and the outbox as they were, and
  all the rest of the session. -/
  keeps : ∀ e, ((Work.handle r).play u.session).1 = .error e →
    ((Work.handle r).play u.session).2 = u.session
  /-- The session after a frame is the one that the pump goes on with. -/
  routes : ((Work.handle r).play u.session).2 = u.session.route r
  /-- No request owns a box that is not in the table. -/
  unowned : ∀ slot : UInt16, capacity ≤ slot.toNat → ∀ q, ¬ u.Owns q slot
  /-- Nobody who owns a box has all his replies. -/
  expects : ∀ slot o isHead, u.session.exchange.boxes.owner? slot = some o →
    ∃ arrival, BoxTable.Arrival.of? o isHead = some arrival

/-- A name that can not be read is the encoding of no text. -/
theorem exists_decode_error_iff (bs : Bytes) :
    (∃ fault, Utf8.decode bs = .error fault) ↔ ∀ name, Utf8.encode name ≠ bs := by
  constructor
  · rintro ⟨fault, h⟩ name rfl
    rw [Utf8.decode_encode] at h
    cases h
  · intro h
    cases hname : Utf8.decode bs with
    | error fault => exact ⟨fault, rfl⟩
    | ok name => exact absurd (Utf8.encode_of_decode hname) (h name)

/-- The faults of a frame, whatever their causes. -/
theorem exists_fault_iff : (∃ e, u.session.exchange.Fault r e) ↔
    ((r.kind = .payload ∨ r.kind = .bodyHead) ∧ ∀ q, ¬ u.Owns q r.slot) ∨
    (r.kind = .resultSetHello ∧ ∀ name, Utf8.encode name ≠ r.payload) ∨
    r.kind = .helloOk ∨ r.kind = .helloNg := by
  rw [← owner?_eq_none_iff, ← exists_decode_error_iff]
  constructor
  · rintro ⟨e, h⟩
    cases h with
    | unowned hkind hnone => exact .inl ⟨hkind, hnone⟩
    | unnamed hkind hname => exact .inr (.inl ⟨hkind, _, hname⟩)
    | greeting hkind => exact .inr (.inr hkind)
  · rintro (⟨hkind, hnone⟩ | ⟨hkind, fault, hname⟩ | hkind)
    · exact ⟨_, .unowned hkind hnone⟩
    · exact ⟨_, .unnamed hkind hname⟩
    · exact ⟨_, .greeting hkind⟩

/-- Whatever was done with a session that is still open and whatever frame comes, the frame fails
exactly when it makes no sense, and then it changes nothing. -/
theorem faults_run (settings : Settings) (link : Link) (id : UInt64) (actions : List Action)
    (hopen : ((start settings link id).run actions).IsOpen) (r : Reply) :
    Faults settings.responseBoxes ((start settings link id).run actions) r := by
  have horderly := (orderly_start settings link id).run hopen
  generalize (start settings link id).run actions = u at hopen horderly
  have hexpects : ∀ slot o isHead, u.session.exchange.boxes.owner? slot = some o →
      ∃ arrival, BoxTable.Arrival.of? o isHead = some arrival := fun slot o isHead howner =>
    (horderly.custody.held.heard slot o howner).expects isHead
  have hroute := fun e => Exchange.route_eq_error_iff (r := r) (e := e) hopen hexpects
  have hplay := Work.play_handle r u.session
  have hcauses : ∀ e, ((Work.handle r).play u.session).1 = .error e ↔
      u.session.exchange.Fault r e := by
    intro e
    rw [← hroute, hplay]
    cases u.session.exchange.route r with
    | error e' => simp only [Work.settled, Except.error.injEq]
    | ok sent => exact iff_of_false nofun nofun
  refine {
    fails := (exists_congr hcauses).trans exists_fault_iff
    causes := hcauses
    keeps := fun e h => ?_
    routes := Work.play_handle_session r u.session
    unowned := fun slot hpast q howns => ?_
    expects := hexpects }
  · rw [hplay, (hroute e).2 ((hcauses e).1 h)]
    rfl
  · obtain ⟨o, howner, -⟩ := howns
    have hlt := BoxTable.inBounds_of_owner howner
    rw [horderly.busy.size] at hlt
    omega

/-- `faults_run` in a session that is crowded: a reply for a box past the only one fails, and one
for that box, which a query owns, does not. -/
theorem faults_run_crowded :
    (crowded.1.run crowded.2).IsOpen ∧
    Faults 1 (crowded.1.run crowded.2) (.plain .payload 7 []) ∧
    ((Work.handle (.plain .payload 7 [])).play (crowded.1.run crowded.2).session).1 =
      .error (.protocol (.unknownSlot 7)) ∧
    ¬ ∃ e, ((Work.handle (.plain .payload 0 [])).play (crowded.1.run crowded.2).session).1 =
      .error e := by
  have hopen : (crowded.1.run crowded.2).session.exchange.closed = false := by decide +kernel
  have hfree : (crowded.1.run crowded.2).session.exchange.boxes.owner? 7 = none := by
    decide +kernel
  have howner : (crowded.1.run crowded.2).session.exchange.boxes.owner? 0 =
      some ⟨.query 2 3, 1, 0⟩ := by decide +kernel
  have hpast : Faults 1 (crowded.1.run crowded.2) (.plain .payload 7 []) :=
    faults_run _ _ _ _ hopen _
  have hfirst : Faults 1 (crowded.1.run crowded.2) (.plain .payload 0 []) :=
    faults_run _ _ _ _ hopen _
  refine ⟨hopen, hpast, (hpast.causes _).2 (.unowned (.inl rfl) hfree), ?_⟩
  rw [hfirst.fails]
  rintro (⟨-, hnobody⟩ | ⟨hkind, -⟩ | hkind | hkind)
  · exact hnobody _ ⟨_, howner, rfl⟩
  · cases hkind
  · cases hkind
  · cases hkind

end Usage

end QueryLink
