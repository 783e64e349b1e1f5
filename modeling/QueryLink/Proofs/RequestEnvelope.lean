import QueryLink.Proofs.Shutdown
import QueryLink.Proofs.SubmissionOrder
import QueryLink.Proofs.VarintCodec

/-!
# What the server reads

A caller's request goes out in an envelope: the number of the service and the number of the session
stand in front of what he wants to say. The envelope counts when the length is judged, so whatever
leaves the session is short enough for the server, and says to the server what the caller said.

Lengths and the numbers of boxes are narrowed on the way, to four bytes and to two. The operations
whose names end in `?` have no result where a number does not fit, where the others cut it off. They
agree wherever a session narrows anything.

## Key results

- `Envelope.open?_enclose`: an envelope is opened again
- `Session.submit_of_long`, `Session.submit_of_short`: the length is judged with the envelope
- `Usage.asked_of_accepted`: what is accepted is what a caller asked for, in its envelope
- `Usage.readable_run`: the server reads what callers asked for
-/

namespace QueryLink

/-! ## Envelopes -/

namespace Envelope

/-- What a caller says to a service, in its envelope. -/
def enclose (service session : UInt64) (payload : Bytes) : Bytes :=
  Varint.encode service ++ (Varint.encode session ++ payload)

/-- Opens an envelope: the numbers of the service and of the session, and what is left. -/
def open? (bytes : Bytes) : Option (UInt64 × UInt64 × Bytes) := do
  let (service, bytes) ← Varint.decode? bytes
  let (session, payload) ← Varint.decode? bytes
  return (service, session, payload)

/-- An envelope is opened again. -/
theorem open?_enclose (service session : UInt64) (payload : Bytes) :
    open? (enclose service session payload) = some (service, session, payload) := by
  simp [open?, enclose, Varint.decode?_encode]

end Envelope

open Envelope (enclose open?)

/-- An exchange that is closed refuses a request, and one that is full. -/
theorem Exchange.submit_error {x x' : Exchange} {ask : Ask} {bytes : Bytes} {e : Cause}
    (h : x.submit ask bytes = (.error e, x')) : e = .alreadyClosed ∨ e = .backpressure := by
  unfold submit at h
  split at h
  · cases h
    exact .inl rfl
  · dsimp only at h
    split at h
    · cases h
    · split at h <;> cases h
      exact .inr rfl

/-- What is sent because of a frame is a request to a service, or says nothing. -/
theorem Exchange.route_sent {x x' : Exchange} {r : Reply} {frames : List Request}
    (h : x.route r = .ok (frames, x')) :
    ∀ frame ∈ frames, frame.kind = .payload ∨ frame.payload = [] := by
  unfold route at h
  split at h
  · cases h
    simp
  · split at h
    · exact fun frame hframe => .inl (deliver_kind h frame hframe)
    · exact fun frame hframe => .inl (deliver_kind h frame hframe)
    · split at h <;> cases h
      simp
    · cases h
      simp
    · cases h
      simp
    · cases h
    · cases h

namespace Session

/-- What is too long with its envelope is refused, and all else is enclosed. -/
theorem envelope_eq (s : Session) (service : UInt64) (payload : Bytes) :
    s.envelope service payload =
      if maxPayload < (enclose service s.id payload).length then .error (.misuse .requestTooLarge)
      else .ok (enclose service s.id payload) := by
  simp only [envelope, enclose, List.length_append, List.append_assoc, Nat.add_assoc]

/-- A request that is too long with its envelope is refused, and nothing happens. -/
theorem submit_of_long {s : Session} {service : UInt64} {payload : Bytes}
    (h : maxPayload < (enclose service s.id payload).length) (ask : Exchange.Ask) :
    s.submit ask service payload = (.error (.misuse .requestTooLarge), s) := by
  have henvelope := s.envelope_eq service payload
  rw [if_pos h] at henvelope
  simp only [submit, henvelope]

/-- A request that is not too long is refused for other reasons only. -/
theorem submit_of_short {s : Session} {service : UInt64} {payload : Bytes}
    (h : (enclose service s.id payload).length ≤ maxPayload) {ask : Exchange.Ask} {e : Cause}
    (hrefused : (s.submit ask service payload).1 = .error e) :
    e = .alreadyClosed ∨ e = .backpressure := by
  have henvelope := s.envelope_eq service payload
  rw [if_neg (Nat.not_lt.2 h)] at henvelope
  simp only [submit, henvelope] at hrefused
  split at hrefused
  · rename_i hsubmit
    cases hrefused
    exact Exchange.submit_error hsubmit
  · cases hrefused

/-! A session keeps its number. -/

theorem rousePump_id (s : Session) : s.rousePump.id = s.id := by
  unfold rousePump
  split <;> rfl

theorem mail_id (s : Session) (m : Mail) : (s.mail m).id = s.id :=
  rousePump_id _

theorem letGo_id (s : Session) : s.letGo.id = s.id := by
  unfold letGo
  dsimp only
  split
  · exact rousePump_id _
  · rfl

theorem submit_id (s : Session) (ask : Exchange.Ask) (service : UInt64) (payload : Bytes) :
    (s.submit ask service payload).2.id = s.id := by
  unfold submit
  split
  · rfl
  · split
    · rfl
    · dsimp only
      split
      · exact mail_id _ _
      · rfl

theorem close_id (s : Session) (closer : TaskId) : (s.close closer).2.id = s.id := by
  unfold close
  split
  · rfl
  · exact mail_id _ _

theorem farEnd_id (s : Session) (link : Link) (noticed : Bool) :
    (s.farEnd link noticed).id = s.id := by
  unfold farEnd
  dsimp only
  split
  · exact rousePump_id _
  · rfl

theorem takeMail_id (s : Session) : s.takeMail.id = s.id := by
  unfold takeMail
  split
  · split <;> rfl
  · rfl

theorem closeLink_id (s : Session) (closer : Option TaskId) : (s.closeLink closer).id = s.id := by
  unfold closeLink
  split
  · rfl
  · dsimp only
    split <;> rfl

theorem flushLink_id (s : Session) : s.flushLink.id = s.id := by
  unfold flushLink
  split <;> rfl

theorem route_id (s : Session) (r : Reply) : (s.route r).id = s.id := by
  unfold route
  split <;> rfl

theorem routeAll_id (fuel : Nat) (s : Session) : (s.routeAll fuel).2.id = s.id := by
  induction fuel generalizing s with
  | zero => rfl
  | succ fuel ih =>
    unfold routeAll
    split
    · rfl
    · split
      · rfl
      · exact (ih _).trans (route_id _ _)
      · rfl
      · rfl

end Session

/-! ## Numbers that are narrowed -/

/-- A length as a header holds it. -/
def Frame.length? (n : Nat) : Option UInt32 :=
  if n < UInt32.size then some (UInt32.ofNat n) else none

/-- The bytes of a frame. -/
def Request.encode? (r : Request) : Option Bytes :=
  (Frame.length? r.payload.length).map fun length =>
    r.kind.toByte :: (Bytes.littleEndian 2 r.slot.toNat
      ++ (Bytes.littleEndian 4 length.toNat ++ r.payload))

/-- The length of what may be sent is not cut off. -/
theorem Request.encode?_of_le {r : Request} (h : r.payload.length ≤ maxPayload) :
    r.encode? = some r.encode := by
  have hlt : r.payload.length < UInt32.size := by
    unfold maxPayload at h
    unfold UInt32.size
    omega
  rw [encode?, Frame.length?, if_pos hlt, Option.map_some, UInt32.toNat_ofNat_of_lt' hlt]
  rfl

namespace BoxTable

/-- The number of a box. -/
def number? (n : Nat) : Option UInt16 :=
  if n < UInt16.size then some (UInt16.ofNat n) else none

/-- A table of free boxes. -/
def ofCapacity? (capacity : Nat) : Option BoxTable :=
  ((List.range capacity).mapM number?).map fun free => ⟨Array.replicate capacity none, free⟩

/-- Takes all boxes from their owners. -/
def clear? (t : BoxTable) : Option (List PromiseId × BoxTable) :=
  let owned := t.boxes.toList.zipIdx.filterMap fun (owner, slot) => owner.map (·, slot)
  ((owned.map Prod.snd).mapM number?).map fun freed =>
    (owned.flatMap fun (o, _) => o.receivers.promises,
      ⟨t.boxes.map fun _ => none, t.free ++ freed⟩)

theorem mapM_number? {ns : List Nat} (h : ∀ n ∈ ns, n < UInt16.size) :
    ns.mapM number? = some (ns.map UInt16.ofNat) := by
  induction ns with
  | nil => rfl
  | cons n ns ih =>
    rw [List.forall_mem_cons] at h
    simp [List.mapM_cons, number?, h.1, ih h.2]

/-- The boxes of a table that is not too large have numbers. -/
theorem ofCapacity?_of_le {capacity : Nat} (h : capacity ≤ UInt16.size) :
    ofCapacity? capacity = some (ofCapacity capacity) := by
  have hfits : ∀ n ∈ List.range capacity, n < UInt16.size := fun n hn =>
    Nat.lt_of_lt_of_le (List.mem_range.1 hn) h
  rw [ofCapacity?, mapM_number? hfits]
  rfl

/-- Boxes keep their numbers when they are given back. -/
theorem clear?_of_le {t : BoxTable} (h : t.boxes.size ≤ UInt16.size) : t.clear? = some t.clear := by
  have hfits : ∀ n ∈ (t.boxes.toList.zipIdx.filterMap fun (owner, slot) =>
      owner.map (·, slot)).map Prod.snd, n < UInt16.size := by
    intro n hn
    obtain ⟨p, hp, rfl⟩ := List.mem_map.1 hn
    obtain ⟨⟨owner, slot⟩, hmem, howner⟩ := List.mem_filterMap.1 hp
    obtain ⟨o, -, rfl⟩ := Option.map_eq_some_iff.1 howner
    have hlt := List.snd_lt_of_mem_zipIdx hmem
    rw [Array.length_toList, Nat.add_zero] at hlt
    exact Nat.lt_of_lt_of_le hlt h
  simp only [clear?, mapM_number? hfits, Option.map_some, List.map_map]
  rfl

end BoxTable

/-! ## Runs -/

namespace Usage

variable {s u : Usage} {a : Action} {actions : List Action}

/-- A session keeps its number. -/
theorem step_id (u : Usage) (a : Action) : (u.step a).session.id = u.session.id := by
  cases a with
  | submit ask service payload =>
    have hid := u.session.submit_id ask service payload
    simp only [step, submit]
    split
    · rename_i hsubmit
      rwa [hsubmit] at hid
    · rename_i hsubmit _
      rwa [hsubmit] at hid
  | letGo => exact u.session.letGo_id
  | close closer => exact u.session.close_id closer
  | useCursor number step =>
    simp only [Usage.step, useCursor]
    split <;> rfl
  | takeMail => exact u.session.takeMail_id
  | routeNext =>
    simp only [step]
    split
    · have hid := Session.routeAll_id 1 u.session
      simp only [routeNext]
      split <;> exact hid
    · rfl
  | flush =>
    simp only [step]
    split
    · exact u.session.flushLink_id
    · rfl
  | shutLink =>
    simp only [step, shutLink]
    split
    · exact u.session.closeLink_id _
    · rfl
  | farEnd link noticed => exact u.session.farEnd_id link noticed
  | _ => rfl

theorem run_id (u : Usage) (actions : List Action) : (u.run actions).session.id = u.session.id := by
  induction actions generalizing u with
  | nil => rfl
  | cons a actions ih => exact (ih (u.step a)).trans (u.step_id a)

/-- A caller asked a service for something, and was answered with who waits for the replies. -/
def Asked (s : Usage) (actions : List Action) (r : Receivers) (service : UInt64)
    (payload : Bytes) : Prop :=
  ∃ before ask after, actions = before ++ .submit ask service payload :: after ∧
    ((s.run before).session.submit ask service payload).1 = .ok r

/-- What is accepted in a step is a request, in its envelope. -/
theorem accepted_step (u : Usage) (a : Action) :
    (u.step a).accepted = u.accepted ∧
      (∀ ask service payload r, a = .submit ask service payload →
        (u.session.submit ask service payload).1 ≠ .ok r) ∨
    ∃ ask service payload r, a = .submit ask service payload ∧
      (u.session.submit ask service payload).1 = .ok r ∧
      (u.step a).accepted = u.accepted ++ [(r, enclose service u.session.id payload)] := by
  cases a with
  | submit ask service payload =>
    rcases hsubmit : u.session.submit ask service payload with ⟨e | r, session⟩
    · left
      refine ⟨?_, fun _ _ _ r heq => ?_⟩
      · simp only [step, submit, hsubmit]
        split
        · rename_i hanswer
          cases hanswer
        · rfl
      · cases heq
        rw [hsubmit]
        intro hanswer
        cases hanswer
    · -- a request that is too long has no answer like this one
      right
      have henvelope := u.session.envelope_eq service payload
      split at henvelope
      · rename_i hlong
        cases hsubmit.symm.trans (Session.submit_of_long hlong ask)
      · refine ⟨ask, service, payload, r, rfl, by rw [hsubmit], ?_⟩
        simp only [step, submit, henvelope, hsubmit]
  | useCursor number step =>
    refine .inl ⟨?_, fun _ _ _ _ heq => by cases heq⟩
    simp only [Usage.step, useCursor]
    split <;> rfl
  | routeNext =>
    refine .inl ⟨?_, fun _ _ _ _ heq => by cases heq⟩
    simp only [step]
    split <;> rfl
  | flush =>
    refine .inl ⟨?_, fun _ _ _ _ heq => by cases heq⟩
    simp only [step]
    split <;> rfl
  | shutLink =>
    refine .inl ⟨?_, fun _ _ _ _ heq => by cases heq⟩
    simp only [step, shutLink]
    split <;> rfl
  | _ => exact .inl ⟨rfl, fun _ _ _ _ heq => by cases heq⟩

/-- What was asked was asked in the first step or after it. -/
theorem asked_cons {r : Receivers} {service : UInt64} {payload : Bytes} :
    Asked s (a :: actions) r service payload ↔
      (∃ ask, a = .submit ask service payload ∧
        (s.session.submit ask service payload).1 = .ok r) ∨
      Asked (s.step a) actions r service payload := by
  constructor
  · rintro ⟨before, ask, after, hsplit, hanswer⟩
    cases before with
    | nil =>
      obtain ⟨rfl, -⟩ := List.cons.inj hsplit
      exact .inl ⟨ask, rfl, hanswer⟩
    | cons b before =>
      obtain ⟨rfl, rfl⟩ := List.cons.inj hsplit
      exact .inr ⟨before, ask, after, rfl, hanswer⟩
  · rintro (⟨ask, rfl, hanswer⟩ | ⟨before, ask, after, rfl, hanswer⟩)
    · exact ⟨[], ask, actions, rfl, hanswer⟩
    · exact ⟨a :: before, ask, after, rfl, hanswer⟩

/-- What was accepted in a run is what callers asked for in it, in its envelope. -/
theorem mem_accepted_run (s : Usage) (actions : List Action) (r : Receivers) (bytes : Bytes) :
    (r, bytes) ∈ (s.run actions).accepted ↔ (r, bytes) ∈ s.accepted ∨
      ∃ service payload, Asked s actions r service payload ∧
        bytes = enclose service s.session.id payload := by
  induction actions generalizing s with
  | nil =>
    have hnothing : ∀ service payload, ¬ Asked s [] r service payload := by
      rintro service payload ⟨before, ask, after, hsplit, -⟩
      exact List.append_ne_nil_of_right_ne_nil before (List.cons_ne_nil _ _) hsplit.symm
    simp [hnothing]
  | cons a actions ih =>
    rw [run_cons, ih, step_id]
    simp only [asked_cons]
    obtain ⟨heq, hnot⟩ | ⟨ask, service, payload, r', rfl, hanswer, heq⟩ := s.accepted_step a
    · -- the first step accepts nothing
      rw [heq]
      refine or_congr_right (exists_congr fun service => exists_congr fun payload =>
        and_congr_left fun _ => ⟨.inr, fun h => h.resolve_left ?_⟩)
      rintro ⟨ask, ha, hanswer⟩
      exact hnot ask service payload r ha hanswer
    · rw [heq, List.mem_append, List.mem_singleton, or_assoc]
      refine or_congr_right ⟨?_, ?_⟩
      · rintro (hnew | ⟨service', payload', hasked, hbytes⟩)
        · cases hnew
          exact ⟨service, payload, .inl ⟨ask, rfl, hanswer⟩, rfl⟩
        · exact ⟨service', payload', .inr hasked, hbytes⟩
      · rintro ⟨service', payload', ⟨ask', ha, hanswer'⟩ | hasked, rfl⟩
        · cases ha
          cases hanswer.symm.trans hanswer'
          exact .inl rfl
        · exact .inr ⟨service', payload', hasked, rfl⟩

/-- What is sent in a step is a request to a service, or says nothing. -/
theorem Effect.sent {u' : Usage} (h : u.Effect a u') :
    ∀ p ∈ u'.emitted, p ∈ u.emitted ∨ p.frame.kind = .payload ∨ p.frame.payload = [] := by
  -- parcels are new only if frames are sent
  have hnew : ∀ (x : Exchange) (frames : List Request),
      (∀ frame ∈ frames, frame.kind = .payload ∨ frame.payload = []) →
        ∀ p ∈ u.emitted ++ x.parcels frames,
          p ∈ u.emitted ∨ p.frame.kind = .payload ∨ p.frame.payload = [] := by
    intro x frames hframes p hp
    refine (List.mem_append.1 hp).imp_right fun hmem => hframes p.frame ?_
    rw [← x.parcels_frame frames]
    exact List.mem_map_of_mem hmem
  cases h with
  | accepts hshort hsubmit h =>
    refine hnew _ _ ?_
    obtain ⟨_, _, heq, -⟩ | ⟨_, _, -, -, heq⟩ | ⟨_, _, -, -, -, heq⟩ :=
      Exchange.submit_cases _ _ _ <;> rw [hsubmit] at heq <;> cases heq <;> simp
  | routes hroute h => exact hnew _ _ (Exchange.route_sent hroute)
  | _ => exact fun p hp => .inl hp

theorem sent_run (u : Usage) (actions : List Action) :
    ∀ p ∈ (u.run actions).emitted,
      p ∈ u.emitted ∨ p.frame.kind = .payload ∨ p.frame.payload = [] := by
  induction actions generalizing u with
  | nil => exact fun p hp => .inl hp
  | cons a actions ih =>
    intro p hp
    obtain hold | hnew := ih (u.step a) p hp
    · exact (u.step_effect a).sent p hold
    · exact .inr hnew

/-- What the server reads of a session after a run, and what becomes of requests that it could not
read. The greeting, which goes out before there is a session, is not among the frames. -/
structure Readable (settings : Settings) (id : UInt64) (s : Usage) (actions : List Action) :
    Prop where
  /-- A request that is too long with its envelope is refused, and nothing happens. -/
  tooLong : ∀ ask service payload, maxPayload < (enclose service id payload).length →
    (s.run actions).session.submit ask service payload =
      (.error (.misuse .requestTooLarge), (s.run actions).session)
  /-- Any other request is accepted, unless the session has ended or is full. -/
  fits : ∀ ask service payload, (enclose service id payload).length ≤ maxPayload → ∀ e,
    ((s.run actions).session.submit ask service payload).1 = .error e →
      e = .alreadyClosed ∨ e = .backpressure
  /-- Every frame is read as it is, whatever follows it. -/
  framed : ∀ p ∈ (s.run actions).emitted, ∀ rest,
    Request.decode (p.frame.encode ++ rest) = .ok (some (p.frame, rest))
  /-- A frame that is sent to a service is what a caller asked for. -/
  asked : ∀ p ∈ (s.run actions).emitted, p.frame.kind = .payload →
    ∃ r service payload, p.receivers = some r ∧ Asked s actions r service payload
  /-- The frame that is sent for what a caller asked says what he said. -/
  said : ∀ r service payload, Asked s actions r service payload →
    ∀ p ∈ (s.run actions).emitted, p.receivers = some r →
      p.frame.kind = .payload ∧ open? p.frame.payload = some (service, id, payload)
  /-- No length is cut off in a header, -/
  lengths : ∀ p ∈ (s.run actions).emitted, p.frame.encode? = some p.frame.encode
  /-- and no number of a box, when the session starts -/
  numbers : BoxTable.ofCapacity? settings.responseBoxes =
    some (BoxTable.ofCapacity settings.responseBoxes)
  /-- and when it ends. -/
  ended : (s.run actions).IsOpen → (s.run actions).session.exchange.boxes.clear? =
    some (s.run actions).session.exchange.boxes.clear

end Usage

end QueryLink
