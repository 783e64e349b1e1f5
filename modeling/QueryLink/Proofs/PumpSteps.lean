import QueryLink.Proofs.Shutdown

/-!
# What a step does to the pump

Most steps leave the pump alone. The others mail it something, are a part of its turn, or come from
the far end of its link: `Pumps` lists the ways, with the requests that are mailed to the pump and
the frames that it writes on its own. These are all the frames there are.

## Key results

- `step_pumps`: everything a step can do to the pump
- `emitted_step`: frames are mailed to the pump, or it writes them on its own
- `sends_of_closed`: there are none when the session has ended
-/

namespace QueryLink

namespace Session

/-- The requests that are mailed to the pump in a step. -/
def posted (s : Session) : Usage.Action → List Request
  | .submit ask service payload =>
    ((s.submit ask service payload).2.mailbox.drop s.mailbox.length).filterMap Mail.request?
  | _ => []

/-- The frames that the pump writes on its own in a step: waiting requests that get a box, and
confirmations that a result set ended. -/
def written (s : Session) : Usage.Action → List Request
  | .routeNext => if s.phase = .running then (s.sentByRouting 1).map Parcel.frame else []
  | _ => []

/-- What the pump has and what it did are the same. -/
structure SamePump (s s' : Session) : Prop where
  mailbox : s'.mailbox = s.mailbox
  phase : s'.phase = s.phase
  link : s'.link = s.link
  closeResults : s'.closeResults = s.closeResults

theorem SamePump.refl (s : Session) : s.SamePump s := ⟨rfl, rfl, rfl, rfl⟩

theorem samePump_rousePump (s : Session) : s.SamePump s.rousePump := by
  obtain ⟨roused, heq⟩ := s.rousePump_frame
  rw [heq]
  exact ⟨rfl, rfl, rfl, rfl⟩

/-- How far the pump is once it has read its mail: somebody asked it to close, or not. -/
def phaseAfter (s : Session) : Option TaskId → Phase
  | some closer => .closing (some closer)
  | none => if s.holders = 0 then .closing none else .running

/-- Everything a step can do to the link alone, with the frames that the pump writes on its own. -/
inductive Works (s : Session) : Usage.Action → List Request → Link → Prop
  | rests {a} : Works s a [] s.link
  /-- The pump reads from the link, and answers. -/
  | hears {frames} (hrunning : s.phase = .running) :
      Works s .routeNext frames (s.link.receive.2.sendAll frames)
  | flushes (hrunning : s.phase = .running) : Works s .flush [] s.link.flush.2
  /-- Shutting the link down has to wait. -/
  | waits {closer} (hclosing : s.phase = .closing closer) (hwaits : s.link.shutdown.1 = none) :
      Works s .shutLink [] s.link.shutdown.2
  | far {link noticed} : Works s (.farEnd link noticed) [] link

/-- Everything a step can do to the pump, with the requests that are mailed to it and the frames
that it writes on its own. -/
inductive Pumps (s : Session) :
    Usage.Action → List Request → List Request → Session → Prop
  | works {a frames link s'} (hworks : s.Works a frames link)
      (hsame : SamePump { s with link } s') : Pumps s a [] frames s'
  /-- A request that has a box is mailed. -/
  | posts {ask service payload r s'} (hopen : s.exchange.closed = false)
      (hsame : SamePump { s with mailbox := s.mailbox ++ [.request r] } s') :
      Pumps s (.submit ask service payload) [r] [] s'
  /-- A caller ends the session, and wishes to know how closing goes. -/
  | asks {closer s'} (hopen : s.exchange.closed = false) (hclosed : s'.exchange.closed = true)
      (hsame : SamePump { s with mailbox := s.mailbox ++ [.close closer] } s') :
      Pumps s (.close closer) [] [] s'
  | reads {closer mailbox link s'} (hrunning : s.phase = .running)
      (hread : readMail s.mailbox s.link = (closer, mailbox, link))
      (hsame : SamePump { s with mailbox, link, phase := s.phaseAfter closer } s') :
      Pumps s .takeMail [] [] s'
  /-- The link can not be read or written any more. -/
  | breaks {a link s'} (hrunning : s.phase = .running) (hclosed : s'.exchange.closed = true)
      (hsame : SamePump { s with mailbox := [], phase := .finished, link } s') : Pumps s a [] [] s'
  /-- The link is shut down, or can not be, and who asked for it is told. -/
  | shuts {closer result s'} (hclosing : s.phase = .closing closer)
      (hresult : s.link.shutdown.1 = some result) (hclosed : s'.exchange.closed = true)
      (hsame : SamePump { s with
        mailbox := []
        phase := .finished
        link := s.link.shutdown.2.release
        closeResults := (closer.map (·, result)).toList ++ s.closeResults } s') :
      Pumps s .shutLink [] [] s'

/-- The pump is left alone. -/
theorem Pumps.rests {s s' : Session} {a : Usage.Action} (hsame : s.SamePump s') :
    s.Pumps a [] [] s' :=
  .works .rests hsame

/-- A request is refused, or it is accepted; then it is mailed if it has a box. -/
theorem submit_cases (s : Session) (ask : Exchange.Ask) (service : UInt64) (payload : Bytes) :
    (∃ answer exchange, s.submit ask service payload = (answer, { s with exchange })) ∨
    ∃ r frame exchange, s.exchange.closed = false ∧
      s.submit ask service payload = (.ok r, { s with exchange }.mail (.request frame)) := by
  unfold submit
  rcases s.envelope service payload with e | bytes
  · exact .inl ⟨_, s.exchange, rfl⟩
  · dsimp only
    obtain ⟨e, waitlist, heq, -⟩ | ⟨slot, boxes, hopen, -, heq⟩ |
      ⟨waitlist, line, -, -, -, heq⟩ := s.exchange.submit_cases ask bytes
    · rw [heq]
      exact .inl ⟨_, _, rfl⟩
    · rw [heq]
      exact .inr ⟨_, _, _, hopen, rfl⟩
    · rw [heq]
      exact .inl ⟨_, _, rfl⟩

/-- A request that has a box is mailed. -/
private theorem submit_pumps (s : Session) (ask : Exchange.Ask) (service : UInt64)
    (payload : Bytes) : s.Pumps (.submit ask service payload)
      (s.posted (.submit ask service payload)) [] (s.submit ask service payload).2 := by
  obtain ⟨answer, exchange, heq⟩ | ⟨r, frame, exchange, hopen, heq⟩ :=
    s.submit_cases ask service payload
  · have hnothing : s.posted (.submit ask service payload) = [] := by
      rw [posted, heq]
      simp
    rw [hnothing, heq]
    exact .rests ⟨rfl, rfl, rfl, rfl⟩
  · have hposted : s.posted (.submit ask service payload) = [frame] := by
      rw [posted, heq]
      simp [mail_mailbox, Mail.request?]
    rw [hposted, heq]
    have hsame := samePump_rousePump
      { s with exchange, mailbox := s.mailbox ++ [.request frame] }
    exact .posts hopen ⟨hsame.mailbox, hsame.phase, hsame.link, hsame.closeResults⟩

/-- The pump reads its mail, if it is running. -/
private theorem takeMail_pumps (s : Session) : s.Pumps .takeMail [] [] s.takeMail := by
  unfold takeMail
  split
  · rename_i hrunning
    rcases hread : readMail s.mailbox s.link with ⟨_ | closer, mailbox, link⟩
    · exact .reads hrunning hread ⟨rfl, rfl, rfl, rfl⟩
    · exact .reads hrunning hread ⟨rfl, rfl, rfl, rfl⟩
  · exact .rests (.refl s)

/-- The pump tries to shut the link down. -/
private theorem closeLink_pumps {s : Session} {closer : Option TaskId}
    (hclosing : s.phase = .closing closer) : s.Pumps .shutLink [] [] (s.closeLink closer) := by
  unfold closeLink
  rcases hshut : s.link.shutdown with ⟨_ | result, link⟩
  · refine .works (.waits hclosing (by rw [hshut])) ⟨rfl, rfl, ?_, rfl⟩
    rw [hshut]
  · have hended := (s.exchange.ended_shutdown .closed).closed
    dsimp only
    -- somebody asked for it, or nobody did
    split
    · exact .shuts hclosing (by rw [hshut]) hended ⟨rfl, rfl, by rw [hshut]; rfl, rfl⟩
    · exact .shuts hclosing (by rw [hshut]) hended ⟨rfl, rfl, by rw [hshut]; rfl, rfl⟩

/-- The pump hands the outbox to the far end, or it breaks. -/
private theorem flushLink_pumps {s : Session} (hrunning : s.phase = .running) :
    s.Pumps .flush [] [] s.flushLink := by
  unfold flushLink
  rcases hflush : s.link.flush with ⟨_ | e | _, link⟩
  · exact .works (.flushes hrunning) ⟨rfl, rfl, by rw [hflush], rfl⟩
  · exact .breaks hrunning (s.exchange.ended_shutdown .crashed).closed ⟨rfl, rfl, rfl, rfl⟩
  · exact .works (.flushes hrunning) ⟨rfl, rfl, by rw [hflush], rfl⟩

end Session

namespace Usage

variable {u : Usage} {a : Action}

/-- Routing a reply leaves the pump alone, but for what the link is given. -/
private theorem samePump_route (s : Session) (r : Reply) :
    Session.SamePump { s with link := s.link.sendAll ((s.sentFor r).map Parcel.frame) }
      (s.route r) where
  mailbox := by unfold Session.route; split <;> rfl
  phase := s.route_phase r
  link := s.link_route r
  closeResults := by unfold Session.route; split <;> rfl

/-- The pump routes the next reply and answers, or it breaks. -/
private theorem routeNext_pumps (hrunning : u.session.phase = .running) :
    u.session.Pumps .routeNext [] ((u.session.sentByRouting 1).map Parcel.frame)
      u.routeNext.session := by
  unfold routeNext Session.routeAll Session.sentByRouting
  split
  · -- the pump stops reading
    simp only [if_true, List.map_nil]
    exact .rests ⟨rfl, rfl, rfl, rfl⟩
  · rcases hreceive : u.session.link.receive with ⟨_ | e | _ | reply, link⟩
    · simp only [if_true, List.map_nil]
      exact .works (.hears hrunning) ⟨rfl, rfl, by rw [hreceive]; rfl, rfl⟩
    · simp only [Bool.false_eq_true, if_false, List.map_nil]
      exact .breaks hrunning (u.session.exchange.ended_shutdown .crashed).closed
        ⟨rfl, rfl, rfl, rfl⟩
    · simp only [Bool.false_eq_true, if_false, List.map_nil]
      exact .breaks hrunning (u.session.exchange.ended_shutdown .crashed).closed
        ⟨rfl, rfl, rfl, rfl⟩
    · simp only [Session.routeAll, Session.sentByRouting, List.append_nil, if_true]
      have hroute := samePump_route { u.session with link } reply
      rw [show link = u.session.link.receive.2 by rw [hreceive]] at hroute ⊢
      exact .works (.hears hrunning) hroute

/-- Everything a step can do to the pump. -/
theorem step_pumps (u : Usage) (a : Action) :
    u.session.Pumps a (u.session.posted a) (u.session.written a) (u.step a).session := by
  cases a with
  | submit ask service payload =>
    have hsession : (u.submit ask service payload).session =
        (u.session.submit ask service payload).2 := by
      unfold submit
      split
      · rename_i hanswer
        rw [hanswer]
      · rename_i hanswer _
        rw [hanswer]
    show u.session.Pumps _ _ _ (u.submit ask service payload).session
    rw [hsession]
    exact u.session.submit_pumps ask service payload
  | letGo =>
    simp only [step, Session.letGo]
    split
    · have hsame := Session.samePump_rousePump
        { u.session with holders := u.session.holders - 1 }
      exact .rests ⟨hsame.mailbox, hsame.phase, hsame.link, hsame.closeResults⟩
    · exact .rests ⟨rfl, rfl, rfl, rfl⟩
  | close closer =>
    simp only [step, Session.close]
    split
    · exact .rests (.refl _)
    · rename_i hopen
      have hsame := Session.samePump_rousePump { u.session with
        exchange := u.session.exchange.shutdown .closed
        mailbox := u.session.mailbox ++ [.close closer] }
      have hclosed := (Session.alike_mail { u.session with
        exchange := u.session.exchange.shutdown .closed } (.close closer)).closed
      exact .asks (Bool.not_eq_true _ ▸ hopen)
        (hclosed.trans (u.session.exchange.ended_shutdown .closed).closed)
        ⟨hsame.mailbox, hsame.phase, hsame.link, hsame.closeResults⟩
  | useCursor number step =>
    simp only [Usage.step, useCursor]
    split
    · exact .rests (.refl _)
    · exact .rests ⟨rfl, rfl, rfl, rfl⟩
  | takeMail => exact u.session.takeMail_pumps
  | routeNext =>
    simp only [step, Session.written]
    split
    · rename_i hrunning
      exact routeNext_pumps hrunning
    · exact .rests (.refl _)
  | flush =>
    simp only [step]
    split
    · rename_i hrunning
      exact Session.flushLink_pumps hrunning
    · exact .rests (.refl _)
  | shutLink =>
    simp only [step, shutLink]
    split
    · rename_i closer hclosing
      exact Session.closeLink_pumps hclosing
    · exact .rests (.refl _)
  | farEnd link noticed =>
    simp only [step, Session.farEnd]
    split
    · have hsame := Session.samePump_rousePump { u.session with link, linkWatched := false }
      exact .works .far ⟨hsame.mailbox, hsame.phase, hsame.link, hsame.closeResults⟩
    · exact .works .far ⟨rfl, rfl, rfl, rfl⟩
  | _ => exact .rests ⟨rfl, rfl, rfl, rfl⟩

/-- The frames that a step hands over are mailed to the pump, or the pump writes them on its own. -/
theorem emitted_step (u : Usage) (a : Action) :
    (u.step a).emitted.map Parcel.frame =
      u.emitted.map Parcel.frame ++ (u.session.posted a ++ u.session.written a) := by
  cases a with
  | submit ask service payload =>
    rcases henvelope : u.session.envelope service payload with e | bytes
    · have hrefused : u.session.submit ask service payload = (.error e, u.session) := by
        simp only [Session.submit, henvelope]
      simp [step, submit, henvelope, hrefused, Session.posted, Session.written]
    · rcases hsubmit : u.session.submit ask service payload with ⟨e | r, session⟩
      · -- a request that is refused is not mailed
        obtain ⟨_, _, heq⟩ | ⟨_, _, _, -, heq⟩ :=
          u.session.submit_cases ask service payload <;> rw [hsubmit] at heq <;> cases heq
        simp [step, submit, henvelope, hsubmit, Session.posted, Session.written]
      · simp [step, submit, henvelope, hsubmit, Session.posted, Session.written,
          Exchange.parcels_frame]
  | useCursor number step =>
    simp only [Usage.step, useCursor, Session.posted, Session.written, List.append_nil]
    split <;> rfl
  | routeNext =>
    simp only [step, Session.posted, Session.written, List.nil_append]
    split
    · simp only [routeNext, List.map_append]
    · simp only [List.append_nil]
  | flush =>
    simp only [step, Session.posted, Session.written, List.append_nil]
    split <;> rfl
  | shutLink =>
    simp only [step, shutLink, Session.posted, Session.written, List.append_nil]
    split <;> rfl
  | _ => exact (List.append_nil _).symm

/-- When the session has ended, nothing is mailed to the pump, and it writes nothing on its own. -/
theorem sends_of_closed (hclosed : u.session.exchange.closed = true) (a : Action) :
    u.session.posted a = [] ∧ u.session.written a = [] := by
  have hnotes := u.emitted_step a
  rw [((u.step_effect a).late hclosed).emitted] at hnotes
  exact List.append_eq_nil_iff.1 (List.append_right_eq_self.1 hnotes.symm)

end Usage

end QueryLink
