import QueryLink.Proofs.PumpSteps

/-!
# How a session ends

An open session ends in four ways: a caller closes it; the pump, which may read, finds that the
server ended the link or that the link can not be read; the outbox can not be written; or the link
is shut down when nobody holds the session any more. `Ends` says when a step is one of these, and
no other step ends a session.

A pump that is done has ended the session before. So what is mailed always finds a pump that is
not done, and mail can not come too late.

## Key results

- `isOpen_step_iff`: the steps that end a session are exactly these
- `resolves_of_ends`: each of them settles everything for good, for the reason that it has
- `ends_of_unheld`: a session that nobody holds ends when its link is shut down
- `closed_of_finished`: a pump that is done has ended the session
- `mail_in_time`: whatever is mailed finds a pump that is not done
-/

namespace QueryLink

/-- Nothing comes over the link any more: the server ended it, or it can not be read. -/
def Link.IsOver (l : Link) : Prop :=
  l.receive.1 = some (.ok none) ∨ ∃ cause, l.receive.1 = some (.error cause)

namespace Session

variable {s : Session}

/-- Flushing ends an open session if the link fails. -/
theorem closed_flushLink_iff (hopen : s.exchange.closed = false) :
    s.flushLink.exchange.closed = true ↔ ∃ e, s.link.flush.1 = some (.error e) := by
  unfold flushLink
  rcases s.link.flush with ⟨_ | e | _, link⟩
  · simp [hopen]
  · simp [finish, (s.exchange.ended_shutdown .crashed).closed]
  · simp [hopen]

/-- Shutting the link down ends an open session once it does not have to wait, even if it fails. -/
theorem closed_closeLink_iff (hopen : s.exchange.closed = false) (closer : Option TaskId) :
    (s.closeLink closer).exchange.closed = true ↔ ∃ result, s.link.shutdown.1 = some result := by
  unfold closeLink
  rcases s.link.shutdown with ⟨_ | result, link⟩
  · simp [hopen]
  · have hended := (s.exchange.ended_shutdown .closed).closed
    cases closer with
    | none => simp [finish, hended]
    | some task => simp [finish, Exchange.rouse, hended]

/-- Routing a reply ends no session. -/
theorem closed_route (s : Session) (r : Reply) :
    (s.route r).exchange.closed = s.exchange.closed := by
  unfold route
  split
  · rfl
  · rename_i hroute
    exact (Exchange.route_frame hroute).1

/-- A caller that closes a session ends it. -/
theorem closed_close (s : Session) (closer : TaskId) :
    (s.close closer).2.exchange.closed = true := by
  unfold close
  split
  · assumption
  · have halike := alike_mail { s with exchange := s.exchange.shutdown .closed } (.close closer)
    exact halike.closed.trans (s.exchange.ended_shutdown .closed).closed

/-- Reading mail does not add any. -/
theorem length_readMail_le (mails : List Mail) (link : Link) :
    (readMail mails link).2.1.length ≤ mails.length := by
  induction mails generalizing link with
  | nil => exact Nat.le_refl _
  | cons m mails ih =>
    cases m with
    | request r => exact Nat.le_succ_of_le (ih (link.send r))
    | close closer => exact Nat.le_succ _

/-- A pump that has read its mail is not done. -/
theorem phaseAfter_ne (s : Session) (closer : Option TaskId) : s.phaseAfter closer ≠ .finished := by
  unfold phaseAfter
  split
  · exact Phase.noConfusion
  · split <;> exact Phase.noConfusion

variable {s' : Session} {a : Usage.Action} {posted written : List Request}

/-- A pump that is done after a step was so before, or has ended the session. -/
theorem Pumps.of_finished (h : s.Pumps a posted written s') (hfinished : s'.phase = .finished) :
    s.phase = .finished ∨ s'.exchange.closed = true := by
  cases h with
  | works hworks hsame => exact .inl (hsame.phase.symm.trans hfinished)
  | posts hopen hsame => exact .inl (hsame.phase.symm.trans hfinished)
  | asks hopen hclosed hsame => exact .inr hclosed
  | reads hrunning hread hsame =>
    exact absurd (hsame.phase.symm.trans hfinished) (s.phaseAfter_ne _)
  | breaks hrunning hclosed hsame => exact .inr hclosed
  | shuts hclosing hresult hclosed hsame => exact .inr hclosed

/-- Something is mailed only while the session is open. -/
theorem Pumps.open_of_mailed (h : s.Pumps a posted written s') {m : Mail}
    (hmailed : s'.mailbox = s.mailbox ++ [m]) : s.exchange.closed = false := by
  have hmore : s.mailbox.length < s'.mailbox.length := by
    rw [hmailed, List.length_append]
    exact Nat.lt_succ_self _
  cases h with
  | works hworks hsame => exact absurd hmore (hsame.mailbox ▸ Nat.lt_irrefl _)
  | posts hopen hsame => exact hopen
  | asks hopen hclosed hsame => exact hopen
  | reads hrunning hread hsame =>
    have hless := length_readMail_le s.mailbox s.link
    rw [hread] at hless
    exact absurd hmore (hsame.mailbox ▸ Nat.not_lt_of_le hless)
  | breaks hrunning hclosed hsame => exact absurd hmore (hsame.mailbox ▸ Nat.not_lt_zero _)
  | shuts hclosing hresult hclosed hsame =>
    exact absurd hmore (hsame.mailbox ▸ Nat.not_lt_zero _)

end Session

namespace Usage

variable {u : Usage} {a : Action}

/-! ## The steps that end a session -/

/-- What has to hold for a step to end an open session. -/
def Ends (u : Usage) : Action → Prop
  | .close _ => True
  | .routeNext => u.session.phase = .running ∧
      u.session.exchange.catalog.isSaturated = false ∧ u.session.link.IsOver
  | .flush => u.session.phase = .running ∧ ∃ e, u.session.link.flush.1 = some (.error e)
  | .shutLink => (∃ closer, u.session.phase = .closing closer) ∧
      ∃ result, u.session.link.shutdown.1 = some result
  | _ => False

/-- The pump that routes the next reply ends the session if it may read and nothing comes. -/
private theorem closed_routeNext_iff (hopen : u.IsOpen) :
    u.routeNext.session.exchange.closed = true ↔
      u.session.exchange.catalog.isSaturated = false ∧ u.session.link.IsOver := by
  have hstill : u.session.exchange.closed = false := hopen
  have hended := (u.session.exchange.ended_shutdown .crashed).closed
  unfold routeNext Session.routeAll Link.IsOver
  split
  · -- the pump stops reading
    rename_i hfull
    simp [hfull, hstill]
  · rename_i hroom
    rw [Bool.not_eq_true] at hroom
    rcases u.session.link.receive with ⟨_ | e | _ | reply, link⟩
    · simp [hstill]
    · simp [hroom, Session.finish, hended]
    · simp [hroom, Session.finish, hended]
    · simp [Session.routeAll, Session.closed_route, hstill]

/-- A step ends an open session if and only if it is one of those that do. -/
theorem isOpen_step_iff (hopen : u.IsOpen) (a : Action) : (u.step a).IsOpen ↔ ¬ u.Ends a := by
  have hstill : u.session.exchange.closed = false := hopen
  suffices (u.step a).session.exchange.closed = true ↔ u.Ends a by
    rw [← this, IsOpen, Bool.not_eq_true]
  -- most steps have no reason to end a session, and leave it as it was
  have hrests : a.outage? = none → ¬ u.Ends a →
      ((u.step a).session.exchange.closed = true ↔ u.Ends a) := by
    intro ha hnot
    obtain hsame | ⟨_, _, houtage, -⟩ := (u.step_effect a).closed_cases
    · rw [hsame, hstill]
      exact ⟨Bool.noConfusion, fun hends => absurd hends hnot⟩
    · cases ha.symm.trans houtage
  cases a with
  | close closer => exact ⟨fun _ => trivial, fun _ => u.session.closed_close closer⟩
  | routeNext =>
    by_cases hrunning : u.session.phase = .running
    · simp only [step, if_pos hrunning, Ends, hrunning, true_and]
      exact closed_routeNext_iff hopen
    · simp [step, Ends, hrunning, hstill]
  | flush =>
    by_cases hrunning : u.session.phase = .running
    · simp only [step, if_pos hrunning, Ends, hrunning, true_and]
      exact Session.closed_flushLink_iff hstill
    · simp [step, Ends, hrunning, hstill]
  | shutLink =>
    cases hphase : u.session.phase with
    | closing closer =>
      simp only [step, shutLink, hphase, Ends, Phase.closing.injEq, exists_eq', true_and]
      exact Session.closed_closeLink_iff hstill closer
    | _ => simp [step, shutLink, hphase, Ends, hstill]
  | _ => exact hrests rfl id

/-- A step that ends a session has a reason, settles everything, and nothing changes after it. -/
theorem resolves_of_ends (settings : Settings) (link : Link) (id : UInt64)
    {actions : List Action} (hopen : ((start settings link id).run actions).IsOpen)
    (hends : ((start settings link id).run actions).Ends a) :
    ∃ outage, a.outage? = some outage ∧
      Resolves outage ((start settings link id).run actions)
        (((start settings link id).run actions).step a) ∧
      ∀ after, Lasts (((start settings link id).run actions).step a) after := by
  have hended : ¬ (((start settings link id).run actions).step a).IsOpen :=
    fun hstill => (isOpen_step_iff hopen a).1 hstill hends
  obtain hsame | ⟨outage, session, ha, halike, heq⟩ :=
    (((start settings link id).run actions).step_effect a).closed_cases
  · exact absurd (hsame.trans hopen) hended
  · have hresolves := resolves_of_alike settings link id hopen halike
    rw [← heq] at hresolves
    exact ⟨outage, ha, hresolves, (lasts_nil hresolves.emptied).run⟩

/-- When nobody holds a session, its pump reads its mail and tries to shut the link down, and the
session ends as soon as that does not have to wait. -/
theorem ends_of_unheld (hrunning : u.session.phase = .running) (hunheld : u.session.holders = 0)
    {result : Except LinkError Unit}
    (hresult : (u.step .takeMail).session.link.shutdown.1 = some result) :
    (u.step .takeMail).Ends .shutLink := by
  refine ⟨?_, result, hresult⟩
  simp only [step, Session.takeMail, hrunning]
  rcases Session.readMail u.session.mailbox u.session.link with ⟨_ | closer, mailbox, link⟩
  · exact ⟨none, if_pos hunheld⟩
  · exact ⟨some closer, rfl⟩

/-! ## A pump that is done -/

/-- A pump that is done has ended the session: a step keeps that. -/
theorem closed_of_finished_step
    (h : u.session.phase = .finished → u.session.exchange.closed = true)
    (hfinished : (u.step a).session.phase = .finished) :
    (u.step a).session.exchange.closed = true := by
  obtain hbefore | hclosed := (u.step_pumps a).of_finished hfinished
  · exact ended_step (h hbefore) a
  · exact hclosed

/-- So does any number of steps. -/
theorem closed_of_finished_run
    (h : u.session.phase = .finished → u.session.exchange.closed = true) (actions : List Action)
    (hfinished : (u.run actions).session.phase = .finished) :
    (u.run actions).session.exchange.closed = true := by
  induction actions generalizing u with
  | nil => exact h hfinished
  | cons a actions ih => exact ih (closed_of_finished_step h) hfinished

/-- A pump that is done has ended the session, whatever was done with it. -/
theorem closed_of_finished (settings : Settings) (link : Link) (id : UInt64)
    (actions : List Action)
    (hfinished : ((start settings link id).run actions).session.phase = .finished) :
    ((start settings link id).run actions).session.exchange.closed = true := by
  have hstart : (start settings link id).session.phase = .running := rfl
  refine closed_of_finished_run (fun hphase => ?_) actions hfinished
  cases hstart.symm.trans hphase

/-- Whatever is mailed finds a pump that is not done: mail does not come too late. -/
theorem mail_in_time (settings : Settings) (link : Link) (id : UInt64) (actions : List Action)
    {m : Mail} (hmailed : (((start settings link id).run actions).step a).session.mailbox =
      ((start settings link id).run actions).session.mailbox ++ [m]) :
    ((start settings link id).run actions).session.phase ≠ .finished := by
  intro hfinished
  have hclosed := closed_of_finished settings link id actions hfinished
  exact Bool.noConfusion (hclosed.symm.trans ((step_pumps _ a).open_of_mailed hmailed))

end Usage

end QueryLink
