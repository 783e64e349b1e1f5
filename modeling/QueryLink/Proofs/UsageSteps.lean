import QueryLink.Proofs.CursorSteps
import QueryLink.Proofs.RouteLaws
import QueryLink.Proofs.Usage

/-!
# What a step does

Each step of a usage does one thing to the exchange, if anything: `Effect` lists the ways, with
what is noted. What holds of every usage is proved one `Effect` at a time, and nothing after this
looks into the steps of a session again.

## Key results

- `step_effect`: everything a step can do
- `Effect.closed_cases`: only a step with an `outage?` ends the session
- `IsOpen.of_run`: a session that is open was open all the time
-/

namespace QueryLink

namespace Exchange.Alike

variable {x x' x'' : Exchange}

theorem trans (h : x.Alike x') (h' : x'.Alike x'') : x.Alike x'' := by
  obtain ⟨_, _, rfl⟩ := h
  obtain ⟨parked, roused, rfl⟩ := h'
  exact ⟨parked, roused, rfl⟩

theorem boxes (h : x.Alike x') : x'.boxes = x.boxes := by
  obtain ⟨_, _, rfl⟩ := h
  rfl

theorem waitlist (h : x.Alike x') : x'.waitlist = x.waitlist := by
  obtain ⟨_, _, rfl⟩ := h
  rfl

theorem catalog (h : x.Alike x') : x'.catalog = x.catalog := by
  obtain ⟨_, _, rfl⟩ := h
  rfl

theorem promises (h : x.Alike x') : x'.promises = x.promises := by
  obtain ⟨_, _, rfl⟩ := h
  rfl

theorem closed (h : x.Alike x') : x'.closed = x.closed := by
  obtain ⟨_, _, rfl⟩ := h
  rfl

theorem promiseState (h : x.Alike x') : x'.promiseState = x.promiseState := by
  obtain ⟨_, _, rfl⟩ := h
  rfl

theorem parcels (h : x.Alike x') : x'.parcels = x.parcels := by
  obtain ⟨_, _, rfl⟩ := h
  rfl

/-- Rousing somebody. -/
theorem rouse (h : x.Alike x') (r : Runner) : x.Alike (x'.rouse r) :=
  h.trans ⟨x'.readerParked, _, rfl⟩

end Exchange.Alike

namespace Session

theorem alike_rousePump (s : Session) : s.exchange.Alike s.rousePump.exchange := by
  obtain ⟨roused, heq⟩ := s.rousePump_frame
  rw [heq]
  exact ⟨s.exchange.readerParked, roused, rfl⟩

theorem alike_mail (s : Session) (m : Mail) : s.exchange.Alike (s.mail m).exchange :=
  alike_rousePump { s with mailbox := s.mailbox ++ [m] }

theorem alike_letGo (s : Session) : s.exchange.Alike s.letGo.exchange := by
  unfold letGo
  dsimp only
  split
  · exact alike_rousePump { s with holders := s.holders - 1 }
  · exact .refl s.exchange

theorem alike_farEnd (s : Session) (link : Link) (noticed : Bool) :
    s.exchange.Alike (s.farEnd link noticed).exchange := by
  unfold farEnd
  dsimp only
  split
  · exact alike_rousePump { s with link, linkWatched := false }
  · exact .refl s.exchange

theorem takeMail_exchange (s : Session) : s.takeMail.exchange = s.exchange := by
  unfold takeMail
  split
  · split <;> rfl
  · rfl

/-- Flushing leaves the exchange as it is, or ends it. -/
theorem flushLink_exchange (s : Session) :
    s.flushLink.exchange = s.exchange ∨ s.flushLink.exchange = s.exchange.shutdown .crashed := by
  unfold flushLink
  split
  · exact .inl rfl
  · exact .inl rfl
  · exact .inr rfl

/-- Shutting the link down ends the exchange once it is done. -/
theorem closeLink_exchange (s : Session) (closer : Option TaskId) :
    s.exchange.Alike (s.closeLink closer).exchange ∨
      (s.exchange.shutdown .closed).Alike (s.closeLink closer).exchange := by
  unfold closeLink
  split
  · exact .inl (.refl s.exchange)
  · right
    dsimp only
    split
    · exact .refl _
    · exact (Exchange.Alike.refl _).rouse _

end Session

namespace Usage

/-- Everything a step can do: what becomes of the exchange, and what is noted. -/
inductive Effect (u : Usage) : Action → Usage → Prop
  /-- Nothing that callers or consumers can tell. -/
  | rests {a s} (h : u.session.exchange.Alike s.exchange) : Effect u a { u with session := s }
  | opens : Effect u .openCursor { u with cursors := u.cursors ++ [{}] }
  /-- A caller does something with a promise. -/
  | touches {a s} (h : u.session.exchange.Touched s.exchange) : Effect u a { u with session := s }
  /-- A request is refused. -/
  | refuses {a s ask bytes e x} (hsubmit : u.session.exchange.submit ask bytes = (.error e, x))
      (h : x.Alike s.exchange) : Effect u a { u with session := s }
  /-- A request is accepted, and handed to the pump if it can be sent. -/
  | accepts {a s ask bytes accepted x} (hshort : bytes.length ≤ maxPayload)
      (hsubmit : u.session.exchange.submit ask bytes = (.ok accepted, x)) (h : x.Alike s.exchange) :
      Effect u a { u with
        session := s
        accepted := u.accepted ++ [(accepted.receivers, bytes)]
        emitted := u.emitted ++ x.parcels accepted.frame.toList }
  /-- A consumer does something with its cursor. -/
  | plays {number step c c' x} (hc : u.cursors[number]? = some c)
      (hmoves : c.Moves u.session.exchange step c' x) :
      Effect u (.useCursor number step) { u.withExchange x with
        cursors := u.cursors.set number c'
        taken := u.taken ++ gone c step u.session.exchange x }
  /-- The pump routes a reply and sends what has to be sent because of it. No feed is full then. -/
  | routes {a s r frames x} (hroute : u.session.exchange.route r = .ok (frames, x))
      (h : x.Alike s.exchange) (hroom : u.session.exchange.catalog.isSaturated = false) :
      Effect u a { u with session := s, emitted := u.emitted ++ x.parcels frames }
  /-- The session ends. -/
  | ends {a s outage} (ha : a.outage? = some outage)
      (h : (u.session.exchange.shutdown outage).Alike s.exchange) :
      Effect u a { u with session := s }

/-- A caller sends a request. -/
private theorem submit_effect (u : Usage) (ask : Exchange.Ask) (service : UInt64)
    (payload : Bytes) : u.Effect (.submit ask service payload) (u.submit ask service payload) := by
  unfold submit Session.submit
  rcases henvelope : u.session.envelope service payload with e | bytes
  · exact .rests (.refl _)
  · have hshort := Session.envelope_length henvelope
    dsimp only
    rcases hsubmit : u.session.exchange.submit ask bytes with ⟨e | ⟨receivers, frame⟩, x⟩
    · exact .refuses hsubmit (.refl x)
    · cases frame with
      | none =>
        -- nothing is mailed
        have heffect := Effect.accepts (a := .submit ask service payload)
          (s := { u.session with exchange := x }) hshort hsubmit (.refl x)
        simpa [Exchange.parcels] using heffect
      | some frame =>
        have halike := Session.alike_mail { u.session with exchange := x } (.request frame)
        have heffect := Effect.accepts (a := .submit ask service payload) hshort hsubmit halike
        simpa [Session.mail_mailbox, Mail.request?, halike.parcels] using heffect

/-- The pump routes the next reply. -/
private theorem routeNext_effect (u : Usage) : u.Effect .routeNext u.routeNext := by
  unfold routeNext Session.routeAll Session.sentByRouting
  split
  · -- the pump stops reading
    simp only [if_true, List.append_nil]
    exact .rests ⟨true, u.session.exchange.roused, rfl⟩
  · rename_i hroom
    rw [Bool.not_eq_true] at hroom
    rcases u.session.link.receive with ⟨_ | e | _ | reply, link⟩
    · simp only [if_true, List.append_nil]
      exact .rests (.refl _)
    · simp only [Bool.false_eq_true, if_false, List.append_nil]
      exact .ends (rfl : Action.outage? .routeNext = some .crashed) (.refl _)
    · simp only [Bool.false_eq_true, if_false, List.append_nil]
      exact .ends (rfl : Action.outage? .routeNext = some .crashed) (.refl _)
    · simp only [Session.routeAll, Session.sentByRouting, Session.sentFor, Session.route,
        List.append_nil, if_true]
      rcases hroute : u.session.exchange.route reply with e | ⟨frames, x⟩
      · simp only [List.append_nil]
        exact .rests (.refl _)
      · exact .routes hroute (.refl x) hroom

theorem step_effect (u : Usage) (a : Action) : u.Effect a (u.step a) := by
  cases a with
  | submit ask service payload => exact u.submit_effect ask service payload
  | abandon promise => exact .touches (u.session.exchange.touched_settle_close promise)
  | take promise => exact .touches (u.session.exchange.touched_take promise)
  | await task promise => exact .touches (u.session.exchange.touched_await task promise)
  | hold => exact .rests (.refl _)
  | letGo => exact .rests u.session.alike_letGo
  | close closer =>
    simp only [step, Session.close]
    split
    · exact .rests (.refl _)
    · exact .ends (rfl : Action.outage? (.close closer) = some .closed)
        (Session.alike_mail { u.session with
          exchange := u.session.exchange.shutdown .closed } (.close closer))
  | openCursor => exact .opens
  | useCursor number step =>
    simp only [Usage.step, useCursor]
    split
    · exact .rests (.refl _)
    · rename_i c hc
      exact .plays hc (c.playCursor_moves u.session.exchange step)
  | takeMail =>
    refine .rests ?_
    rw [u.session.takeMail_exchange]
    exact .refl _
  | routeNext =>
    simp only [step]
    split
    · exact u.routeNext_effect
    · exact .rests (.refl _)
  | flush =>
    simp only [step]
    split
    · obtain heq | heq := u.session.flushLink_exchange
      · refine .rests ?_
        rw [heq]
        exact .refl _
      · refine .ends (rfl : Action.outage? .flush = some .crashed) ?_
        rw [heq]
        exact .refl _
    · exact .rests (.refl _)
  | shutLink =>
    simp only [step, shutLink]
    split
    · rename_i closer hphase
      obtain halike | halike := u.session.closeLink_exchange closer
      · exact .rests halike
      · exact .ends (rfl : Action.outage? .shutLink = some .closed) halike
    · exact .rests (.refl _)
  | farEnd link noticed => exact .rests (u.session.alike_farEnd link noticed)

/-! ## Ending -/

/-- A step ends the session, or leaves it open or closed as it was. -/
theorem Effect.closed_cases {u u' : Usage} {a : Action} (h : u.Effect a u') :
    u'.session.exchange.closed = u.session.exchange.closed ∨
      ∃ outage s, a.outage? = some outage ∧
        (u.session.exchange.shutdown outage).Alike s.exchange ∧ u' = { u with session := s } := by
  cases h with
  | rests h => exact .inl h.closed
  | opens => exact .inl rfl
  | touches h => exact .inl h.closed
  | refuses hsubmit h => exact .inl (h.closed.trans (Exchange.submit_frame hsubmit).1)
  | accepts hshort hsubmit h => exact .inl (h.closed.trans (Exchange.submit_frame hsubmit).1)
  | plays hc hmoves =>
    obtain ⟨_, _, _, heq⟩ := hmoves.frame
    have hclosed := congrArg Exchange.closed heq
    exact .inl hclosed
  | routes hroute h => exact .inl (h.closed.trans (Exchange.route_frame hroute).1)
  | ends ha h => exact .inr ⟨_, _, ha, h, rfl⟩

/-- A session that has ended is not open. -/
theorem not_isOpen_of_shutdown {u : Usage} {x : Exchange} {outage : Outage}
    (h : (x.shutdown outage).Alike u.session.exchange) : ¬ u.IsOpen := by
  intro hopen
  have hclosed := h.closed.trans (x.ended_shutdown outage).closed
  exact Bool.noConfusion (hclosed.symm.trans hopen)

/-- A session that is open was open before. -/
theorem IsOpen.of_step {u : Usage} {a : Action} (h : (u.step a).IsOpen) : u.IsOpen := by
  obtain heq | ⟨outage, s, -, halike, heq⟩ := (u.step_effect a).closed_cases
  · exact heq.symm.trans h
  · rw [heq] at h
    exact absurd h (not_isOpen_of_shutdown halike)

/-- A session that is open was open all the time. -/
theorem IsOpen.of_run {u : Usage} {actions : List Action} (h : (u.run actions).IsOpen) :
    u.IsOpen := by
  induction actions generalizing u with
  | nil => exact h
  | cons a actions ih => exact (ih h).of_step

end Usage

end QueryLink
