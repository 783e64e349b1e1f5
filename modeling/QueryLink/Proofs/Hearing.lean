import QueryLink.Proofs.Hosting
import QueryLink.Proofs.ReaderWake
import QueryLink.Proofs.ShutdownLaws

/-!
# What the pump hears

A frame is heard when the pump reads it, in an open session and while no feed is full. Of the
frames that are heard those about result sets are the server's news; each of them is one action on
the catalog, and nothing else the server does is. The end of a result set is also answered, whether
anything is known of the result set or not.

## Key results

- `step_turn`: what a step means to catalog and cursors, with the news it brings
- `step_farewell`: which of the frames that are sent answer the end of a result set
- `farewells_run`: over a run these answers are the ends that were heard, in that order
-/

namespace QueryLink

/-! ## Frames -/

namespace Reply

/-- What a frame does to the catalog. -/
def action? (r : Reply) : Option Catalog.Action :=
  match r.kind with
  | .resultSetHello =>
    match Utf8.decode r.payload with
    | .ok name => some (.hello r.slot name)
    | .error _ => none
  | .resultSetPayload => some (.piece r.slot r.writer r.payload)
  | .resultSetBye => some (.bye r.slot)
  | _ => none

/-- How a frame is answered: the end of a result set is confirmed. -/
def farewell? (r : Reply) : Option Request :=
  if r.kind = .resultSetBye then some ⟨.byeOk, r.slot, []⟩ else none

variable {r : Reply} {a : Catalog.Action}

theorem isNews_of_action? (h : r.action? = some a) : a.IsNews := by
  unfold action? at h
  split at h
  · split at h
    · cases h
      trivial
    · cases h
  · cases h
    trivial
  · cases h
    trivial
  · cases h

theorem farewell?_of_action?_none (h : r.action? = none) : r.farewell? = none := by
  unfold farewell?
  split
  · rename_i hbye
    simp only [action?, hbye, reduceCtorEq] at h
  · rfl

end Reply

namespace Exchange

variable {x x' : Exchange} {r : Reply} {a : Catalog.Action} {frames : List Request}

/-- News are taken down, and the end of a result set is answered. -/
theorem route_news (hopen : x.closed = false) (ha : r.action? = some a) :
    x.route r = .ok (r.farewell?.toList, { x with catalog := x.catalog.act a }) := by
  unfold route
  rw [if_neg (by simp [hopen])]
  unfold Reply.action? at ha
  split at ha <;> rename_i hkind
  · split at ha
    · rename_i name hname
      cases ha
      simp only [hkind, hname, Reply.farewell?, reduceCtorEq, if_false]
      rfl
    · cases ha
  · cases ha
    simp only [hkind, Reply.farewell?, reduceCtorEq, if_false]
    rfl
  · cases ha
    simp only [hkind, Reply.farewell?, if_true]
    rfl
  · cases ha

/-- Other frames leave result sets alone, and none of them is answered like an end. -/
theorem route_other (ha : r.action? = none) (h : x.route r = .ok (frames, x')) :
    x'.catalog = x.catalog ∧ ∀ frame ∈ frames, frame.kind ≠ .byeOk := by
  have hreply {isHead : Bool} (hdeliver : x.deliver r isHead = .ok (frames, x')) :
      x'.catalog = x.catalog ∧ ∀ frame ∈ frames, frame.kind ≠ .byeOk := by
    refine ⟨(deliver_frame hdeliver).1, fun frame hframe => ?_⟩
    rw [deliver_kind hdeliver frame hframe]
    decide
  unfold route at h
  split at h
  · cases h
    exact ⟨rfl, by simp⟩
  · split at h <;> rename_i hkind
    · exact hreply h
    · exact hreply h
    · split at h <;> rename_i hname
      · cases h
      · simp only [Reply.action?, hkind, hname, reduceCtorEq] at ha
    · simp only [Reply.action?, hkind, reduceCtorEq] at ha
    · simp only [Reply.action?, hkind, reduceCtorEq] at ha
    · cases h
    · cases h

end Exchange

/-! ## Steps -/

namespace Usage

/-- The frame that is heard in a step. -/
def heard (u : Usage) : Action → Option Reply
  | .routeNext =>
    if u.session.phase = .running ∧ u.session.exchange.closed = false ∧
        u.session.exchange.catalog.isSaturated = false then
      match u.session.link.receive with
      | (some (.ok (some r)), _) => some r
      | _ => none
    else none
  | _ => none

/-- The news that a step brings. -/
def told (u : Usage) (a : Action) : Option Catalog.Action :=
  (u.heard a).bind Reply.action?

variable {u u' : Usage} {a : Action}

/-- The pump hears the next frame, or it does not. Then nothing is sent, and the session may end. -/
private theorem routeNext_cases (u : Usage) :
    (∃ r link, u.heard .routeNext = some r ∧ u.session.exchange.closed = false ∧
      u.step .routeNext = { u with
        session := Session.route { u.session with link } r
        emitted := u.emitted ++ Session.sentFor { u.session with link } r }) ∨
    u.heard .routeNext = none ∧ ∃ s, u.step .routeNext = { u with session := s } ∧
      (u.session.exchange.Alike s.exchange ∨
        (u.session.exchange.shutdown .crashed).Alike s.exchange) := by
  by_cases hphase : u.session.phase = .running
  · simp only [step, routeNext, Session.routeAll, Session.sentByRouting, heard,
      hphase, true_and]
    by_cases hfull : u.session.exchange.catalog.isSaturated = true
    · -- the pump stops reading
      simp only [hfull, if_true, List.append_nil, Bool.true_eq_false, and_false, if_false]
      exact .inr ⟨trivial, _, rfl, .inl ⟨true, _, rfl⟩⟩
    · rw [Bool.not_eq_true] at hfull
      simp only [hfull, Bool.false_eq_true, if_false, and_true]
      rcases u.session.link.receive with ⟨_ | e | _ | r, link⟩
      · simp only [if_true, List.append_nil, ite_self]
        exact .inr ⟨trivial, _, rfl, .inl (.refl _)⟩
      · simp only [Bool.false_eq_true, if_false, List.append_nil, ite_self]
        exact .inr ⟨trivial, _, rfl, .inr (.refl _)⟩
      · simp only [Bool.false_eq_true, if_false, List.append_nil, ite_self]
        exact .inr ⟨trivial, _, rfl, .inr (.refl _)⟩
      · -- a frame is there, and it is heard if the session is open
        cases hclosed : u.session.exchange.closed with
        | false =>
          simp only [if_true, List.append_nil]
          exact .inl ⟨r, link, rfl, trivial, rfl⟩
        | true =>
          -- after the end it is read and ignored
          have hroute : u.session.exchange.route r = .ok ([], u.session.exchange) := if_pos hclosed
          simp only [Session.route, Session.sentFor, hroute, Exchange.parcels, Bool.true_eq_false,
            if_true, if_false, List.map_nil, List.append_nil]
          exact .inr ⟨trivial, _, rfl, .inl (.refl _)⟩
  · refine .inr ⟨?_, u.session, ?_, .inl (.refl _)⟩
    · simp only [heard, hphase, false_and, if_false]
    · simp only [step, if_neg hphase]

/-- What a step means to catalog and cursors, with the news it brings. -/
inductive Turn (u : Usage) (a : Action) (u' : Usage) : Option Catalog.Action → Prop
  /-- The server says something about a result set. -/
  | news {said} (hsaid : said.IsNews)
      (hcatalog : u'.session.exchange.catalog = u.session.exchange.catalog.act said)
      (hcursors : u'.cursors = u.cursors) : Turn u a u' (some said)
  /-- Neither a result set nor a consumer is concerned. -/
  | rests (hcatalog : u'.session.exchange.catalog = u.session.exchange.catalog)
      (hcursors : u'.cursors = u.cursors) : Turn u a u' none
  | opens (hcatalog : u'.session.exchange.catalog = u.session.exchange.catalog)
      (hcursors : u'.cursors = u.cursors ++ [({} : Cursor)]) : Turn u a u' none
  /-- A consumer does something with its cursor. -/
  | plays {number step c c' x} (ha : a = .useCursor number step)
      (hc : u.cursors[number]? = some c) (hmoves : c.Moves u.session.exchange step c' x)
      (hcatalog : u'.session.exchange.catalog = x.catalog)
      (hcursors : u'.cursors = u.cursors.set number c') : Turn u a u' none
  /-- The session ends. -/
  | ends (h : u'.session.exchange.Emptied) : Turn u a u' none

/-- The session ends now, or it has ended before. -/
private theorem turn_shutdown {outage : Outage} {s : Session}
    (h : (u.session.exchange.shutdown outage).Alike s.exchange) :
    u.Turn a { u with session := s } none := by
  cases hclosed : u.session.exchange.closed with
  | true =>
    rw [Exchange.shutdown_of_closed hclosed] at h
    exact .rests h.catalog rfl
  | false => exact .ends ((Exchange.emptied_shutdown hclosed outage).alike h)

private theorem turn_routeNext (u : Usage) :
    u.Turn .routeNext (u.step .routeNext) (u.told .routeNext) := by
  unfold told
  obtain ⟨r, link, hheard, hopen, heq⟩ | ⟨hheard, s, heq, halike | hends⟩ := u.routeNext_cases
  · rw [hheard, heq, Option.bind_some]
    cases hsaid : r.action? with
    | some said =>
      refine .news (Reply.isNews_of_action? hsaid) ?_ rfl
      simp only [Session.route, Exchange.route_news hopen hsaid]
    | none =>
      refine .rests ?_ rfl
      simp only [Session.route]
      split
      · rfl
      · rename_i hroute
        exact (Exchange.route_other hsaid hroute).1
  · rw [hheard, heq]
    exact .rests halike.catalog rfl
  · rw [hheard, heq]
    exact turn_shutdown hends

theorem step_turn (u : Usage) (a : Action) : u.Turn a (u.step a) (u.told a) := by
  cases a with
  | submit ask service payload =>
    refine .rests ?_ ?_
    · simp only [step, submit_session]
      exact (u.session.spares_submit ask service payload).catalog
    · simp only [step, submit]
      split <;> rfl
  | abandon promise => exact .rests (u.session.exchange.spares_settle .close promise).catalog rfl
  | take promise => exact .rests (u.session.exchange.spares_take promise).catalog rfl
  | await task promise => exact .rests (u.session.exchange.spares_await task promise).catalog rfl
  | hold => exact .rests rfl rfl
  | letGo => exact .rests u.session.spares_letGo.catalog rfl
  | close closer =>
    simp only [step, Session.close]
    split
    · exact .rests rfl rfl
    · exact turn_shutdown (Session.alike_mail { u.session with
        exchange := u.session.exchange.shutdown .closed } (.close closer))
  | openCursor => exact .opens rfl rfl
  | useCursor number step =>
    simp only [Usage.step, useCursor]
    split
    · exact .rests rfl rfl
    · rename_i c hc
      exact .plays rfl hc (c.playCursor_moves u.session.exchange step) rfl rfl
  | takeMail =>
    refine .rests ?_ rfl
    simp only [step, u.session.takeMail_exchange]
  | routeNext => exact u.turn_routeNext
  | flush =>
    simp only [step]
    split
    · obtain heq | heq := u.session.flushLink_exchange
      · exact .rests (congrArg Exchange.catalog heq) rfl
      · have hends : (u.session.exchange.shutdown .crashed).Alike
            u.session.flushLink.exchange := by
          rw [heq]
          exact .refl _
        exact turn_shutdown hends
    · exact .rests rfl rfl
  | shutLink =>
    simp only [step, shutLink]
    split
    · rename_i closer hphase
      obtain halike | halike := u.session.closeLink_exchange closer
      · exact .rests halike.catalog rfl
      · exact turn_shutdown halike
    · exact .rests rfl rfl
  | farEnd link noticed => exact .rests (u.session.spares_farEnd link noticed).catalog rfl

/-! ## Answers -/

/-- The frames that were sent to answer the end of a result set, oldest first. -/
def farewells (u : Usage) : List Request :=
  (u.emitted.map Parcel.frame).filter fun frame => frame.kind = .byeOk

/-- Nothing but requests to services is sent on behalf of callers. -/
private theorem farewells_submit (u : Usage) (ask : Exchange.Ask) (service : UInt64)
    (payload : Bytes) : (u.submit ask service payload).farewells = u.farewells := by
  unfold submit Session.submit
  rcases henvelope : u.session.envelope service payload with e | bytes
  · rfl
  · dsimp only
    obtain ⟨e, waitlist, heq, -⟩ | ⟨slot, boxes, -, -, heq⟩ | ⟨waitlist, line, -, -, -, heq⟩ :=
      u.session.exchange.submit_cases ask bytes
    · rw [heq]
      rfl
    · rw [heq]
      simp [farewells, Session.mail_mailbox, Mail.request?, Exchange.parcels_frame]
    · rw [heq]
      simp [farewells, Exchange.parcels]

/-- When the pump hears a frame it answers the end of a result set, and sends nothing else like
that. -/
private theorem farewells_routeNext (u : Usage) :
    (u.step .routeNext).farewells =
      u.farewells ++ ((u.heard .routeNext).bind Reply.farewell?).toList := by
  obtain ⟨r, link, hheard, hopen, heq⟩ | ⟨hheard, s, heq, -⟩ := u.routeNext_cases
  · rw [hheard, heq, Option.bind_some]
    simp only [farewells, List.map_append, List.filter_append, List.append_cancel_left_eq,
      Session.sentFor]
    cases hsaid : r.action? with
    | some said =>
      rw [Exchange.route_news hopen hsaid]
      dsimp only
      rw [Exchange.parcels_frame, List.filter_eq_self]
      intro frame hframe
      rw [Option.mem_toList, Reply.farewell?] at hframe
      split at hframe
      · cases hframe
        rfl
      · cases hframe
    | none =>
      rw [Reply.farewell?_of_action?_none hsaid]
      split
      · rfl
      · rename_i frames x hroute
        rw [Exchange.parcels_frame]
        refine List.filter_eq_nil_iff.2 fun frame hframe => ?_
        simpa using (Exchange.route_other hsaid hroute).2 frame hframe
  · rw [hheard, heq]
    exact (List.append_nil _).symm

/-- The end of a result set is answered when it is heard, and nothing else is answered like that. -/
theorem step_farewell (u : Usage) (a : Action) :
    (u.step a).farewells = u.farewells ++ ((u.heard a).bind Reply.farewell?).toList := by
  cases a with
  | routeNext => exact u.farewells_routeNext
  | submit ask service payload =>
    exact (u.farewells_submit ask service payload).trans (List.append_nil _).symm
  | useCursor number step =>
    refine Eq.trans ?_ (List.append_nil _).symm
    simp only [Usage.step, useCursor]
    split <;> rfl
  | flush =>
    refine Eq.trans ?_ (List.append_nil _).symm
    simp only [step]
    split <;> rfl
  | shutLink =>
    refine Eq.trans ?_ (List.append_nil _).symm
    simp only [step, shutLink]
    split <;> rfl
  | _ => exact (List.append_nil _).symm

/-! ## Runs -/

/-- The frames that are heard in a run, first one first. -/
def heardIn : Usage → List Action → List Reply
  | _, [] => []
  | u, a :: actions => (u.heard a).toList ++ heardIn (u.step a) actions

/-- The news that come in a run. -/
def toldIn (u : Usage) (actions : List Action) : List Catalog.Action :=
  (u.heardIn actions).filterMap Reply.action?

/-- What is made of a frame, if one is heard. -/
private theorem filterMap_toList {α : Type} (f : Reply → Option α) (heard : Option Reply) :
    heard.toList.filterMap f = (heard.bind f).toList := by
  cases heard with
  | none => rfl
  | some r =>
    rw [Option.toList_some, List.filterMap_cons, Option.bind_some]
    cases f r <;> rfl

theorem toldIn_cons (u : Usage) (a : Action) (actions : List Action) :
    u.toldIn (a :: actions) = (u.told a).toList ++ (u.step a).toldIn actions := by
  rw [toldIn, heardIn, List.filterMap_append, filterMap_toList]
  rfl

theorem toldIn_append (u : Usage) (before after : List Action) :
    u.toldIn (before ++ after) = u.toldIn before ++ (u.run before).toldIn after := by
  induction before generalizing u with
  | nil => rfl
  | cons a before ih =>
    rw [List.cons_append, toldIn_cons, ih, toldIn_cons, List.append_assoc]
    rfl

/-- Over a run the ends of result sets are answered that are heard: each of them once, in that
order and under its index. -/
theorem farewells_run (u : Usage) (actions : List Action) :
    (u.run actions).farewells = u.farewells ++ (u.heardIn actions).filterMap Reply.farewell? := by
  induction actions generalizing u with
  | nil => exact (List.append_nil _).symm
  | cons a actions ih =>
    rw [run_cons, ih, step_farewell, heardIn, List.filterMap_append, filterMap_toList,
      List.append_assoc]

end Usage

end QueryLink
