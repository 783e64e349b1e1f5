import QueryLink.Proofs.ExchangeAccounts

/-!
# What a conversation keeps

The invariant of a conversation is `Sound`: the notes on frames agree with the mailbox and the
link, the exchange has its account, and while it is open each reply on its way has its owner. The
steps of callers, of the pump, of the server and of the far end keep it, each for its own reason.

## Key results

- `Sound.of_same`, `Sound.submit`, `Sound.close`: what callers do
- `Sound.takeMail`, `Sound.route`, `Sound.turn`: what the pump does
- `Sound.receive`, `Sound.answer`, `Sound.announce`: what the server does
-/

namespace QueryLink

namespace Session

/-! ## Parts of a session -/

/-- What is sent for a request is not too long for a frame. -/
theorem envelope_length {s : Session} {service : UInt64} {payload bytes : Bytes}
    (h : s.envelope service payload = .ok bytes) : bytes.length ≤ maxPayload := by
  unfold envelope at h
  dsimp only at h
  split at h
  · cases h
  · cases h
    rw [List.length_append]
    omega

/-- Rousing the pump changes nothing but who is roused. -/
theorem rousePump_frame (s : Session) :
    ∃ roused, s.rousePump = { s with exchange := { s.exchange with roused } } := by
  unfold rousePump
  split
  · exact ⟨s.exchange.roused, rfl⟩
  · exact ⟨_, rfl⟩

theorem mail_mailbox (s : Session) (m : Mail) : (s.mail m).mailbox = s.mailbox ++ [m] := by
  unfold mail
  obtain ⟨roused, hroused⟩ := rousePump_frame { s with mailbox := s.mailbox ++ [m] }
  rw [hroused]

/-- Reading mail puts the requests before the first wish to close into the outbox. -/
theorem readMail_spec (mails : List Mail) (link : Link) :
    (readMail mails link).2.2 = link.sendAll ((mails.filterMap Mail.request?).take
      (mails.takeWhile fun m => m.request?.isSome).length) ∧
    (readMail mails link).2.1.filterMap Mail.request? = (mails.filterMap Mail.request?).drop
      (mails.takeWhile fun m => m.request?.isSome).length := by
  induction mails generalizing link with
  | nil => exact ⟨rfl, rfl⟩
  | cons mail mails ih =>
    cases mail with
    | request r => exact ih (link.send r)
    | close closer => exact ⟨rfl, rfl⟩

/-- Taking the mail sends what is readable. -/
theorem takeMail_running {s : Session} (hphase : s.phase = .running) :
    ∃ mailbox phase, phase ≠ .finished ∧
      mailbox.filterMap Mail.request? = (s.mailbox.filterMap Mail.request?).drop s.readable ∧
      s.takeMail = { s with
        mailbox, phase,
        link := s.link.sendAll ((s.mailbox.filterMap Mail.request?).take s.readable) } := by
  obtain ⟨hlink, hmailbox⟩ := readMail_spec s.mailbox s.link
  simp only [takeMail, readable, hphase]
  rcases hread : readMail s.mailbox s.link with ⟨_ | closer, mailbox, link⟩
  · rw [hread] at hlink hmailbox
    refine ⟨mailbox, if s.holders = 0 then .closing none else .running, ?_, hmailbox, ?_⟩
    · split <;> simp
    · rw [← hlink]
  · rw [hread] at hlink hmailbox
    refine ⟨mailbox, .closing (some closer), by simp, hmailbox, ?_⟩
    rw [← hlink]

/-- Routing does not end the pump. -/
theorem route_phase (s : Session) (r : Reply) : (s.route r).phase = s.phase := by
  unfold route
  split <;> rfl

theorem routeAll_phase (fuel : Nat) (s : Session) : (s.routeAll fuel).2.phase = s.phase := by
  induction fuel generalizing s with
  | zero => rfl
  | succ fuel ih =>
    unfold routeAll
    split
    · rfl
    · split
      · rfl
      · rename_i reply link _
        exact (ih _).trans (route_phase { s with link } reply)
      · rfl
      · rfl

end Session

/-- The parcels of frames hold these frames. -/
theorem Exchange.parcels_frame (x : Exchange) (frames : List Request) :
    (x.parcels frames).map Parcel.frame = frames := by
  rw [parcels, List.map_map]
  exact List.map_id'' (fun _ => rfl) frames

/-- What is sent when a reply is routed is what the link is given then. -/
theorem Session.link_route (s : Session) (r : Reply) :
    (s.route r).link = s.link.sendAll ((s.sentFor r).map Parcel.frame) := by
  unfold route sentFor
  rcases s.exchange.route r with e | ⟨frames, x⟩
  · rfl
  · rw [Exchange.parcels_frame]

/-- A link from which replies were received and which was given these frames, those for a reply
right after it. -/
inductive Link.Answers : Link → List Request → Link → Prop
  | rests (l : Link) : Answers l [] l
  /-- Nothing is sent for what is no reply. -/
  | hears {l : Link} (hnone : ∀ r, l.receive.1 ≠ some (.ok (some r))) : Answers l [] l.receive.2
  | answers {l l' : Link} {r : Reply} {sent later : List Request}
      (hreply : l.receive.1 = some (.ok (some r)))
      (h : Answers (l.receive.2.sendAll sent) later l') : Answers l (sent ++ later) l'

/-- What is sent when replies are routed is what the link is given then, and in that order. -/
theorem Session.link_routeAll (fuel : Nat) (s : Session) :
    s.link.Answers ((s.sentByRouting fuel).map Parcel.frame) (s.routeAll fuel).2.link := by
  induction fuel generalizing s with
  | zero => exact .rests s.link
  | succ fuel ih =>
    unfold routeAll sentByRouting
    split
    · exact .rests s.link
    · have hears := Link.Answers.hears (l := s.link)
      rcases hreceive : s.link.receive with ⟨_ | e | _ | reply, link⟩
      · rw [hreceive] at hears
        exact hears nofun
      · rw [hreceive] at hears
        exact hears nofun
      · rw [hreceive] at hears
        exact hears nofun
      · -- one reply is routed, and the rest by what is left of the fuel
        have hrest := ih (route { s with link } reply)
        rw [link_route] at hrest
        rw [List.map_append]
        exact .answers (by rw [hreceive]) (by rwa [hreceive])

namespace Conversation

/-! ## The invariant -/

/-- The invariant of a conversation. -/
structure Sound (c : Conversation) : Prop where
  /-- The pump lets go of the link only when it ends. -/
  kept : c.session.phase ≠ .finished → c.session.link.isReleased = false
  /-- The link carries what left the mailbox and was not got, in order. -/
  carries : c.session.link.Carries c.undecoded (c.carried.map Parcel.frame)
  /-- The mailbox holds the other frames, until the pump has ended. -/
  mailed : c.session.phase ≠ .finished →
    c.session.mailbox.filterMap Mail.request? = c.posted.map Parcel.frame
  /-- Somebody waits for replies to the frames in the mailbox. -/
  posted : ∀ p ∈ c.posted, p.receivers.isSome
  account : Account c.session.exchange c.submitted (c.carried ++ c.posted) c.cases
  /-- While the session is open, every reply on its way has its owner. -/
  served : c.session.exchange.closed = false → ∃ inbound, c.session.link.Brings c.outgoing inbound ∧
    Served c.session.exchange.boxes (c.carried ++ c.posted) c.cases inbound

variable {c : Conversation}

/-! ## What callers do -/

/-- Steps that leave mail and link alone and no promise ready. -/
theorem Sound.of_same (h : c.Sound) {s : Session} (hphase : s.phase = c.session.phase)
    (hmailbox : s.mailbox.filterMap Mail.request? = c.session.mailbox.filterMap Mail.request?)
    (hlink : s.link = c.session.link) (hsame : c.session.exchange.Same s.exchange) :
    Sound { c with session := s } where
  kept := by
    rw [hphase, hlink]
    exact h.kept
  carries := by
    rw [hlink]
    exact h.carries
  mailed := by
    rw [hphase, hmailbox]
    exact h.mailed
  posted := h.posted
  account := h.account.same hsame
  served := by
    rw [hsame.closed, hsame.boxes, hlink]
    exact h.served

/-- Steps that shut the exchange down. -/
theorem Sound.of_ended (h : c.Sound) {s : Session}
    (hkept : s.phase ≠ .finished → s.link.isReleased = false)
    (hcarries : s.link.Carries c.undecoded (c.carried.map Parcel.frame))
    (hmailed : s.phase ≠ .finished →
      s.mailbox.filterMap Mail.request? = c.posted.map Parcel.frame)
    (hended : c.session.exchange.Ended s.exchange) : Sound { c with session := s } where
  kept := hkept
  carries := hcarries
  mailed := hmailed
  posted := h.posted
  account := h.account.ended hended
  served := by
    intro hopen
    rw [hended.closed] at hopen
    cases hopen

/-- Promises and result sets may change as callers like. -/
theorem Sound.withExchange (h : c.Sound) {x : Exchange} (hsame : c.session.exchange.Same x) :
    (c.withExchange x).Sound :=
  h.of_same rfl rfl rfl hsame

/-- The pump may be roused. -/
theorem Sound.rousePump (h : c.Sound) : Sound { c with session := c.session.rousePump } := by
  obtain ⟨roused, hroused⟩ := c.session.rousePump_frame
  rw [hroused]
  exact h.of_same rfl rfl rfl ⟨rfl, rfl, rfl, rfl, fun _ _ hready => hready⟩

/-- Somebody lets go of the session; the last one rouses the pump. -/
theorem Sound.letGo (h : c.Sound) : Sound { c with session := c.session.letGo } := by
  have hless : Sound { c with session := { c.session with holders := c.session.holders - 1 } } :=
    h.of_same rfl rfl rfl (.refl _)
  unfold Session.letGo
  dsimp only
  split
  · exact hless.rousePump
  · exact hless

/-- A caller closes the session: the exchange is shut down, and the pump is told by mail. -/
theorem Sound.close (h : c.Sound) (closer : TaskId) :
    Sound { c with session := (c.session.close closer).2 } := by
  unfold Session.close
  split
  · exact h
  · have hmailbox : (c.session.mailbox ++ [Mail.close closer]).filterMap Mail.request? =
        c.session.mailbox.filterMap Mail.request? := by
      simp [List.filterMap_cons, Mail.request?]
    have hshut : Sound { c with
        session := { c.session with
          exchange := c.session.exchange.shutdown .closed
          mailbox := c.session.mailbox ++ [.close closer] } } := by
      refine h.of_ended h.kept h.carries (fun hphase => ?_)
        (c.session.exchange.ended_shutdown .closed)
      rw [hmailbox]
      exact h.mailed hphase
    exact hshut.rousePump

/-- A request that gets a box is mailed to the pump with the caller's receivers. -/
private theorem Sound.submit_sent (h : c.Sound) {ask : Exchange.Ask} {bytes : Bytes}
    (hshort : bytes.length ≤ maxPayload) {slot : UInt16} {boxes : BoxTable}
    (hopen : c.session.exchange.closed = false)
    (hbox : c.session.exchange.boxes.allocate (ask.receivers c.session.exchange.promises.size) =
      some (slot, boxes)) :
    Sound { c with
      session := { c.session with
        exchange := { c.session.exchange with boxes }.addPromises
          (ask.receivers c.session.exchange.promises.size)
        mailbox := c.session.mailbox ++ [.request ⟨.payload, slot, bytes⟩] }
      submitted := c.submitted ++ [(ask.receivers c.session.exchange.promises.size, bytes)]
      posted := c.posted ++
        [⟨⟨.payload, slot, bytes⟩, some (ask.receivers c.session.exchange.promises.size)⟩] } := by
  obtain ⟨inbound, hbrings, hserved⟩ := h.served hopen
  obtain ⟨haccount, hserved'⟩ := h.account.submit_sent hserved hshort hbox
  -- the new request stands behind all that was posted
  rw [List.append_assoc] at haccount hserved'
  exact {
    kept := h.kept
    carries := h.carries
    mailed := by
      intro hphase
      simp only [List.filterMap_append, List.map_append]
      exact congrArg (· ++ _) (h.mailed hphase)
    posted := by
      intro p hp
      obtain hp | hp := List.mem_append.1 hp
      · exact h.posted p hp
      · rw [List.mem_singleton.1 hp]
        rfl
    account := haccount
    served := fun _ => ⟨inbound, hbrings, hserved'⟩ }

/-- A caller sends a request, which is refused, mailed, or waits. -/
theorem Sound.submit (h : c.Sound) (ask : Exchange.Ask) (service : UInt64) (payload : Bytes) :
    (c.submit ask service payload).Sound := by
  unfold Conversation.submit Session.submit
  rcases henvelope : c.session.envelope service payload with e | bytes
  · exact h
  · have hshort := Session.envelope_length henvelope
    dsimp only
    rcases c.session.exchange.submit_cases ask bytes with
      ⟨e, waitlist, hsubmit, hline⟩ | ⟨slot, boxes, hopen, hbox, hsubmit⟩ |
      ⟨waitlist, line, hopen, hline, hwaits, hsubmit⟩
    · rw [hsubmit]
      exact ⟨h.kept, h.carries, h.mailed, h.posted, h.account.leave hline, h.served⟩
    · rw [hsubmit]
      have hsent := (h.submit_sent hshort hopen hbox).rousePump
      dsimp only
      rw [Session.mail_mailbox, List.drop_left]
      exact hsent
    · rw [hsubmit]
      have haccount := h.account.submit_waits hshort hline hwaits
      -- nothing is mailed
      dsimp only
      rw [List.drop_length, List.filterMap_nil, List.map_nil, List.append_nil]
      exact ⟨h.kept, h.carries, h.mailed, h.posted, haccount, h.served⟩

/-! ## What the pump does -/

/-- Steps that change the link only, and neither what it carries nor what it brings. -/
theorem Sound.of_link (h : c.Sound) {link : Link}
    (hreleased : link.isReleased = c.session.link.isReleased)
    (hcarries : link.Carries c.undecoded (c.carried.map Parcel.frame))
    (hbrings : ∀ inbound, c.session.link.Brings c.outgoing inbound →
      link.Brings c.outgoing inbound) :
    Sound { c with session := { c.session with link } } where
  kept := by
    intro hphase
    rw [hreleased]
    exact h.kept hphase
  carries := hcarries
  mailed := h.mailed
  posted := h.posted
  account := h.account
  served := by
    intro hopen
    obtain ⟨inbound, hbrought, hserved⟩ := h.served hopen
    exact ⟨inbound, hbrings inbound hbrought, hserved⟩

/-- The pump ends. What it had not flushed is lost, and what is in flight fails. -/
theorem Sound.finish (h : c.Sound) (hphase : c.session.phase ≠ .finished) (outage : Outage) :
    Sound { c with session := c.session.finish outage } := by
  refine h.of_ended (fun hfinished => absurd rfl hfinished) ?_
    (fun hfinished => absurd rfl hfinished) (c.session.exchange.ended_shutdown outage)
  exact h.carries.release (h.kept hphase)

/-- Frames in the mailbox are not too long. -/
theorem Sound.posted_short (h : c.Sound) {p : Parcel} (hp : p ∈ c.posted) :
    p.frame.payload.length ≤ maxPayload := by
  obtain ⟨receivers, hreceivers⟩ := Option.isSome_iff_exists.1 (h.posted p hp)
  exact h.account.ledger.short _
    (h.account.ledger.labelled (List.mem_append_right _ hp) hreceivers).2

/-- The pump reads its mail. -/
theorem Sound.takeMail (h : c.Sound) : c.takeMail.Sound := by
  by_cases hphase : c.session.phase = .running
  · have hrunning : c.session.phase ≠ .finished := by simp [hphase]
    obtain ⟨mailbox, phase, hphase', hmailbox, htake⟩ := Session.takeMail_running hphase
    rw [h.mailed hrunning, ← List.map_take] at htake
    rw [h.mailed hrunning, ← List.map_drop] at hmailbox
    -- the same frames in the same order: some only moved from the mailbox to the link
    have hparcels : c.carried ++ c.posted.take c.session.readable ++
        c.posted.drop c.session.readable = c.carried ++ c.posted := by
      rw [List.append_assoc, List.take_append_drop]
    unfold Conversation.takeMail
    rw [htake]
    exact {
      kept := by
        intro _
        rw [Link.isReleased_sendAll]
        exact h.kept hrunning
      carries := by
        rw [List.map_append]
        apply h.carries.sendAll (h.kept hrunning)
        intro r hr
        obtain ⟨p, hp, rfl⟩ := List.mem_map.1 hr
        exact h.posted_short (List.mem_of_mem_take hp)
      mailed := fun _ => hmailbox
      posted := fun p hp => h.posted p (List.mem_of_mem_drop hp)
      account := by
        show Account _ _ (_ ++ _ ++ _) _
        rw [hparcels]
        exact h.account
      served := by
        intro hopen
        obtain ⟨inbound, hbrings, hserved⟩ := h.served hopen
        refine ⟨inbound, hbrings.sendAll _, ?_⟩
        show Served _ (_ ++ _ ++ _) _ _
        rw [hparcels]
        exact hserved }
  · -- a pump that is not running reads no mail
    have hnone : c.takeMail = c := by
      unfold Conversation.takeMail Session.takeMail Session.readable
      rcases hphase' : c.session.phase with _ | closer | _
      · exact absurd hphase' hphase
      · simp
      · simp
    rw [hnone]
    exact h

/-- The pump flushes the link, and ends if that fails. -/
theorem Sound.flush (h : c.Sound) (hphase : c.session.phase ≠ .finished) : c.flush.Sound := by
  have hflushed := h.of_link (Link.isReleased_flush _) (h.carries.flush (h.kept hphase))
    fun inbound hbrings => hbrings.flush
  unfold Conversation.flush Session.flushLink
  rcases hflush : c.session.link.flush with ⟨_ | e | _, link⟩
  · rw [hflush] at hflushed
    exact hflushed.of_same rfl rfl rfl (.refl _)
  · rw [hflush] at hflushed
    exact hflushed.finish hphase .crashed
  · rw [hflush] at hflushed
    exact hflushed

/-- The pump shuts the link down, and ends once that is done. -/
theorem Sound.closeLink (h : c.Sound) (hphase : c.session.phase ≠ .finished)
    (closer : Option TaskId) : Sound { c with session := c.session.closeLink closer } := by
  have hshut := h.of_link (Link.isReleased_shutdown _) (h.carries.shutdown (h.kept hphase))
    fun inbound hbrings => hbrings.shutdown
  unfold Session.closeLink
  rcases hshutdown : c.session.link.shutdown with ⟨_ | result, link⟩
  · rw [hshutdown] at hshut
    exact hshut.of_same rfl rfl rfl (.refl _)
  · rw [hshutdown] at hshut
    have hfinished := hshut.finish hphase .closed
    cases closer with
    | none => exact hfinished
    | some task =>
      exact hfinished.of_same rfl rfl rfl ⟨rfl, rfl, rfl, rfl, fun _ _ hready => hready⟩

/-- Receiving takes nothing from what the link carries. -/
theorem Sound.received (h : c.Sound) (hphase : c.session.phase ≠ .finished) {link : Link}
    {answer : Option (Except Cause (Option Reply))}
    (hreceive : c.session.link.receive = (answer, link)) :
    link.isReleased = false ∧ link.Carries c.undecoded (c.carried.map Parcel.frame) := by
  have hreleased := Link.isReleased_receive c.session.link
  have hcarried := h.carries.receive
  rw [hreceive] at hreleased hcarried
  exact ⟨hreleased.trans (h.kept hphase), hcarried⟩

/-- The pump ends when receiving fails or the server ended the link. -/
theorem Sound.lost (h : c.Sound) (hphase : c.session.phase ≠ .finished) {link : Link}
    {answer : Option (Except Cause (Option Reply))}
    (hreceive : c.session.link.receive = (answer, link)) (outage : Outage) :
    Sound { c with session := { c.session with link }.finish outage } := by
  obtain ⟨hkept, hcarries⟩ := h.received hphase hreceive
  exact h.of_ended (fun hfinished => absurd rfl hfinished) (hcarries.release hkept)
    (fun hfinished => absurd rfl hfinished) (c.session.exchange.ended_shutdown outage)

/-- The pump routes one reply. -/
theorem Sound.routeOne (h : c.Sound) (hphase : c.session.phase ≠ .finished) {r : Reply}
    {link : Link} (hreceive : c.session.link.receive = (some (.ok (some r)), link)) :
    Sound { c with
      session := { c.session with link }.route r
      carried := c.carried ++ { c.session with link }.sentFor r } := by
  obtain ⟨hkept, hcarries⟩ := h.received hphase hreceive
  -- while the exchange is open the reply is the first of those on their way
  have hopened : c.session.exchange.closed = false → ∃ later, link.Brings c.outgoing later ∧
      Account.Open c.session.exchange c.submitted (c.carried ++ c.posted) c.cases (r :: later) := by
    intro hopen
    obtain ⟨inbound, hbrings, hserved⟩ := h.served hopen
    obtain ⟨later, rfl, hbrings'⟩ := hbrings.receive hreceive
    exact ⟨later, hbrings', h.account, hserved, hopen⟩
  unfold Session.route Session.sentFor
  rcases hroute : c.session.exchange.route r with e | ⟨frames, x⟩
  · -- the reply is refused: only the link changed
    simp only [List.append_nil]
    refine ⟨fun _ => hkept, hcarries, h.mailed, h.posted, h.account, fun hopen => ?_⟩
    obtain ⟨later, hbrings, hleft⟩ := hopened hopen
    exact ⟨later, hbrings, (hleft.route_error hroute).served⟩
  · dsimp only
    cases hclosed : c.session.exchange.closed with
    | true =>
      -- a closed exchange ignores the reply, and nothing sends any more
      rw [Exchange.route, if_pos hclosed] at hroute
      cases hroute
      simp only [Exchange.parcels, List.map_nil, List.append_nil]
      refine ⟨fun _ => hkept, hcarries, h.mailed, h.posted, h.account, fun hopen => ?_⟩
      rw [hclosed] at hopen
      cases hopen
    | false =>
      obtain ⟨later, hbrings, hleft⟩ := hopened hclosed
      obtain ⟨hrouted, hshort⟩ := hleft.route_ok hroute
      -- what is sent now stands before the mail
      have hperm : (c.carried ++ x.parcels frames ++ c.posted).Perm
          (c.carried ++ c.posted ++ x.parcels frames) := by
        rw [List.append_assoc, List.append_assoc]
        exact List.perm_append_comm.append_left _
      have hsent := hrouted.perm hperm
      exact {
        kept := by
          intro _
          rw [Link.isReleased_sendAll, hkept]
        carries := by
          rw [List.map_append, Exchange.parcels_frame]
          exact hcarries.sendAll hkept hshort
        mailed := h.mailed
        posted := h.posted
        account := hsent.account
        served := fun _ => ⟨later, hbrings.sendAll frames, hsent.served⟩ }

/-- The pump routes replies. It ends if the link turns out to be broken. -/
theorem Sound.route (h : c.Sound) (hphase : c.session.phase ≠ .finished) (fuel : Nat) :
    (c.route fuel).Sound := by
  induction fuel generalizing c with
  | zero =>
    simp only [Conversation.route, Session.routeAll, Session.sentByRouting, if_true,
      List.append_nil]
    exact h
  | succ fuel ih =>
    unfold Conversation.route Session.routeAll Session.sentByRouting
    split
    · -- a feed is full: the pump stops reading
      simp only [if_true, List.append_nil]
      exact h.of_same rfl rfl rfl ⟨rfl, rfl, rfl, rfl, fun _ _ hready => hready⟩
    · rcases hreceive : c.session.link.receive with ⟨_ | e | _ | reply, link⟩
      · -- no whole reply has come
        obtain ⟨hkept, hcarries⟩ := h.received hphase hreceive
        have hwaiting := h.of_link (hkept.trans (h.kept hphase).symm) hcarries
          fun inbound hbrings => hbrings.receive_none hreceive
        simp only [if_true, List.append_nil]
        exact hwaiting.of_same rfl rfl rfl (.refl _)
      · simp only [Bool.false_eq_true, if_false, List.append_nil]
        exact h.lost hphase hreceive .crashed
      · simp only [Bool.false_eq_true, if_false, List.append_nil]
        exact h.lost hphase hreceive .crashed
      · -- one reply is routed, and the rest by what is left of the fuel
        have hrouted := ih (h.routeOne hphase hreceive) (by rwa [Session.route_phase])
        simpa only [Conversation.route, List.append_assoc] using hrouted

/-- A whole turn: mail, replies and the outbox, or the end of the link. -/
theorem Sound.turn (h : c.Sound) : c.turn.Sound := by
  have htaken := h.takeMail
  have hsession : c.takeMail.session = c.session.takeMail := rfl
  unfold Conversation.turn Session.turn Session.sentInTurn
  rcases hphase : c.session.takeMail.phase with _ | closer | _
  · have hrunning : c.takeMail.session.phase ≠ .finished := by simp [hsession, hphase]
    have hrouted := htaken.route hrunning (c.session.takeMail.link.backlog + 1)
    -- the pump still runs after routing, so it may flush
    have hstill := Session.routeAll_phase (c.session.takeMail.link.backlog + 1) c.session.takeMail
    unfold Conversation.route at hrouted
    rw [hsession] at hrouted
    simp only [hphase]
    rcases hall : c.session.takeMail.routeAll (c.session.takeMail.link.backlog + 1)
      with ⟨good, session⟩
    rw [hall] at hrouted hstill
    cases good with
    | true =>
      have hrunning' : session.phase = .running := hstill.trans hphase
      exact hrouted.flush (by simp [hrunning'])
    | false => exact hrouted
  · have hclosing : c.takeMail.session.phase ≠ .finished := by simp [hsession, hphase]
    simp only [hphase, List.append_nil]
    exact htaken.closeLink hclosing closer
  · simp only [hphase, List.append_nil]
    exact htaken

/-! ## What the server and the far end do -/

/-- Whether the pump notices that the link changed does not matter. -/
theorem Sound.noticed {link : Link} (h : Sound { c with session := { c.session with link } })
    (noticed : Bool) : Sound { c with session := c.session.farEnd link noticed } := by
  unfold Session.farEnd
  dsimp only
  split
  · exact (h.of_same (s := { c.session with link, linkWatched := false }) rfl rfl rfl
      (.refl _)).rousePump
  · exact h

/-- The far end changes the link; the same replies to requests are on their way. -/
theorem Sound.farEnd (h : c.Sound) {link : Link} {outgoing : Bytes} (noticed : Bool)
    (hreleased : link.isReleased = c.session.link.isReleased)
    (hcarries : link.Carries c.undecoded (c.carried.map Parcel.frame))
    (hserved : ∀ inbound, c.session.link.Brings c.outgoing inbound →
      ∃ inbound', link.Brings outgoing inbound' ∧
        ∀ slot, answers slot inbound' = answers slot inbound) :
    Sound { c with session := c.session.farEnd link noticed, outgoing } := by
  refine Sound.noticed (c := { c with outgoing }) ?_ noticed
  refine ⟨fun hphase => ?_, hcarries, h.mailed, h.posted, h.account, fun hopen => ?_⟩
  · rw [hreleased]
    exact h.kept hphase
  · obtain ⟨inbound, hbrings, hbefore⟩ := h.served hopen
    obtain ⟨inbound', hbrings', hsame⟩ := hserved inbound hbrings
    exact ⟨inbound', hbrings', hbefore.congr_inbound hsame⟩

/-- The far end changes how the link behaves. -/
theorem Sound.quiet (h : c.Sound) {step : Script.FarEnd} (hquiet : step.isQuiet = true)
    (noticed : Bool) :
    Sound { c with session := c.session.farEnd (step.play c.session.link).2.2 noticed } :=
  h.farEnd noticed (Link.isReleased_quiet _ hquiet) (h.carries.quiet hquiet)
    fun inbound hbrings => ⟨inbound, hbrings.quiet hquiet, fun _ => rfl⟩

/-- Bytes that the server wrote arrive. -/
theorem Sound.transmit (h : c.Sound) (n : Nat) (size : Option Nat) :
    Sound { c with
      session := c.session.farEnd (c.session.link.transmit c.outgoing n size).2 true
      outgoing := (c.session.link.transmit c.outgoing n size).1 } :=
  h.farEnd true (Link.isReleased_transmit ..) (h.carries.transmit ..)
    fun inbound hbrings => ⟨inbound, hbrings.transmit n size, fun _ => rfl⟩

/-- The server sends something that is no reply to a request. -/
theorem Sound.announce (h : c.Sound) {r : Reply}
    (hkind : ¬(r.kind = .payload ∨ r.kind = .bodyHead)) : ((c.reply? r).getD c).Sound := by
  unfold Conversation.reply?
  rcases hreply : c.session.link.reply? c.outgoing r with _ | ⟨outgoing, link⟩
  · exact h
  · obtain ⟨hcarries, hreleased⟩ := h.carries.reply hreply
    refine h.farEnd true hreleased hcarries fun inbound hbrings => ?_
    refine ⟨inbound ++ [r], hbrings.reply hreply, fun slot => ?_⟩
    rw [answers_append, answers_cons_other hkind, answers_nil, List.append_nil]

/-- The server gets a request to a service: it is a case now. -/
private theorem Sound.got_request (h : c.Sound) {p : Parcel} {rest : List Parcel}
    (hparcels : c.carried = p :: rest) (hkind : p.frame.kind = .payload) {undecoded : Bytes}
    {link : Link} (hnext : c.session.link.next? c.undecoded = some (p.frame, undecoded, link))
    (hcarries : link.Carries undecoded (rest.map Parcel.frame)) :
    Sound { c with
      session := { c.session with link }
      carried := rest
      undecoded
      cases := c.cases ++ [⟨p.frame, p.receivers, []⟩] } := by
  obtain ⟨hledger, hslots, hproper, hready⟩ := h.account
  have hserved := h.served
  rw [hparcels, List.cons_append] at hledger hslots hserved
  have hlabelled := hledger.parcels p List.mem_cons_self
  rw [Parcel.Labelled, if_pos hkind] at hlabelled
  obtain ⟨receivers, hreceivers, -⟩ := hlabelled
  exact {
    kept := by
      intro hphase
      rw [Link.isReleased_next hnext]
      exact h.kept hphase
    carries := hcarries
    mailed := h.mailed
    posted := h.posted
    account := {
      ledger := hledger.got_first hreceivers
      slots := (occupied_got_first hreceivers).nodup_iff.2 hslots
      proper := by
        intro k hk
        obtain hk | hk := List.mem_append.1 hk
        · exact hproper k hk
        · rw [List.mem_singleton.1 hk]
          exact .unanswered rfl
      ready := by
        intro id b hid
        obtain ⟨k, hk, hreplied⟩ := hready id b hid
        exact ⟨k, List.mem_append_left _ hk, hreplied⟩ }
    served := by
      intro hopen
      obtain ⟨inbound, hbrings, hbefore⟩ := hserved hopen
      exact ⟨inbound, hbrings.next hnext, hbefore.got_first hreceivers⟩ }

/-- The server gets a frame that it does not reply to. -/
private theorem Sound.got_other (h : c.Sound) {p : Parcel} {rest : List Parcel}
    (hparcels : c.carried = p :: rest) (hkind : p.frame.kind ≠ .payload) {undecoded : Bytes}
    {link : Link} (hnext : c.session.link.next? c.undecoded = some (p.frame, undecoded, link))
    (hcarries : link.Carries undecoded (rest.map Parcel.frame)) :
    Sound { c with session := { c.session with link }, carried := rest, undecoded } := by
  obtain ⟨hledger, hslots, hproper, hready⟩ := h.account
  have hserved := h.served
  rw [hparcels, List.cons_append] at hledger hslots hserved
  have hnone := hledger.parcels p List.mem_cons_self
  rw [Parcel.Labelled, if_neg hkind] at hnone
  rw [occupied_got_other hnone] at hslots
  exact {
    kept := by
      intro hphase
      rw [Link.isReleased_next hnext]
      exact h.kept hphase
    carries := hcarries
    mailed := h.mailed
    posted := h.posted
    account := ⟨hledger.got_other hnone, hslots, hproper, hready⟩
    served := by
      intro hopen
      obtain ⟨inbound, hbrings, hbefore⟩ := hserved hopen
      refine ⟨inbound, hbrings.next hnext, hbefore.congr_parcels fun p' hsome => ?_⟩
      -- the frame that is gone has no receivers
      show p' ∈ rest ++ c.posted ↔ p' ∈ p :: (rest ++ c.posted)
      rw [List.mem_cons, or_iff_right]
      rintro rfl
      rw [hnone] at hsome
      cases hsome }

/-- The server gets the first frame on its way. -/
theorem Sound.receive (h : c.Sound) : c.receive.Sound := by
  unfold Conversation.receive
  split
  · exact h
  · rename_i frame undecoded link hnext
    obtain ⟨later, hcarried, hcarries⟩ := h.carries.next hnext
    rcases hparcels : c.carried with _ | ⟨p, rest⟩
    · rw [hparcels] at hcarried
      cases hcarried
    rw [hparcels, List.map_cons, List.cons.injEq] at hcarried
    obtain ⟨rfl, rfl⟩ := hcarried
    split
    · rename_i hkind
      exact h.got_request hparcels hkind hnext hcarries
    · rename_i hkind
      exact h.got_other hparcels hkind hnext hcarries

/-- A list around one of its elements. -/
private theorem set_of_getElem? {α : Type} {l : List α} {i : Nat} {a : α} (h : l[i]? = some a) :
    ∃ before after, l = before ++ a :: after ∧ ∀ b, l.set i b = before ++ b :: after := by
  obtain ⟨hlt, rfl⟩ := List.getElem?_eq_some_iff.1 h
  refine ⟨l.take i, l.drop (i + 1), ?_, fun b => ?_⟩
  · rw [List.getElem_cons_drop, List.take_append_drop]
  · rw [List.set_eq_take_append_cons_drop, if_pos hlt]

/-- A reply to a case is added to it and is on its way. -/
theorem Sound.replied (h : c.Sound) {before after : List Case} {k : Case}
    (hcases : c.cases = before ++ k :: after) {r : Reply} (hadmits : k.admits r.kind = true)
    (hslot : r.slot = k.frame.slot) {outgoing : Bytes} {link : Link}
    (hreply : c.session.link.reply? c.outgoing r = some (outgoing, link)) :
    Sound { c with
      session := { c.session with link }
      outgoing
      cases := before ++ { k with replies := k.replies ++ [r] } :: after } := by
  obtain ⟨hcarries, hreleased⟩ := h.carries.reply hreply
  obtain ⟨hledger, hslots, hproper, hready⟩ := h.account
  have hserved := h.served
  rw [hcases] at hledger hslots hproper hserved
  have hallowed : k.isOpen = true ∧ (r.kind = .payload ∨ r.kind = .bodyHead) := by
    simp only [Case.admits, Bool.and_eq_true, Bool.or_eq_true, decide_eq_true_eq] at hadmits
    exact ⟨hadmits.1, hadmits.2.imp_right fun hhead => hhead.1.1⟩
  exact {
    kept := by
      intro hphase
      rw [hreleased]
      exact h.kept hphase
    carries := hcarries
    mailed := h.mailed
    posted := h.posted
    account := {
      ledger := hledger.answer r
      slots := hslots.sublist (occupied_answer hallowed.1 r)
      proper := by
        intro k' hk'
        obtain rfl | hk' := mem_middle.1 hk'
        · exact (hproper k (mem_middle.2 (.inl rfl))).answer hadmits
        · exact hproper k' (mem_middle.2 (.inr hk'))
      ready := by
        intro id b hid
        obtain ⟨k', hk', receivers, hreceivers, hid', hreplied⟩ := hready id b hid
        rw [hcases] at hk'
        obtain rfl | hk' := mem_middle.1 hk'
        · -- more replies leave the first ones as they are
          exact ⟨_, mem_middle.2 (.inl rfl), receivers, hreceivers, hid',
            Case.replyTo_answer hreplied r⟩
        · exact ⟨k', mem_middle.2 (.inr hk'), receivers, hreceivers, hid', hreplied⟩ }
    served := by
      intro hopen
      obtain ⟨inbound, hbrings, hbefore⟩ := hserved hopen
      exact ⟨inbound ++ [r], hbrings.reply hreply,
        hbefore.answer hledger.distinct hallowed.1 hslot hallowed.2⟩ }

/-- The server replies to a case as the protocol allows. -/
theorem Sound.answer (h : c.Sound) (number : Nat) (kind : ReplyKind) (payload : Bytes) :
    (c.answer number kind payload).Sound := by
  unfold Conversation.answer
  split
  · exact h
  · rename_i k hk
    split
    · rename_i hadmits
      unfold Conversation.reply?
      dsimp only
      rcases hreply : c.session.link.reply? c.outgoing (.plain kind k.frame.slot payload)
        with _ | ⟨outgoing, link⟩
      · exact h
      · obtain ⟨before, after, hcases, hset⟩ := set_of_getElem? hk
        have hreplied := h.replied hcases hadmits rfl hreply
        rw [← hset] at hreplied
        exact hreplied.noticed (c := { c with outgoing, cases := _ }) true
    · exact h

end Conversation

end QueryLink
