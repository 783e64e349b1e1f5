import QueryLink.Proofs.PumpSteps
import QueryLink.Proofs.StreamTraffic

/-!
# Closing a session on a byte stream

A caller that closes a session is told how it went by the pump. The pump reads its mail up to the
wish to close. From then on it does not read from the stream any more, and tries to shut it down:
it writes the outbox out, as often as that has to wait, and ends its direction behind the last byte.
So what was sent before leaves whole, and what still waited for a box does not leave at all.

What the far end makes of a stream is left open: write calls may take any number of bytes, wait or
fail, and flushing and shutting down too (`StreamLink.Meets`).

## Key results

- `Shipped.step`, `Shipped.run`: the bytes on the stream are those of the frames that were sent
- `Asking.step`, `Trying.step`: how the pump comes from the wish to close to the answer
- `drained_run`: what the server has when a caller is told that closing went well
-/

namespace QueryLink

open Script (FarEnd)

/-! ## Lists that are mixed -/

/-- The third list has the elements of the other two, those of each in their order. -/
inductive Interleaves {α : Type} : List α → List α → List α → Prop
  | nil : Interleaves [] [] []
  | left {a : α} {u v w : List α} (h : Interleaves u v w) : Interleaves (a :: u) v (a :: w)
  | right {a : α} {u v w : List α} (h : Interleaves u v w) : Interleaves u (a :: v) (a :: w)

namespace Interleaves

variable {α : Type} {u v w u' v' w' : List α}

theorem append (h : Interleaves u v w) (h' : Interleaves u' v' w') :
    Interleaves (u ++ u') (v ++ v') (w ++ w') := by
  induction h with
  | nil => exact h'
  | left _ ih => exact .left ih
  | right _ ih => exact .right ih

theorem left_nil (u : List α) : Interleaves u [] u := by
  induction u with
  | nil => exact .nil
  | cons a u ih => exact .left ih

theorem right_nil (v : List α) : Interleaves [] v v := by
  induction v with
  | nil => exact .nil
  | cons a v ih => exact .right ih

theorem perm (h : Interleaves u v w) : w.Perm (u ++ v) := by
  induction h with
  | nil => exact .nil
  | left _ ih => exact ih.cons _
  | right _ ih => exact (ih.cons _).trans List.perm_middle.symm

end Interleaves

/-! ## The stream -/

/-- Frames that are sent on a byte stream go to the end of the outbox. -/
theorem Link.sendAll_stream (l : StreamLink) (frames : List Request) :
    (Link.stream l).sendAll frames =
      .stream { l with outbox := l.outbox ++ frames.flatMap Request.encode } := by
  induction frames generalizing l with
  | nil => simp [Link.sendAll]
  | cons frame frames ih =>
    show (Link.stream (l.send frame)).sendAll frames = _
    rw [ih]
    simp [StreamLink.send]

namespace StreamLink

variable {l l' : StreamLink}

/-- What the far end may make of a stream: it writes, ends its direction, and takes what is written
as it likes. -/
def Meets (l l' : StreamLink) : Prop :=
  ∃ more ending accepts onFlush onShutdown,
    l' = { l with pieces := l.pieces ++ more, ending, accepts, onFlush, onShutdown }

/-- What a script does to a stream is among that. -/
theorem meets_playStream (l : StreamLink) (step : FarEnd) :
    l.Meets (FarEnd.playStream l step).2 := by
  cases step with
  | reply frame size =>
    cases frame with
    | none => exact ⟨[], _, _, _, _, by rw [List.append_nil]; rfl⟩
    | some r => exact ⟨_, _, _, _, _, rfl⟩
  | raw bytes size => exact ⟨_, _, _, _, _, rfl⟩
  | _ => exact ⟨[], _, _, _, _, by rw [List.append_nil]; rfl⟩

/-- Shutting down keeps all bytes, and reads none. -/
theorem shutdown_bytes (l : StreamLink) :
    l.shutdown.2.accepted ++ l.shutdown.2.outbox = l.accepted ++ l.outbox ∧
      l.shutdown.2.inbox = l.inbox ∧ l.shutdown.2.pieces = l.pieces := by
  obtain ⟨n, hn⟩ := l.shutdown_link
  rw [hn, l.flush_link]
  exact ⟨l.writeOut_bytes, rfl, rfl⟩

/-- While shutting down has to wait, the stream is not shut down. -/
theorem shutdowns_of_waits (h : l.shutdown.1 = none) : l.shutdown.2.shutdowns = l.shutdowns := by
  by_cases hflushed : l.flush.1 = some (.ok ())
  · unfold shutdown at h ⊢
    rcases hflush : l.flush with ⟨answer, link⟩
    have hlink := congrArg shutdowns l.flush_link
    rw [hflush] at hflushed hlink
    cases hflushed
    simp only [hflush] at h ⊢
    -- the far end does not let it succeed
    cases hfinish : link.onShutdown <;> simp [hfinish, finish] at h ⊢
    exact hlink
  · rw [shutdown_of_flush_ne hflushed, flush_link]
    rfl

/-- Shutting down succeeds once, behind the last byte. -/
theorem shutdown_ok (h : l.shutdown.1 = some (.ok ())) :
    l.shutdown.2.outbox = [] ∧ l.shutdown.2.shutdowns = l.shutdowns + 1 := by
  have hflushed : l.flush.1 = some (.ok ()) := by
    apply Classical.byContradiction
    intro hne
    rw [shutdown_of_flush_ne hne] at h
    exact hne h
  have houtbox := outbox_of_flush_ok hflushed
  have hlink := congrArg shutdowns l.flush_link
  unfold shutdown at h ⊢
  rcases hflush : l.flush with ⟨answer, link⟩
  rw [hflush] at hflushed houtbox hlink
  cases hflushed
  simp only [hflush] at h ⊢
  cases hfinish : link.onShutdown <;> simp [hfinish, finish] at h ⊢
  exact ⟨houtbox, hlink⟩

end StreamLink

namespace Session

/-- Whether the far end leaves the link a byte stream in a step. -/
def KeepsStream (s : Session) : Usage.Action → Prop
  | .farEnd link _ => ∃ l l', s.link = .stream l ∧ l.Meets l' ∧ link = .stream l'
  | _ => True

/-- It does so when it plays a script. -/
theorem keepsStream_play {s : Session} {l : StreamLink} (hlink : s.link = .stream l)
    (step : FarEnd) (noticed : Bool) :
    s.KeepsStream (.farEnd (step.play s.link).2.2 noticed) := by
  rw [hlink]
  exact ⟨l, _, hlink, l.meets_playStream step, rfl⟩

/-- A session whose pump put frames on a byte stream: those that were mailed, except what is still
in the mailbox, and those that it wrote on its own. -/
structure Shipped (l₀ : StreamLink) (posted written : List Request) (s : Session)
    (l : StreamLink) : Prop where
  link : s.link = .stream l
  shutdowns : l.shutdowns = l₀.shutdowns
  bytes : ∃ read sent, Interleaves read written sent ∧
    read ++ s.mailbox.filterMap Mail.request? = posted ∧
    l.accepted ++ l.outbox = l₀.accepted ++ l₀.outbox ++ sent.flatMap Request.encode

variable {s s' : Session} {a : Usage.Action} {l₀ l : StreamLink}
  {posted written posted' written' : List Request}

/-- What is on the stream is known from the pump. -/
theorem SamePump.shipped (hsame : s.SamePump s') (h : Shipped l₀ posted written s l) :
    Shipped l₀ posted written s' l where
  link := hsame.link.trans h.link
  shutdowns := h.shutdowns
  bytes := by
    rw [hsame.mailbox]
    exact h.bytes

/-- What a step does to the link puts frames at the end of what is on the stream, and loses no byte
of it. -/
theorem Works.shipped {link : Link} (hworks : s.Works a written' link) (hkeeps : s.KeepsStream a)
    (h : Shipped l₀ posted written s l) :
    ∃ l', Shipped l₀ posted (written ++ written') { s with link } l' := by
  obtain ⟨hlink, hshutdowns, read, sent, hmixed, hposted, hbytes⟩ := h
  cases hworks with
  | rests =>
    rw [List.append_nil]
    exact ⟨l, hlink, hshutdowns, read, sent, hmixed, hposted, hbytes⟩
  | hears hrunning =>
    -- what the pump writes goes to the outbox
    have hreceived : s.link.receive.2 = .stream l.receive.2 := by
      rw [hlink]
      rfl
    have hsent := Link.sendAll_stream l.receive.2 written'
    rw [← hreceived] at hsent
    refine ⟨_, hsent, hshutdowns, read, sent ++ written', ?_, hposted, ?_⟩
    · have hmore := hmixed.append (.right_nil written')
      rwa [List.append_nil] at hmore
    · show l.accepted ++ (l.outbox ++ written'.flatMap Request.encode) = _
      rw [← List.append_assoc, hbytes, List.flatMap_append, List.append_assoc]
  | flushes hrunning =>
    have hflushed : s.link.flush.2 = .stream l.flush.2 := by
      rw [hlink]
      rfl
    rw [List.append_nil]
    refine ⟨l.flush.2, hflushed, ?_, read, sent, hmixed, hposted, ?_⟩
    · rw [l.flush_link]
      exact hshutdowns
    · rw [l.flush_link, l.writeOut_bytes, hbytes]
  | waits hclosing hwaits =>
    have hshut : s.link.shutdown.2 = .stream l.shutdown.2 := by
      rw [hlink]
      rfl
    rw [hlink] at hwaits
    rw [List.append_nil]
    refine ⟨l.shutdown.2, hshut, ?_, read, sent, hmixed, hposted, ?_⟩
    · rw [StreamLink.shutdowns_of_waits hwaits, hshutdowns]
    · rw [l.shutdown_bytes.1, hbytes]
  | far =>
    -- the far end does not reach into what is on its way
    obtain ⟨m, l', hm, ⟨_, _, _, _, _, rfl⟩, rfl⟩ := hkeeps
    cases hlink.symm.trans hm
    rw [List.append_nil]
    exact ⟨_, rfl, hshutdowns, read, sent, hmixed, hposted, hbytes⟩

/-- A step puts frames at the end of what is on the stream or in the mailbox, and loses no byte. -/
theorem Shipped.step (h : Shipped l₀ posted written s l) (hpumps : s.Pumps a posted' written' s')
    (hkeeps : s.KeepsStream a) (hphase : s'.phase ≠ .finished) :
    ∃ l', Shipped l₀ (posted ++ posted') (written ++ written') s' l' := by
  cases hpumps with
  | works hworks hsame =>
    obtain ⟨l', hshipped⟩ := hworks.shipped hkeeps h
    rw [List.append_nil]
    exact ⟨l', hsame.shipped hshipped⟩
  | posts hopen hsame =>
    obtain ⟨hlink, hshutdowns, read, sent, hmixed, hposted, hbytes⟩ := h
    refine ⟨l, hsame.shipped ⟨hlink, hshutdowns, read, sent, ?_, ?_, hbytes⟩⟩
    · rwa [List.append_nil]
    · rw [List.filterMap_append, ← List.append_assoc, hposted]
      rfl
  | asks hopen hclosed hsame =>
    obtain ⟨hlink, hshutdowns, read, sent, hmixed, hposted, hbytes⟩ := h
    refine ⟨l, hsame.shipped ⟨hlink, hshutdowns, read, sent, ?_, ?_, hbytes⟩⟩
    · rwa [List.append_nil]
    · rw [List.filterMap_append, ← List.append_assoc, hposted]
      rfl
  | @reads closer mailbox link _ hrunning hread hsame =>
    -- what is read from the mailbox goes to the outbox
    obtain ⟨hlink, hshutdowns, read, sent, hmixed, hposted, hbytes⟩ := h
    obtain ⟨hsent, hleft⟩ := readMail_spec s.mailbox s.link
    rw [hread] at hsent hleft
    dsimp only at hsent hleft
    rw [hlink, Link.sendAll_stream] at hsent
    generalize (s.mailbox.takeWhile fun m => m.request?.isSome).length = n at hsent hleft
    refine ⟨_, hsame.shipped ⟨hsent, hshutdowns,
      read ++ (s.mailbox.filterMap Mail.request?).take n,
      sent ++ (s.mailbox.filterMap Mail.request?).take n, ?_, ?_, ?_⟩⟩
    · exact hmixed.append (.left_nil _)
    · dsimp only
      rw [hleft, List.append_assoc, List.take_append_drop, hposted, List.append_nil]
    · rw [← List.append_assoc, hbytes, List.flatMap_append, List.append_assoc]
  | breaks hrunning hclosed hsame => exact absurd hsame.phase hphase
  | shuts hclosing hresult hclosed hsame => exact absurd hsame.phase hphase

/-- When the stream is shut down and the mailbox is empty, the server has all bytes. -/
theorem Shipped.shut (h : Shipped l₀ posted written s l) (hmailbox : s.mailbox = [])
    (hshut : l.shutdown.1 = some (.ok ())) :
    l.shutdown.2.shutdowns = l₀.shutdowns + 1 ∧ l.shutdown.2.outbox = [] ∧
      ∃ sent, Interleaves posted written sent ∧
        l.shutdown.2.accepted = l₀.accepted ++ l₀.outbox ++ sent.flatMap Request.encode := by
  obtain ⟨-, hshutdowns, read, sent, hmixed, hposted, hbytes⟩ := h
  obtain ⟨houtbox, hcount⟩ := StreamLink.shutdown_ok hshut
  have hall := l.shutdown_bytes.1
  rw [houtbox, List.append_nil, hbytes] at hall
  rw [hmailbox, List.filterMap_nil, List.append_nil] at hposted
  subst hposted
  exact ⟨hcount.trans (congrArg (· + 1) hshutdowns), houtbox, sent, hmixed, hall⟩

/-- A pump that is done stays so. -/
theorem Pumps.finished (h : s.Pumps a posted written s') (hphase : s.phase = .finished) :
    s'.phase = .finished := by
  cases h with
  | works hworks hsame => exact hsame.phase.trans hphase
  | posts hopen hsame => exact hsame.phase.trans hphase
  | asks hopen hclosed hsame => exact hsame.phase.trans hphase
  | breaks hrunning hclosed hsame => exact hsame.phase
  | shuts hclosing hresult hclosed hsame => exact hsame.phase
  | reads hrunning => cases hphase.symm.trans hrunning

/-- What a step does to the link of a pump that does not run reads nothing from the stream. -/
theorem Works.deaf {link : Link} (hworks : s.Works a written link) (hkeeps : s.KeepsStream a)
    (hphase : s.phase ≠ .running) (hlink : s.link = .stream l) :
    ∃ l', link = .stream l' ∧ l'.inbox = l.inbox ∧ l.pieces <+: l'.pieces := by
  cases hworks with
  | rests => exact ⟨l, hlink, rfl, List.prefix_rfl⟩
  | hears hrunning => exact absurd hrunning hphase
  | flushes hrunning => exact absurd hrunning hphase
  | waits hclosing hwaits =>
    obtain ⟨-, hinbox, hpieces⟩ := l.shutdown_bytes
    rw [hlink]
    exact ⟨l.shutdown.2, rfl, hinbox, hpieces ▸ List.prefix_rfl⟩
  | far =>
    obtain ⟨m, l', hm, ⟨more, _, _, _, _, rfl⟩, rfl⟩ := hkeeps
    cases hlink.symm.trans hm
    exact ⟨_, rfl, rfl, List.prefix_append _ _⟩

/-- A pump that is closing, or done, reads nothing from the stream, and does not run again. -/
theorem Pumps.deaf (h : s.Pumps a posted written s') (hkeeps : s.KeepsStream a)
    (hphase : s.phase ≠ .running) (hlink : s.link = .stream l) :
    s'.phase ≠ .running ∧ ∃ l', s'.link = .stream l' ∧ l'.inbox = l.inbox ∧
      l.pieces <+: l'.pieces := by
  cases h with
  | works hworks hsame =>
    obtain ⟨l', rfl, hdeaf⟩ := hworks.deaf hkeeps hphase hlink
    exact ⟨hsame.phase ▸ hphase, l', hsame.link, hdeaf⟩
  | posts hopen hsame =>
    exact ⟨hsame.phase ▸ hphase, l, hsame.link.trans hlink, rfl, List.prefix_rfl⟩
  | asks hopen hclosed hsame =>
    exact ⟨hsame.phase ▸ hphase, l, hsame.link.trans hlink, rfl, List.prefix_rfl⟩
  | shuts hclosing hresult hclosed hsame =>
    obtain ⟨-, hinbox, hpieces⟩ := l.shutdown_bytes
    refine ⟨?_, { l.shutdown.2 with released := true }, ?_, hinbox, hpieces ▸ List.prefix_rfl⟩
    · rw [hsame.phase]
      exact nofun
    · rw [hsame.link, hlink]
      rfl
  | reads hrunning => exact absurd hrunning hphase
  | breaks hrunning => exact absurd hrunning hphase

/-! ## From the wish to close to the answer -/

/-- Nobody wished to close the session yet. -/
structure Unasked (s : Session) : Prop where
  phase : s.phase = .running ∨ s.phase = .closing none
  mailbox : ∃ requests : List Request, s.mailbox = requests.map .request
  closeResults : s.closeResults = []

/-- The wish to close is in the mailbox, behind requests that were mailed before. -/
structure Asking (closer : TaskId) (s : Session) : Prop where
  phase : s.phase = .running
  mailbox : ∃ requests : List Request, s.mailbox = requests.map .request ++ [.close closer]
  closeResults : s.closeResults = []

/-- The pump has read the wish to close, and the stream is not shut down yet. -/
structure Trying (closer : TaskId) (s : Session) : Prop where
  phase : s.phase = .closing (some closer)
  mailbox : s.mailbox = []
  closeResults : s.closeResults = []

/-- Nobody will be told how closing went: the pump broke, or it was closing before anybody wished
so. -/
structure Unheard (s : Session) : Prop where
  phase : s.phase = .closing none ∨ s.phase = .finished
  closeResults : s.closeResults = []

/-- The caller was told. -/
structure Told (closer : TaskId) (result : Except LinkError Unit) (s : Session) : Prop where
  phase : s.phase = .finished
  closeResults : s.closeResults = [(closer, result)]

/-- Requests in front of the mailbox are sent. -/
theorem readMail_requests (requests : List Request) (mails : List Mail) (link : Link) :
    readMail (requests.map .request ++ mails) link = readMail mails (link.sendAll requests) := by
  induction requests generalizing link with
  | nil => rfl
  | cons r requests ih => exact ih (link.send r)

/-- While the session is open, nobody wished to close it. -/
theorem Unasked.step (h : Unasked s) (hpumps : s.Pumps a posted written s')
    (hopen : s'.exchange.closed = false) : Unasked s' := by
  obtain ⟨hphase, ⟨requests, hmailbox⟩, hresults⟩ := h
  cases hpumps with
  | works hworks hsame =>
    exact ⟨hsame.phase ▸ hphase, ⟨requests, hsame.mailbox.trans hmailbox⟩,
      hsame.closeResults.trans hresults⟩
  | @posts _ _ _ r _ _ hsame =>
    refine ⟨hsame.phase ▸ hphase, ⟨requests ++ [r], ?_⟩, hsame.closeResults.trans hresults⟩
    rw [hsame.mailbox, hmailbox, List.map_append]
    rfl
  | reads hrunning hread hsame =>
    -- the mailbox is empty then
    rw [hmailbox, ← List.append_nil (requests.map _), readMail_requests] at hread
    cases hread
    refine ⟨?_, ⟨[], hsame.mailbox⟩, hsame.closeResults.trans hresults⟩
    rw [hsame.phase]
    dsimp only [phaseAfter]
    split
    · exact .inr rfl
    · exact .inl rfl
  | asks _ hclosed => cases hopen.symm.trans hclosed
  | breaks _ hclosed => cases hopen.symm.trans hclosed
  | shuts _ _ hclosed => cases hopen.symm.trans hclosed

/-- A caller wishes to close the session. If the pump is closing already, he will not hear of it. -/
theorem Unasked.close (h : Unasked s) (hopen : s.exchange.closed = false) (closer : TaskId) :
    (s.close closer).2.exchange.closed = true ∧
      (Asking closer (s.close closer).2 ∨ Unheard (s.close closer).2) := by
  obtain ⟨hphase, ⟨requests, hmailbox⟩, hresults⟩ := h
  obtain ⟨wished, hwished, hclose⟩ : ∃ wished : Session,
      wished = { s with
        exchange := s.exchange.shutdown .closed
        mailbox := s.mailbox ++ [.close closer] } ∧
      (s.close closer).2 = wished.rousePump := by
    refine ⟨_, rfl, ?_⟩
    rw [Session.close, hopen]
    rfl
  have hsame := samePump_rousePump wished
  have halike := alike_rousePump wished
  rw [hclose]
  subst hwished
  refine ⟨halike.closed.trans (s.exchange.ended_shutdown .closed).closed, ?_⟩
  obtain hrunning | hclosing := hphase
  · refine .inl ⟨hsame.phase.trans hrunning, ⟨requests, ?_⟩, hsame.closeResults.trans hresults⟩
    rw [hsame.mailbox, hmailbox]
  · exact .inr ⟨.inl (hsame.phase.trans hclosing), hsame.closeResults.trans hresults⟩

variable {closer : TaskId} {result : Except LinkError Unit}

/-- The wish to close stays in the mailbox until the pump reads it, or breaks. -/
theorem Asking.step (h : Asking closer s) (hclosed : s.exchange.closed = true)
    (hpumps : s.Pumps a posted written s') :
    Asking closer s' ∨ a = .takeMail ∧ Trying closer s' ∨ Unheard s' := by
  obtain ⟨hrunning, ⟨requests, hmailbox⟩, hresults⟩ := h
  cases hpumps with
  | works hworks hsame =>
    exact .inl ⟨hsame.phase.trans hrunning, ⟨requests, hsame.mailbox.trans hmailbox⟩,
      hsame.closeResults.trans hresults⟩
  | reads _ hread hsame =>
    rw [hmailbox, readMail_requests] at hread
    cases hread
    exact .inr (.inl ⟨rfl, hsame.phase, hsame.mailbox, hsame.closeResults.trans hresults⟩)
  | breaks _ _ hsame =>
    exact .inr (.inr ⟨.inr hsame.phase, hsame.closeResults.trans hresults⟩)
  | posts hopen => cases hclosed.symm.trans hopen
  | asks hopen => cases hclosed.symm.trans hopen
  | shuts hclosing => cases hrunning.symm.trans hclosing

/-- The pump tries to shut the link down until that comes to an end. -/
theorem Trying.step (h : Trying closer s) (hclosed : s.exchange.closed = true)
    (hpumps : s.Pumps a posted written s') :
    Trying closer s' ∨ ∃ result, a = .shutLink ∧ s.link.shutdown.1 = some result ∧
      s'.link = s.link.shutdown.2.release ∧ Told closer result s' := by
  obtain ⟨hphase, hmailbox, hresults⟩ := h
  cases hpumps with
  | works hworks hsame =>
    exact .inl ⟨hsame.phase.trans hphase, hsame.mailbox.trans hmailbox,
      hsame.closeResults.trans hresults⟩
  | shuts hclosing hresult _ hsame =>
    cases hphase.symm.trans hclosing
    refine .inr ⟨_, rfl, hresult, hsame.link, hsame.phase, ?_⟩
    rw [hsame.closeResults, hresults]
    rfl
  | posts hopen => cases hclosed.symm.trans hopen
  | asks hopen => cases hclosed.symm.trans hopen
  | reads hrunning => cases hphase.symm.trans hrunning
  | breaks hrunning => cases hphase.symm.trans hrunning

/-- Whom the pump does not tell, it will not tell later. -/
theorem Unheard.step (h : Unheard s) (hclosed : s.exchange.closed = true)
    (hpumps : s.Pumps a posted written s') : Unheard s' := by
  obtain ⟨hphase, hresults⟩ := h
  have hstopped : s.phase ≠ .running := by
    rintro hrunning
    rw [hrunning] at hphase
    simp at hphase
  cases hpumps with
  | works hworks hsame => exact ⟨hsame.phase ▸ hphase, hsame.closeResults.trans hresults⟩
  | shuts hclosing _ _ hsame =>
    -- nobody asked for it
    rw [hclosing] at hphase
    obtain hphase | hphase := hphase <;> cases hphase
    exact ⟨.inr hsame.phase, hsame.closeResults.trans hresults⟩
  | posts hopen => cases hclosed.symm.trans hopen
  | asks hopen => cases hclosed.symm.trans hopen
  | reads hrunning => exact absurd hrunning hstopped
  | breaks hrunning => exact absurd hrunning hstopped

/-- When the caller was told, the pump is done, and the far end alone has the stream. -/
theorem Told.step (h : Told closer result s) (hclosed : s.exchange.closed = true)
    (hpumps : s.Pumps a posted written s') (hkeeps : s.KeepsStream a) (hlink : s.link = .stream l) :
    Told closer result s' ∧ ∃ l', s'.link = .stream l' ∧ l.Meets l' := by
  obtain ⟨hphase, hresults⟩ := h
  cases hpumps with
  | works hworks hsame =>
    refine ⟨⟨hsame.phase.trans hphase, hsame.closeResults.trans hresults⟩, ?_⟩
    rw [hsame.link]
    cases hworks with
    | rests => exact ⟨l, hlink, [], _, _, _, _, by rw [List.append_nil]⟩
    | far =>
      obtain ⟨m, l', hm, hmeets, rfl⟩ := hkeeps
      cases hlink.symm.trans hm
      exact ⟨l', rfl, hmeets⟩
    | hears hrunning => cases hphase.symm.trans hrunning
    | flushes hrunning => cases hphase.symm.trans hrunning
    | waits hclosing => cases hphase.symm.trans hclosing
  | posts hopen => cases hclosed.symm.trans hopen
  | asks hopen => cases hclosed.symm.trans hopen
  | reads hrunning => cases hphase.symm.trans hrunning
  | breaks hrunning => cases hphase.symm.trans hrunning
  | shuts hclosing => cases hphase.symm.trans hclosing

end Session

/-! ## Runs -/

/-- The far end may do one thing after the other. -/
theorem StreamLink.Meets.trans {l l' l'' : StreamLink} (h : l.Meets l') (h' : l'.Meets l'') :
    l.Meets l'' := by
  obtain ⟨more, _, _, _, _, rfl⟩ := h
  obtain ⟨later, ending, accepts, onFlush, onShutdown, rfl⟩ := h'
  exact ⟨more ++ later, ending, accepts, onFlush, onShutdown, by rw [← List.append_assoc]⟩

namespace Usage

open Session (Shipped Unasked Asking Trying Unheard Told)

variable {u : Usage} {a : Action} {actions : List Action} {l₀ l : StreamLink} {closer : TaskId}
  {posted written : List Request} {result : Except LinkError Unit}

/-- Whether the far end leaves the link a byte stream in a run. -/
def OnStream (u : Usage) : List Action → Prop
  | [] => True
  | a :: actions => u.session.KeepsStream a ∧ (u.step a).OnStream actions

theorem onStream_append (u : Usage) (before after : List Action) :
    u.OnStream (before ++ after) ↔ u.OnStream before ∧ (u.run before).OnStream after := by
  induction before generalizing u with
  | nil => exact ⟨fun h => ⟨trivial, h⟩, And.right⟩
  | cons a before ih => simp only [List.cons_append, OnStream, ih, run_cons, and_assoc]

/-- The requests that the steps of a run give, in order. -/
def gather (f : Session → Action → List Request) (u : Usage) : List Action → List Request
  | [] => []
  | a :: actions => f u.session a ++ (u.step a).gather f actions

/-- Nothing is sent once the session has ended. -/
theorem gather_of_closed (hclosed : u.session.exchange.closed = true) (actions : List Action) :
    u.gather Session.posted actions = [] ∧ u.gather Session.written actions = [] := by
  induction actions generalizing u with
  | nil => exact ⟨rfl, rfl⟩
  | cons a actions ih =>
    obtain ⟨hposted, hwritten⟩ := sends_of_closed hclosed a
    obtain ⟨hlater, hlater'⟩ := ih (ended_step hclosed a)
    exact ⟨List.append_eq_nil_iff.2 ⟨hposted, hlater⟩, List.append_eq_nil_iff.2 ⟨hwritten, hlater'⟩⟩

/-- The frames that a run hands over were mailed to the pump, or it wrote them on its own. -/
theorem emitted_run (u : Usage) (actions : List Action) :
    ((u.run actions).emitted.map Parcel.frame).Perm (u.emitted.map Parcel.frame ++
      (u.gather Session.posted actions ++ u.gather Session.written actions)) := by
  induction actions generalizing u with
  | nil => simp [gather]
  | cons a actions ih =>
    refine (ih (u.step a)).trans ?_
    rw [emitted_step, gather, gather, List.append_assoc]
    refine List.Perm.append_left _ ?_
    -- what is mailed later comes before what the pump wrote in this step
    simp only [List.append_assoc]
    refine List.Perm.append_left _ ?_
    rw [← List.append_assoc, ← List.append_assoc]
    exact List.perm_append_comm.append_right _

theorem finished_run (h : u.session.phase = .finished) (actions : List Action) :
    (u.run actions).session.phase = .finished := by
  induction actions generalizing u with
  | nil => exact h
  | cons a actions ih => exact ih ((u.step_pumps a).finished h)

/-- All bytes on the stream are there until the pump is done. -/
theorem shipped_run (h : Shipped l₀ posted written u.session l) (hstream : u.OnStream actions)
    (hphase : (u.run actions).session.phase ≠ .finished) :
    ∃ l', Shipped l₀ (posted ++ u.gather Session.posted actions)
      (written ++ u.gather Session.written actions) (u.run actions).session l' := by
  induction actions generalizing u posted written l with
  | nil =>
    rw [gather, gather, List.append_nil, List.append_nil]
    exact ⟨l, h⟩
  | cons a actions ih =>
    obtain ⟨hkeeps, hlater⟩ := hstream
    -- a pump that is done now would be done in the end
    have hnext : (u.step a).session.phase ≠ .finished := fun hfinished =>
      hphase (finished_run hfinished actions)
    obtain ⟨l', hshipped⟩ := h.step (u.step_pumps a) hkeeps hnext
    obtain ⟨l'', hlast⟩ := ih hshipped hlater hphase
    rw [List.append_assoc, List.append_assoc] at hlast
    exact ⟨l'', hlast⟩

/-- Once the session has ended, nothing is added to them. -/
theorem shipped_ended (h : Shipped l₀ posted written u.session l)
    (hclosed : u.session.exchange.closed = true) (hstream : u.OnStream actions)
    (hphase : (u.run actions).session.phase ≠ .finished) :
    ∃ l', Shipped l₀ posted written (u.run actions).session l' := by
  have hlater := shipped_run h hstream hphase
  obtain ⟨hposted, hwritten⟩ := gather_of_closed hclosed actions
  rwa [hposted, hwritten, List.append_nil, List.append_nil] at hlater

/-- Closing the session puts nothing on the stream, and after it nothing is added. -/
theorem shipped_close (h : Shipped l₀ posted written u.session l)
    (hclosed : (u.step (.close closer)).session.exchange.closed = true)
    (hstream : u.OnStream (.close closer :: actions))
    (hphase : ((u.step (.close closer)).run actions).session.phase ≠ .finished) :
    ∃ l', Shipped l₀ posted written ((u.step (.close closer)).run actions).session l' := by
  obtain ⟨hkeeps, hlater⟩ := hstream
  have hnext : (u.step (.close closer)).session.phase ≠ .finished := fun hfinished =>
    hphase (finished_run hfinished actions)
  obtain ⟨l', hshipped⟩ := h.step (u.step_pumps (.close closer)) hkeeps hnext
  simp only [Session.posted, Session.written, List.append_nil] at hshipped
  exact shipped_ended hshipped hclosed hlater hphase

/-- A pump that is closing, or done, never reads from the stream again. -/
theorem deaf_run (hstream : u.OnStream actions) (hphase : u.session.phase ≠ .running)
    (hlink : u.session.link = .stream l) :
    (u.run actions).session.phase ≠ .running ∧ ∃ l', (u.run actions).session.link = .stream l' ∧
      l'.inbox = l.inbox ∧ l.pieces <+: l'.pieces := by
  induction actions generalizing u l with
  | nil => exact ⟨hphase, l, hlink, rfl, List.prefix_rfl⟩
  | cons a actions ih =>
    obtain ⟨hphase', l', hlink', hinbox, hpieces⟩ :=
      (u.step_pumps a).deaf hstream.1 hphase hlink
    obtain ⟨hlast, l'', hlink'', hinbox', hpieces'⟩ := ih hstream.2 hphase' hlink'
    exact ⟨hlast, l'', hlink'', hinbox'.trans hinbox, hpieces.trans hpieces'⟩

/-- While the session is open, nobody wished to close it. -/
theorem unasked_run (h : Unasked u.session) (hopen : (u.run actions).IsOpen) :
    Unasked (u.run actions).session := by
  induction actions generalizing u with
  | nil => exact h
  | cons a actions ih =>
    have hnext : (u.step a).IsOpen := IsOpen.of_run hopen
    exact ih (h.step (u.step_pumps a) hnext) hopen

/-- Whom the pump does not tell, it never tells. -/
theorem unheard_run (h : Unheard u.session) (hclosed : u.session.exchange.closed = true)
    (actions : List Action) : (u.run actions).session.closeResults = [] := by
  induction actions generalizing u with
  | nil => exact h.closeResults
  | cons a actions ih => exact ih (h.step hclosed (u.step_pumps a)) (ended_step hclosed a)

/-- When the caller was told, the pump is done, and the far end alone has the stream. -/
theorem told_run (h : Told closer result u.session) (hclosed : u.session.exchange.closed = true)
    (hstream : u.OnStream actions) (hlink : u.session.link = .stream l) :
    Told closer result (u.run actions).session ∧
      ∃ l', (u.run actions).session.link = .stream l' ∧ l.Meets l' := by
  induction actions generalizing u l with
  | nil => exact ⟨h, l, hlink, [], _, _, _, _, by rw [List.append_nil]⟩
  | cons a actions ih =>
    obtain ⟨hnext, l', hlink', hmeets⟩ := h.step hclosed (u.step_pumps a) hstream.1 hlink
    obtain ⟨hlast, l'', hlink'', hmeets'⟩ := ih hnext (ended_step hclosed a) hstream.2 hlink'
    exact ⟨hlast, l'', hlink'', hmeets.trans hmeets'⟩

/-- If the caller is told in the end, the pump stopped trying in some step. -/
theorem trying_run (h : Trying closer u.session) (hclosed : u.session.exchange.closed = true)
    (hheard : (u.run actions).session.closeResults ≠ []) :
    ∃ tries rest result, actions = tries ++ .shutLink :: rest ∧
      Trying closer (u.run tries).session ∧
      (u.run tries).session.link.shutdown.1 = some result ∧
      ((u.run tries).step .shutLink).session.link =
        (u.run tries).session.link.shutdown.2.release ∧
      Told closer result ((u.run tries).step .shutLink).session := by
  induction actions generalizing u with
  | nil => exact absurd h.closeResults hheard
  | cons a actions ih =>
    obtain hstill | ⟨result, rfl, hresult, hlink, htold⟩ := h.step hclosed (u.step_pumps a)
    · obtain ⟨tries, rest, result, rfl, hlast⟩ := ih hstill (ended_step hclosed a) hheard
      exact ⟨a :: tries, rest, result, rfl, hlast⟩
    · exact ⟨[], actions, result, rfl, h, hresult, hlink, htold⟩

/-- If the caller is told in the end, the pump read his wish in some step. -/
theorem asking_run (h : Asking closer u.session) (hclosed : u.session.exchange.closed = true)
    (hheard : (u.run actions).session.closeResults ≠ []) :
    ∃ waits later, actions = waits ++ .takeMail :: later ∧ Asking closer (u.run waits).session ∧
      Trying closer ((u.run waits).step .takeMail).session := by
  induction actions generalizing u with
  | nil => exact absurd h.closeResults hheard
  | cons a actions ih =>
    obtain hstill | ⟨rfl, htrying⟩ | hunheard := h.step hclosed (u.step_pumps a)
    · obtain ⟨waits, later, rfl, hlast⟩ := ih hstill (ended_step hclosed a) hheard
      exact ⟨a :: waits, later, rfl, hlast⟩
    · exact ⟨[], actions, rfl, h, htrying⟩
    · exact absurd (unheard_run hunheard (ended_step hclosed a) actions) hheard

/-- What becomes of a session on a byte stream that a caller closes. It is `u` when he does so, and
`v` when the pump takes his wish to close. After `tries` the stream is shut down, and `rest` comes
after that. -/
structure Drained (l₀ : StreamLink) (posted written : List Request) (closer : TaskId)
    (u v : Usage) (tries rest : List Action) : Prop where
  running : v.session.phase = .running
  taken : (v.step .takeMail).session.phase = .closing (some closer)
  /-- From then on nothing is read from the stream, and routing does nothing. -/
  deaf : ∃ l, (v.step .takeMail).session.link = .stream l ∧
    ∀ more later, tries ++ .shutLink :: rest = more ++ later →
      ((v.step .takeMail).run more).step .routeNext = (v.step .takeMail).run more ∧
      ∃ l', ((v.step .takeMail).run more).session.link = .stream l' ∧
        l'.inbox = l.inbox ∧ l.pieces <+: l'.pieces
  /-- The stream is shut down once, when the server has all bytes of what was sent: of the requests
  that had been mailed, in order, and of what the pump had written on its own. -/
  shut : ∃ l l' l'' sent,
    ((v.step .takeMail).run tries).session.link = .stream l ∧
    (((v.step .takeMail).run tries).step .shutLink).session.link = .stream l' ∧
    ((((v.step .takeMail).run tries).step .shutLink).run rest).session.link = .stream l'' ∧
    l.shutdowns = l₀.shutdowns ∧ l'.shutdowns = l₀.shutdowns + 1 ∧
    Interleaves posted written sent ∧ sent.Perm (u.emitted.map Parcel.frame) ∧
    l'.accepted = l₀.accepted ++ l₀.outbox ++ sent.flatMap Request.encode ∧ l'.outbox = [] ∧
    -- nothing of that changes later
    l''.accepted = l'.accepted ∧ l''.outbox = [] ∧ l''.shutdowns = l'.shutdowns
  /-- Nothing is sent after the wish to close, -/
  emitted : ((((v.step .takeMail).run tries).step .shutLink).run rest).emitted = u.emitted
  /-- and what waited for a box then was not sent before. -/
  unsent : ∀ w ∈ u.session.exchange.waitlist.line, ∀ p ∈ u.emitted, p.receivers ≠ some w.receivers

/-- A pump that is closing does not hear what comes, and does not route it. -/
private theorem deaf_until (hstream : u.OnStream actions) (hphase : u.session.phase ≠ .running)
    (hlink : u.session.link = .stream l) {more later : List Action}
    (hsplit : actions = more ++ later) :
    (u.run more).step .routeNext = u.run more ∧
      ∃ l', (u.run more).session.link = .stream l' ∧ l'.inbox = l.inbox ∧
        l.pieces <+: l'.pieces := by
  rw [hsplit, onStream_append] at hstream
  obtain ⟨hstopped, hdeaf⟩ := deaf_run hstream.1 hphase hlink
  exact ⟨if_neg hstopped, hdeaf⟩

/-- A caller closes an open session and is told that this went well. -/
private theorem drained_close (hshipped : Shipped l₀ posted written u.session l)
    (hunasked : Unasked u.session) (hopen : u.IsOpen) (hcustody : u.InCustody)
    (hemitted : (u.emitted.map Parcel.frame).Perm (posted ++ written)) {after : List Action}
    (hstream : u.OnStream (.close closer :: after))
    (hheard : (u.run (.close closer :: after)).session.closeResult? closer = some (.ok ())) :
    ∃ waits tries rest, after = waits ++ .takeMail :: (tries ++ .shutLink :: rest) ∧
      Drained l₀ posted written closer u ((u.step (.close closer)).run waits) tries rest := by
  have hheard' : (u.run (.close closer :: after)).session.closeResults ≠ [] := by
    intro hnil
    rw [Session.closeResult?, hnil] at hheard
    cases hheard
  obtain ⟨hclosed, hasking⟩ := hunasked.close hopen closer
  -- the wish is in the mailbox, or the caller would not have been told
  replace hasking : Asking closer (u.step (.close closer)).session :=
    hasking.resolve_right fun hunheard => hheard' (unheard_run hunheard hclosed after)
  obtain ⟨waits, later, rfl, hwaiting, htrying⟩ := asking_run hasking hclosed hheard'
  have hclosed' := ended_run (u := u.step (.close closer)) hclosed waits
  rw [run_cons, run_append, run_cons] at hheard hheard'
  obtain ⟨tries, rest, result, rfl, hlast, hresult, hreleased, htold⟩ :=
    trying_run htrying (ended_step hclosed' .takeMail) hheard'
  refine ⟨waits, tries, rest, rfl, ?_⟩
  rw [OnStream, onStream_append] at hstream
  obtain ⟨hkeeps, hwaits, hkeeps', htries⟩ := hstream
  -- what is on the stream when the pump takes the wish to close, and when it stops trying
  have htakes : u.OnStream (.close closer :: (waits ++ [.takeMail])) :=
    ⟨hkeeps, (onStream_append _ _ _).2 ⟨hwaits, hkeeps', trivial⟩⟩
  obtain ⟨l₁, hshipped₁⟩ := shipped_close hshipped hclosed htakes
    (by simp [run_append, run_cons, run_nil, htrying.phase])
  rw [run_append, run_cons, run_nil] at hshipped₁
  generalize hv : (u.step (.close closer)).run waits = v at *
  have hclosed₁ := ended_step hclosed' .takeMail
  obtain ⟨l₂, hshipped₂⟩ := shipped_ended hshipped₁ hclosed₁ ((onStream_append _ _ _).1 htries).1
    (by simp [hlast.phase])
  have hstopped : (v.step .takeMail).session.phase ≠ .running := by
    simp [htrying.phase]
  -- the stream after it was shut down, and in the end
  rw [hshipped₂.link] at hresult hreleased
  have hclosed₂ := ended_step (ended_run hclosed₁ tries) .shutLink
  obtain ⟨htold', l₃, hlink₃, hmeets⟩ := told_run htold hclosed₂
    ((onStream_append _ _ _).1 htries).2.2 hreleased
  have hok : l₂.shutdown.1 = some (.ok ()) := by
    rw [run_append, run_cons, Session.closeResult?, htold'.closeResults] at hheard
    simp only [List.find?_cons, decide_true, Option.map_some] at hheard
    exact hresult.trans hheard
  obtain ⟨hcount, houtbox, sent, hmixed, hbytes⟩ := hshipped₂.shut hlast.mailbox hok
  obtain ⟨_, _, _, _, _, rfl⟩ := hmeets
  exact {
    running := hwaiting.phase
    taken := htrying.phase
    deaf := ⟨l₁, hshipped₁.link, fun more later => deaf_until htries hstopped hshipped₁.link⟩
    shut := ⟨l₂, _, _, sent, hshipped₂.link, hreleased, hlink₃, hshipped₂.shutdowns, hcount,
      hmixed, hmixed.perm.trans hemitted.symm, hbytes, houtbox, rfl, houtbox, rfl⟩
    emitted := by
      have hnotes := (notes_of_closed (u := u.step (.close closer)) hclosed
        (waits ++ .takeMail :: (tries ++ .shutLink :: rest))).2
      rwa [run_append, hv, run_cons, run_append, run_cons] at hnotes
    unsent := fun w hw p hp hreceivers =>
      hcustody.not_sent hw (List.mem_filterMap.2 ⟨p, hp, hreceivers⟩) }

/-- Closing a session sends what has a box, and nothing else. In any session on a byte stream, with
whatever callers, consumers and the far end do: if a caller closes it and is told that this went
well, then all that had been sent left whole, the stream was shut down behind it, and nothing that
waited was sent. -/
theorem drained_run (settings : Settings) (l₀ : StreamLink) (id : UInt64)
    (before : List Action) (closer : TaskId) (after : List Action)
    (hstream : (start settings (.stream l₀) id).OnStream (before ++ .close closer :: after))
    (hopen : ((start settings (.stream l₀) id).run before).IsOpen)
    (hheard : ((start settings (.stream l₀) id).run
      (before ++ .close closer :: after)).session.closeResult? closer = some (.ok ())) :
    ∃ waits tries rest, after = waits ++ .takeMail :: (tries ++ .shutLink :: rest) ∧
      Drained l₀ ((start settings (.stream l₀) id).gather Session.posted before)
        ((start settings (.stream l₀) id).gather Session.written before) closer
        ((start settings (.stream l₀) id).run before)
        ((((start settings (.stream l₀) id).run before).step (.close closer)).run waits)
        tries rest := by
  have hunasked : Unasked ((start settings (.stream l₀) id).run before).session :=
    unasked_run ⟨.inl rfl, ⟨[], rfl⟩, rfl⟩ hopen
  have haccounted : Accounted (start settings (.stream l₀) id) before :=
    (accounted_start settings (.stream l₀) id).run hopen
  rw [onStream_append] at hstream
  rw [run_append] at hheard
  -- the pump is not done while the session is open
  have hphase : ((start settings (.stream l₀) id).run before).session.phase ≠ .finished := by
    obtain hphase | hphase := hunasked.phase <;> rw [hphase] <;> exact nofun
  have hstart : Shipped l₀ [] [] (start settings (.stream l₀) id).session l₀ :=
    ⟨rfl, rfl, [], [], .nil, rfl, (List.append_nil _).symm⟩
  obtain ⟨l, hshipped⟩ := shipped_run hstart hstream.1 hphase
  exact drained_close hshipped hunasked hopen haccounted.custody
    (emitted_run (start settings (.stream l₀) id) before) hstream.2 hheard

/-- A session with one box on a stream that takes nine bytes at a time: what is done before it is
closed, and what after that. A reply frees the box for the second request, and the third one waits
in the end. -/
def slow : Usage × List Action × List Action :=
  let s := start (({} : Environment).settings.withResponseBoxes 1)
    (.stream { accepts := fun _ => [.upTo 9, .blocked] }) 0
  let sent := [.submit .statement 1 [5], .submit .statement 1 [6], .submit .statement 1 [7],
    .takeMail, .flush]
  let reply := FarEnd.reply (some (.plain .payload 0 [])) none
  (s, sent ++ [.farEnd (reply.play (s.run sent).session.link).2.2 true, .routeNext],
    [.takeMail, .shutLink, .shutLink, .flush])

/-- `drained_run` in a session whose stream is slow: the pump has to try twice to shut it down, and
the request that waits is not sent. -/
theorem drained_run_slow :
    slow.1.OnStream (slow.2.1 ++ .close 4 :: slow.2.2) ∧ (slow.1.run slow.2.1).IsOpen ∧
    (slow.1.run (slow.2.1 ++ .close 4 :: slow.2.2)).session.closeResult? 4 = some (.ok ()) ∧
    (∃ waits tries rest, slow.2.2 = waits ++ .takeMail :: (tries ++ .shutLink :: rest) ∧
      Drained { accepts := fun _ => [.upTo 9, .blocked] } (slow.1.gather Session.posted slow.2.1)
        (slow.1.gather Session.written slow.2.1) 4 (slow.1.run slow.2.1)
        (((slow.1.run slow.2.1).step (.close 4)).run waits) tries rest) ∧
    slow.1.gather Session.posted slow.2.1 = [⟨.payload, 0, [1, 0, 5]⟩] ∧
    slow.1.gather Session.written slow.2.1 = [⟨.payload, 0, [1, 0, 6]⟩] ∧
    (slow.1.run slow.2.1).session.exchange.waitlist.line.map WaitingRequest.payload =
      [[1, 0, 7]] := by
  have hstream : slow.1.OnStream (slow.2.1 ++ .close 4 :: slow.2.2) :=
    ⟨trivial, trivial, trivial, trivial, trivial, Session.keepsStream_play rfl _ true,
      trivial, trivial, trivial, trivial, trivial, trivial, trivial⟩
  have hopen : (slow.1.run slow.2.1).session.exchange.closed = false := by decide +kernel
  have hheard :
      (slow.1.run (slow.2.1 ++ .close 4 :: slow.2.2)).session.closeResult? 4 = some (.ok ()) := by
    -- results can not be compared, but whether there is one
    have hresult : ((slow.1.run (slow.2.1 ++ .close 4 :: slow.2.2)).session.closeResult? 4).map
        Except.toOption = some (some ()) := by decide +kernel
    revert hresult
    generalize Session.closeResult? _ 4 = answer
    rcases answer with _ | _ | _ <;> simp [Except.toOption]
  exact ⟨hstream, hopen, hheard, drained_run _ _ _ _ _ _ hstream hopen hheard, by decide +kernel,
    by decide +kernel, by decide +kernel⟩

end Usage

end QueryLink
