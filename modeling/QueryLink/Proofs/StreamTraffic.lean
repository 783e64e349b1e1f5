import QueryLink.Proofs.FrameStream
import QueryLink.Proofs.ServerSide

/-!
# Traffic on a byte stream

Both directions of a byte stream, over any sequence of calls of the client and of steps of the
far end. What the client receives depends on the bytes the server wrote and on how the stream
ended, not on the pieces the bytes come in nor on the calls that have to wait. What the client
sends leaves in order and exactly once, whatever becomes of the single write calls: of the outbox
a write call is offered what the ones before it left, so it makes no difference whether it is
offered as one slice or as several.

## Key results

- `StreamLink.receive_spec`: what one receiving call answers and leaves
- `StreamLink.flatten_takes`: what the write calls take, and what stays in the outbox
- `Traffic.incoming_run`: the client receives the frames of the byte stream and then its ending
- `Traffic.outgoing_run`: no byte that is sent is lost, repeated or moved
-/

namespace QueryLink

open Script (FarEnd)

/-! ## What goes over a stream -/

namespace Script.FarEnd

/-- The bytes that a step of the far end puts on a stream. -/
def written : FarEnd → Bytes
  | reply (some r) _ => r.encode
  | raw bytes _ => bytes
  | _ => []

/-- Whether a step of the far end is something the server does to its direction of a stream. -/
def speaks : FarEnd → Bool
  | reply _ _ | raw _ _ | endOfStream | readError => true
  | _ => false

end Script.FarEnd

namespace StreamLink

/-- All bytes that arrived and were not received yet. -/
def unread (l : StreamLink) : Bytes :=
  l.inbox ++ l.pieces.flatten

/-- What the write calls of one attempt take, call by call: each takes some of the bytes that the
ones before it left. A call that takes nothing is the last one. -/
def takesOf : (plan : List Accept) → (buffer : Bytes) → List Bytes
  | .upTo n :: plan, buffer =>
    if buffer = [] ∨ n = 0 then [] else buffer.take n :: takesOf plan (buffer.drop n)
  | _, _ => []

/-- What the write calls would take if the outbox were flushed now. -/
def takes (l : StreamLink) : List Bytes :=
  takesOf (l.accepts l.outbox.length) l.outbox

end StreamLink

/-- A call of the client, or a step of the far end. -/
inductive Move where
  | far (step : FarEnd)
  | receive
  | send (r : Request)
  | flush
  | shutdown

/-- A byte stream together with all that went over it. -/
structure Traffic where
  link : StreamLink := {}
  /-- The bytes the server wrote. -/
  written : Bytes := []
  /-- What the receiving calls were answered, leaving out those that had to wait. -/
  answers : List (Except Cause (Option Reply)) := []
  /-- The requests the client sent. -/
  sent : List Request := []
  /-- The bytes the far end took, write call by write call. -/
  taken : List Bytes := []

namespace Traffic

/-- One move. A stream that ended brings nothing more. -/
def step (t : Traffic) : Move → Traffic
  | .far step =>
    if t.link.ending ≠ none ∧ step.speaks then t
    else { t with
      link := (FarEnd.playStream t.link step).2, written := t.written ++ step.written }
  | .receive =>
    { t with link := t.link.receive.2, answers := t.answers ++ t.link.receive.1.toList }
  | .send r => { t with link := t.link.send r, sent := t.sent ++ [r] }
  | .flush => { t with link := t.link.flush.2, taken := t.taken ++ t.link.takes }
  | .shutdown => { t with link := t.link.shutdown.2, taken := t.taken ++ t.link.takes }

/-- Any moves on a new stream. -/
def run (moves : List Move) : Traffic :=
  moves.foldl step {}

end Traffic

/-! ## Receiving -/

namespace Script.FarEnd

/-- What a step of the far end writes is there to be read. -/
theorem unread_playStream (step : FarEnd) (l : StreamLink) :
    (playStream l step).2.unread = l.unread ++ step.written := by
  have harrive : ∀ bytes size, (l.deliver bytes size).unread = l.unread ++ bytes := by
    intro bytes size
    show l.inbox ++ (l.deliver bytes size).pieces.flatten = l.inbox ++ l.pieces.flatten ++ bytes
    rw [l.flatten_deliver, List.append_assoc]
  cases step with
  | reply frame size =>
    cases frame with
    | none => exact (List.append_nil _).symm
    | some r => exact harrive r.encode size
  | raw bytes size => exact harrive bytes size
  | _ => exact (List.append_nil _).symm

/-- Other steps bring no bytes and do not end the stream. -/
theorem playStream_quiet {step : FarEnd} (h : step.speaks = false) (l : StreamLink) :
    step.written = [] ∧ (playStream l step).2.ending = l.ending := by
  cases step <;> first
    | exact ⟨rfl, rfl⟩
    | cases h

end Script.FarEnd

namespace StreamLink

/-- What one attempt answers depends on all bytes that can be read, taken together, and so does
what it leaves. -/
theorem receiveFrom_spec (ending : Option Ending) (pieces : List Bytes) (inbox : Bytes) :
    let r := receiveFrom ending pieces inbox
    let unread := inbox ++ pieces.flatten
    match Reply.decode unread with
    | .error e => r.answer = some (.error (.protocol (.frame e))) ∧
        r.inbox ++ r.pieces.flatten = unread
    | .ok (some (reply, rest)) => r.answer = some (.ok (some reply)) ∧
        r.inbox ++ r.pieces.flatten = rest
    | .ok none => r.answer = atEnd unread ending ∧ r.inbox ++ r.pieces.flatten = unread := by
  -- a frame or an error in the inbox is there whatever follows; otherwise a piece is read
  fun_induction receiveFrom ending pieces inbox with
  | case1 pieces inbox e hdecode =>
    simp [Reply.lawful.broken hdecode pieces.flatten]
  | case2 pieces inbox reply rest hdecode =>
    simp [Reply.lawful.whole hdecode pieces.flatten]
  | case3 inbox hdecode =>
    simp [hdecode]
  | case4 inbox hdecode piece pieces ih =>
    rwa [List.append_assoc] at ih

/-- What a receiving call answers and leaves, from the bytes that can be read. -/
theorem receive_spec (l : StreamLink) :
    match Reply.decode l.unread with
    | .error e => l.receive.1 = some (.error (.protocol (.frame e))) ∧
        l.receive.2.unread = l.unread
    | .ok (some (reply, rest)) => l.receive.1 = some (.ok (some reply)) ∧
        l.receive.2.unread = rest
    | .ok none => l.receive.1 = atEnd l.unread l.ending ∧ l.receive.2.unread = l.unread :=
  receiveFrom_spec l.ending l.pieces l.inbox

/-- Flushing does not touch what can be read. -/
theorem flush_incoming (l : StreamLink) :
    l.flush.2.unread = l.unread ∧ l.flush.2.ending = l.ending := by
  rw [flush_link]
  exact ⟨rfl, rfl⟩

/-- Neither does shutting down. -/
theorem shutdown_incoming (l : StreamLink) :
    l.shutdown.2.unread = l.unread ∧ l.shutdown.2.ending = l.ending := by
  obtain ⟨n, hn⟩ := l.shutdown_link
  rw [hn]
  exact l.flush_incoming

/-- The end of a stream brings no frame. -/
theorem atEnd_ne_frame (left : Bytes) (ending : Option Ending) (reply : Reply) :
    atEnd left ending ≠ some (.ok (some reply)) := by
  unfold atEnd
  split
  · simp
  · simp
  · split <;> simp

/-- A receiving call that finds no frame takes no byte, and it only answers where decoding stops
for good. -/
theorem receive_rest {l : StreamLink}
    (h : ∀ reply rest, Reply.decode l.unread ≠ .ok (some (reply, rest))) :
    l.receive.2.unread = l.unread ∧ (∀ reply, l.receive.1 ≠ some (.ok (some reply))) ∧
      (l.receive.1 ≠ none → (∃ e, Reply.decode l.unread = .error e) ∨
        Reply.decode l.unread = .ok none ∧ l.ending ≠ none) := by
  have hspec := l.receive_spec
  rcases hdecode : Reply.decode l.unread with e | _ | ⟨reply, rest⟩
  · rw [hdecode] at hspec
    exact ⟨hspec.2, by simp [hspec.1], fun _ => .inl ⟨e, rfl⟩⟩
  · rw [hdecode] at hspec
    refine ⟨hspec.2, by simp [hspec.1, atEnd_ne_frame], fun hanswer => .inr ⟨rfl, ?_⟩⟩
    intro hopen
    rw [hspec.1, hopen] at hanswer
    exact hanswer rfl
  · exact absurd hdecode (h reply rest)

/-- What the receiving call with the given number is answered, if the server wrote these bytes and
did that to the stream: a frame of the bytes for as long as there is one, afterwards how decoding
them stopped, or how the stream ended. Without an answer the call has to wait. -/
def verdict (written : Bytes) (ending : Option Ending) (n : Nat) :
    Option (Except Cause (Option Reply)) :=
  match Frame.decodeAll Reply.decode written with
  | (frames, error, left) =>
    match frames[n]?, error, ending, left with
    | some reply, _, _, _ => some (.ok (some reply))
    | none, some e, _, _ => some (.error (.protocol (.frame e)))
    | none, none, none, _ => none
    | none, none, some .endOfStream, [] => some (.ok none)
    | none, none, some .endOfStream, _ :: _ => some (.error (.link .unexpectedEnd))
    | none, none, some .reset, _ => some (.error (.link .connectionReset))

/-- Behind the frames a link answers by how the stream ended and what is left of the bytes. -/
theorem verdict_of_rest {written left : Bytes} {frames : List Reply} {n : Nat}
    (hall : Frame.decodeAll Reply.decode written = (frames, none, left))
    (hframe : frames[n]? = none) (ending : Option Ending) :
    verdict written ending n = atEnd left ending := by
  rw [verdict, hall]
  simp only [hframe]
  rcases ending with _ | _ | _
  · rfl
  · cases left <;> rfl
  · rfl

/-- An answer stays right when more bytes come. -/
theorem verdict_append {written : Bytes} {n : Nat} {answer : Except Cause (Option Reply)}
    (h : verdict written none n = some answer) (more : Bytes) :
    verdict (written ++ more) none n = some answer := by
  rcases hall : Frame.decodeAll Reply.decode written with ⟨frames, error, left⟩
  simp only [verdict, hall] at h ⊢
  cases error with
  | some e =>
    have hfinal := Reply.lawful.decodeAll_final (congrArg (·.2.1) hall) more
    rw [hfinal, hall]
    cases hframe : frames[n]? <;> simpa [hframe] using h
  | none =>
    cases hframe : frames[n]? with
    | none => simp [hframe] at h
    | some reply =>
      -- a frame that is there keeps its place
      have hlt : n < frames.length := (List.getElem?_eq_some_iff.1 hframe).1
      rw [Reply.lawful.decodeAll_append, hall]
      simpa only [Frame.after, List.getElem?_append_left hlt, hframe] using h

/-- An answer stays right when the stream ends. -/
theorem verdict_ending {written : Bytes} {n : Nat} {answer : Except Cause (Option Reply)}
    (h : verdict written none n = some answer) (ending : Option Ending) :
    verdict written ending n = some answer := by
  unfold verdict at h ⊢
  rcases hall : Frame.decodeAll Reply.decode written with ⟨frames, error, left⟩
  rw [hall] at h
  cases hframe : frames[n]? <;> cases error <;> simp_all

end StreamLink

namespace Traffic

variable {t : Traffic}

/-- The frames the client received. -/
def frames (t : Traffic) : List Reply :=
  t.answers.filterMap fun
    | .ok reply => reply
    | .error _ => none

/-- What the client received so far and what it can still read, against what the server wrote. -/
structure Received (t : Traffic) : Prop where
  /-- Decoding everything is decoding what was received and then what was not. -/
  decoded (more : Bytes) : Frame.decodeAll Reply.decode (t.written ++ more) =
    Frame.after t.frames (Frame.decodeAll Reply.decode (t.link.unread ++ more))
  /-- Each answer is the one that the bytes call for. -/
  answered {n : Nat} {answer : Except Cause (Option Reply)} (h : t.answers[n]? = some answer) :
    StreamLink.verdict t.written t.link.ending n = some answer
  /-- An answer that is no frame is given only where decoding stops for good. -/
  stopped (h : t.frames.length < t.answers.length) :
    (∃ e, Reply.decode t.link.unread = .error e) ∨
      Reply.decode t.link.unread = .ok none ∧ t.link.ending ≠ none

/-- Not every answer is a frame. -/
theorem length_frames_le (t : Traffic) : t.frames.length ≤ t.answers.length :=
  List.length_filterMap_le _ _

/-- While the client finds a frame, all answers it got were frames. -/
theorem Received.length_frames (h : Received t) {reply : Reply} {rest : Bytes}
    (hdecode : Reply.decode t.link.unread = .ok (some (reply, rest))) :
    t.frames.length = t.answers.length := by
  apply Nat.le_antisymm t.length_frames_le
  apply Nat.le_of_not_lt
  intro hlt
  have hstopped := h.stopped hlt
  simp [hdecode] at hstopped

/-- The next call is answered as the bytes call for. -/
theorem Received.next (h : Received t) :
    t.link.receive.1 = StreamLink.verdict t.written t.link.ending t.answers.length := by
  have hspec := t.link.receive_spec
  have hdecoded := h.decoded []
  simp only [List.append_nil] at hdecoded
  -- without a whole frame ahead every frame of the bytes was received
  have hnone : t.frames[t.answers.length]? = none :=
    List.getElem?_eq_none t.length_frames_le
  rcases hdecode : Reply.decode t.link.unread with e | _ | ⟨reply, rest⟩
  · rw [hdecode] at hspec
    rw [StreamLink.verdict, hdecoded, hspec.1, Frame.decodeAll_error hdecode]
    simp [Frame.after, hnone]
  · rw [hdecode] at hspec
    have hall : Frame.decodeAll Reply.decode t.written = (t.frames, none, t.link.unread) := by
      rw [hdecoded, Frame.decodeAll_none hdecode]
      simp [Frame.after]
    rw [hspec.1, StreamLink.verdict_of_rest hall hnone]
  · rw [hdecode] at hspec
    rw [StreamLink.verdict, hdecoded, hspec.1, Reply.lawful.decodeAll_some hdecode,
      ← h.length_frames hdecode]
    simp [Frame.after]

/-- The answer that a receiving call adds is the one the bytes call for. -/
theorem Received.answered_receive (h : Received t) {n : Nat}
    {answer : Except Cause (Option Reply)}
    (hget : (t.answers ++ t.link.receive.1.toList)[n]? = some answer) :
    StreamLink.verdict t.written t.link.ending n = some answer := by
  rcases Nat.lt_or_ge n t.answers.length with hlt | hge
  · rw [List.getElem?_append_left hlt] at hget
    exact h.answered hget
  · rw [List.getElem?_append_right hge] at hget
    cases hanswer : t.link.receive.1 with
    | none => simp [hanswer] at hget
    | some last =>
      -- only the first place behind the answers there were is taken
      obtain ⟨hlt, rfl⟩ : n - t.answers.length < 1 ∧ last = answer := by
        simpa [hanswer, List.getElem?_singleton] using hget
      obtain rfl : n = t.answers.length := by omega
      rw [← h.next, hanswer]

/-- Receiving a frame keeps the account. -/
theorem Received.receive_frame (h : Received t) {reply : Reply} {rest : Bytes}
    (hdecode : Reply.decode t.link.unread = .ok (some (reply, rest))) :
    Received (t.step .receive) := by
  have hspec := t.link.receive_spec
  rw [hdecode] at hspec
  obtain ⟨hanswer, hunread⟩ := hspec
  have hframes : (t.step .receive).frames = t.frames ++ [reply] := by
    simp [frames, step, hanswer]
  refine ⟨fun more => ?_, h.answered_receive, fun hlt => ?_⟩
  · rw [hframes, Frame.after_append]
    show Frame.decodeAll Reply.decode (t.written ++ more) =
      Frame.after t.frames (Frame.after [reply]
        (Frame.decodeAll Reply.decode (t.link.receive.2.unread ++ more)))
    rw [h.decoded, hunread, Reply.lawful.decodeAll_some (Reply.lawful.whole hdecode more)]
    rfl
  · -- all answers are frames, this one included
    have hanswers : (t.step .receive).answers = t.answers ++ [.ok (some reply)] := by
      simp [step, hanswer]
    rw [hframes, hanswers, List.length_append, List.length_append, h.length_frames hdecode] at hlt
    simp at hlt

/-- A receiving call that finds no frame keeps the account. -/
theorem Received.receive_rest (h : Received t)
    (hdecode : ∀ reply rest, Reply.decode t.link.unread ≠ .ok (some (reply, rest))) :
    Received (t.step .receive) := by
  obtain ⟨hunread, hanswer, hstops⟩ := StreamLink.receive_rest hdecode
  have hframes : (t.step .receive).frames = t.frames := by
    rcases hreceive : t.link.receive.1 with _ | _ | _ | reply
    · simp [frames, step, hreceive]
    · simp [frames, step, hreceive]
    · simp [frames, step, hreceive]
    · exact absurd hreceive (hanswer reply)
  refine ⟨fun more => ?_, h.answered_receive, fun hlt => ?_⟩
  · rw [hframes]
    show Frame.decodeAll Reply.decode (t.written ++ more) =
      Frame.after t.frames (Frame.decodeAll Reply.decode (t.link.receive.2.unread ++ more))
    rw [hunread, h.decoded]
  · show (∃ e, Reply.decode t.link.receive.2.unread = .error e) ∨
      Reply.decode t.link.receive.2.unread = .ok none ∧ t.link.ending ≠ none
    rw [hunread]
    by_cases hwaits : t.link.receive.1 = none
    · -- no answer was added
      rw [hframes] at hlt
      simp only [step, hwaits, Option.toList_none, List.append_nil] at hlt
      exact h.stopped hlt
    · exact hstops hwaits

/-- Receiving keeps the account. -/
theorem Received.receive (h : Received t) : Received (t.step .receive) := by
  by_cases hframe : ∃ reply rest, Reply.decode t.link.unread = .ok (some (reply, rest))
  · obtain ⟨reply, rest, hdecode⟩ := hframe
    exact h.receive_frame hdecode
  · apply h.receive_rest
    intro reply rest hdecode
    exact hframe ⟨reply, rest, hdecode⟩

/-- What concerns neither the bytes of the server nor the answers keeps the account. -/
theorem Received.of_eq {t' : Traffic} (h : Received t) (hwritten : t'.written = t.written)
    (hanswers : t'.answers = t.answers) (hunread : t'.link.unread = t.link.unread)
    (hending : t'.link.ending = t.link.ending) : Received t' := by
  have hframes : t'.frames = t.frames := by rw [frames, frames, hanswers]
  refine ⟨fun more => ?_, fun hget => ?_, fun hlt => ?_⟩
  · rw [hwritten, hframes, hunread]
    exact h.decoded more
  · rw [hwritten, hending]
    exact h.answered (hanswers ▸ hget)
  · rw [hunread, hending]
    rw [hframes, hanswers] at hlt
    exact h.stopped hlt

/-- On an open stream the far end may write, and end the stream. -/
theorem Received.far (h : Received t) (hopen : t.link.ending = none) (step : FarEnd) :
    Received { t with
      link := (FarEnd.playStream t.link step).2, written := t.written ++ step.written } := by
  have hunread := step.unread_playStream t.link
  refine ⟨fun more => ?_, fun {n answer} hget => ?_, fun hlt => ?_⟩
  · show Frame.decodeAll Reply.decode (t.written ++ step.written ++ more) =
      Frame.after t.frames
        (Frame.decodeAll Reply.decode ((FarEnd.playStream t.link step).2.unread ++ more))
    rw [hunread, List.append_assoc, List.append_assoc, h.decoded]
  · have hanswered := h.answered hget
    rw [hopen] at hanswered
    exact StreamLink.verdict_ending (StreamLink.verdict_append hanswered step.written) _
  · -- only bytes that are no frame stopped decoding, and no more bytes mend them
    rcases h.stopped hlt with ⟨e, herror⟩ | ⟨-, hended⟩
    · refine .inl ⟨e, ?_⟩
      rw [hunread]
      exact Reply.lawful.broken herror _
    · exact absurd hopen hended

/-- Every move keeps the account. -/
theorem Received.step (h : Received t) (move : Move) : Received (t.step move) := by
  cases move with
  | receive => exact h.receive
  | send r => exact h.of_eq rfl rfl rfl rfl
  | flush =>
    obtain ⟨hunread, hending⟩ := t.link.flush_incoming
    exact h.of_eq rfl rfl hunread hending
  | shutdown =>
    obtain ⟨hunread, hending⟩ := t.link.shutdown_incoming
    exact h.of_eq rfl rfl hunread hending
  | far step =>
    simp only [Traffic.step]
    split
    · exact h
    · rename_i hheard
      by_cases hopen : t.link.ending = none
      · exact h.far hopen step
      · -- the stream ended, so the step changes how the far end treats writing at most
        have hquiet : step.speaks = false := by simpa [hopen] using hheard
        obtain ⟨hwritten, hending⟩ := FarEnd.playStream_quiet hquiet t.link
        refine h.of_eq ?_ rfl ?_ hending
        · rw [hwritten, List.append_nil]
        · rw [step.unread_playStream, hwritten, List.append_nil]

/-- What a client receives on a byte stream. -/
structure Incoming (t : Traffic) : Prop where
  /-- The calls that were answered got the frames of the bytes the server wrote, in order, and
  after them how decoding stopped. -/
  answered (n : Nat) (h : n < t.answers.length) :
    t.answers[n]? = StreamLink.verdict t.written t.link.ending n
  /-- So does the next call, which waits only if more bytes, or an ending, can still come. -/
  next : t.link.receive.1 = StreamLink.verdict t.written t.link.ending t.answers.length
  /-- The bytes of the received frames and those not received yet are all bytes there were. -/
  conserved : t.frames.flatMap Reply.encode ++ t.link.unread = t.written
  /-- A call that waits takes no byte. -/
  patient (h : t.link.receive.1 = none) : t.link.receive.2.unread = t.link.unread

theorem Received.conserved (h : Received t) :
    t.frames.flatMap Reply.encode ++ t.link.unread = t.written := by
  have hwritten := Reply.lawful.encode_decodeAll t.written
  have hunread := Reply.lawful.encode_decodeAll t.link.unread
  have hdecoded := h.decoded []
  simp only [List.append_nil] at hdecoded
  calc t.frames.flatMap Reply.encode ++ t.link.unread
      = t.frames.flatMap Reply.encode ++
          ((Frame.decodeAll Reply.decode t.link.unread).1.flatMap Reply.encode ++
            (Frame.decodeAll Reply.decode t.link.unread).2.2) := by rw [hunread]
    _ = (Frame.decodeAll Reply.decode t.written).1.flatMap Reply.encode ++
          (Frame.decodeAll Reply.decode t.written).2.2 := by
        rw [hdecoded, Frame.after, List.flatMap_append, List.append_assoc]
    _ = t.written := hwritten

theorem Received.incoming (h : Received t) : Incoming t where
  answered n hlt := by
    obtain ⟨answer, hget⟩ : ∃ answer, t.answers[n]? = some answer :=
      ⟨_, List.getElem?_eq_getElem hlt⟩
    rw [hget, h.answered hget]
  next := h.next
  conserved := h.conserved
  patient hwaits := by
    refine (StreamLink.receive_rest fun reply rest hdecode => ?_).1
    have hspec := t.link.receive_spec
    simp [hdecode, hwaits] at hspec

/-- Whatever the server writes, in whatever pieces it comes, and however often the client has to
wait: the client receives exactly the frames of the byte stream and then, again and again, how it
stops: the end of the stream between two frames, its end within a frame, or at once the bytes that
are no frame. -/
theorem incoming_run (moves : List Move) : Incoming (run moves) := by
  apply Received.incoming
  apply List.foldlRecOn moves step
  · exact ⟨fun _ => rfl, by simp, by simp [frames]⟩
  · exact fun t h move _ => h.step move

/-- A stream that ends within a frame is told from one that ends between two. -/
example :
    StreamLink.verdict [1, 0, 0, 9, 0, 0, 0, 120] (some .endOfStream) 0 =
        some (.error (.link .unexpectedEnd)) ∧
      StreamLink.verdict [] (some .endOfStream) 0 = some (.ok none) :=
  ⟨rfl, rfl⟩

end Traffic

/-! ## Sending -/

namespace StreamLink

/-- What the write calls take and what stays are the buffer. -/
theorem flatten_takesOf (plan : List Accept) (buffer : Bytes) :
    (takesOf plan buffer).flatten ++ (write plan buffer).1 = buffer := by
  -- the cases are those of `write`: nothing to write, no call, one that blocks or fails, one that
  -- takes nothing, and one after which the next is offered the rest
  fun_induction write plan buffer with
  | case1 plan => cases plan with
    | nil => rfl
    | cons accept plan => cases accept <;> simp [takesOf]
  | case2 buffer hne => simp [takesOf]
  | case3 buffer hne plan => simp [takesOf]
  | case4 buffer hne plan => simp [takesOf]
  | case5 buffer hne plan => simp [takesOf]
  | case6 buffer hne n plan hpos ih =>
    rw [takesOf, if_neg (by simp [hne, hpos]), List.flatten_cons, List.append_assoc, ih,
      List.take_append_drop]

/-- A write that succeeds leaves nothing. -/
theorem write_ok {plan : List Accept} {buffer : Bytes}
    (h : (write plan buffer).2 = some (.ok ())) : (write plan buffer).1 = [] := by
  fun_induction write plan buffer with
  | case1 plan => rfl
  | case6 buffer hne n plan hpos ih => exact ih h
  | _ => cases h

/-- What flushing takes and what stays in the outbox is what was in the outbox. -/
theorem flatten_takes (l : StreamLink) : l.takes.flatten ++ l.flush.2.outbox = l.outbox := by
  rw [flush_link]
  exact flatten_takesOf (l.accepts l.outbox.length) l.outbox

/-- The far end accepted what the write calls took. -/
theorem accepted_flush (l : StreamLink) :
    l.flush.2.accepted = l.accepted ++ l.takes.flatten := by
  have hbytes := l.writeOut_bytes
  rw [← flush_link, ← l.flatten_takes, ← List.append_assoc] at hbytes
  exact List.append_cancel_right hbytes

/-- Flushing succeeds only when everything was taken. -/
theorem outbox_of_flush_ok {l : StreamLink} (h : l.flush.1 = some (.ok ())) :
    l.flush.2.outbox = [] := by
  rw [flush_link]
  apply write_ok
  unfold flush at h
  split at h
  · rename_i hwritten
    exact congrArg Prod.fst hwritten
  · rename_i hne _
    -- the answer is that of a write, which did not succeed
    exact absurd h hne

/-- Without a flush that succeeds the stream is not shut down. -/
theorem shutdown_of_flush_ne {l : StreamLink} (h : l.flush.1 ≠ some (.ok ())) :
    l.shutdown = l.flush := by
  unfold shutdown
  split
  · rename_i hflushed
    exact absurd (congrArg Prod.fst hflushed) h
  · rename_i hflushed
    exact hflushed.symm

end StreamLink

namespace Traffic

variable {t : Traffic}

/-- What the far end took of what the client sent, and what it did not. -/
structure Kept (t : Traffic) : Prop where
  accepted : t.link.accepted = t.taken.flatten
  conserved : t.taken.flatten ++ t.link.outbox = t.sent.flatMap Request.encode

/-- A flush, or what has the same effect on the outbox, moves bytes from it to the far end. -/
theorem Kept.flush (h : Kept t) {t' : Traffic}
    (haccepted : t'.link.accepted = t.link.flush.2.accepted)
    (houtbox : t'.link.outbox = t.link.flush.2.outbox) (hsent : t'.sent = t.sent)
    (htaken : t'.taken = t.taken ++ t.link.takes) : Kept t' := by
  refine ⟨?_, ?_⟩
  · rw [haccepted, htaken, t.link.accepted_flush, h.accepted, List.flatten_append]
  · rw [houtbox, htaken, hsent, ← h.conserved, List.flatten_append, List.append_assoc,
      t.link.flatten_takes]

/-- Every move keeps all bytes. -/
theorem Kept.step (h : Kept t) (move : Move) : Kept (t.step move) := by
  cases move with
  | receive => exact ⟨h.accepted, h.conserved⟩
  | send r =>
    refine ⟨h.accepted, ?_⟩
    show t.taken.flatten ++ (t.link.outbox ++ r.encode) = (t.sent ++ [r]).flatMap Request.encode
    rw [← List.append_assoc, h.conserved, List.flatMap_append, List.flatMap_singleton]
  | flush => exact h.flush rfl rfl rfl rfl
  | shutdown =>
    obtain ⟨n, hn⟩ := t.link.shutdown_link
    refine h.flush ?_ ?_ rfl rfl
    · simp only [Traffic.step, hn]
    · simp only [Traffic.step, hn]
  | far step =>
    simp only [Traffic.step]
    split
    · exact h
    · -- no step of the far end reaches into what is on its way
      cases step with
      | reply frame size => cases frame <;> exact ⟨h.accepted, h.conserved⟩
      | _ => exact ⟨h.accepted, h.conserved⟩

/-- What becomes of what a client sends on a byte stream. -/
structure Outgoing (t : Traffic) : Prop where
  /-- The far end has what the write calls took, in that order. -/
  accepted : t.link.accepted = t.taken.flatten
  /-- What was taken, followed by the outbox, is everything that was sent, in order. -/
  conserved : t.taken.flatten ++ t.link.outbox = t.sent.flatMap Request.encode
  /-- A flush succeeds only when the outbox is empty. -/
  flushed (h : t.link.flush.1 = some (.ok ())) : t.link.flush.2.outbox = []
  /-- However a flush ends, it keeps what was not taken. -/
  kept : t.link.takes.flatten ++ t.link.flush.2.outbox = t.link.outbox
  /-- So does shutting down. -/
  keptShutdown : t.link.takes.flatten ++ t.link.shutdown.2.outbox = t.link.outbox
  /-- While flushing does not succeed, shutting down does nothing but flush. -/
  held (h : t.link.flush.1 ≠ some (.ok ())) : t.link.shutdown = t.link.flush
  /-- The stream is shut down only after all bytes that were sent had been taken. -/
  shut (move : Move) (h : (t.step move).link.shutdowns ≠ t.link.shutdowns) :
    (t.step move).link.outbox = [] ∧
      (t.step move).taken.flatten = (t.step move).sent.flatMap Request.encode

/-- Only shutting down shuts the stream down. -/
theorem shutdowns_step {move : Move}
    (h : (t.step move).link.shutdowns ≠ t.link.shutdowns) : move = .shutdown := by
  cases move with
  | shutdown => rfl
  | receive => exact absurd rfl h
  | send r => exact absurd rfl h
  | flush =>
    simp only [step, StreamLink.flush_link] at h
    exact absurd rfl h
  | far step =>
    simp only [Traffic.step] at h
    split at h
    · exact absurd rfl h
    · cases step with
      | reply frame size => cases frame <;> exact absurd rfl h
      | _ => exact absurd rfl h

theorem Kept.outgoing (h : Kept t) : Outgoing t where
  accepted := h.accepted
  conserved := h.conserved
  flushed := StreamLink.outbox_of_flush_ok
  kept := t.link.flatten_takes
  keptShutdown := by
    obtain ⟨n, hn⟩ := t.link.shutdown_link
    rw [hn]
    exact t.link.flatten_takes
  held := StreamLink.shutdown_of_flush_ne
  shut move hshut := by
    obtain rfl := shutdowns_step hshut
    -- the stream was shut down, so it had been flushed
    have hflushed : t.link.flush.1 = some (.ok ()) := by
      apply Classical.byContradiction
      intro hne
      simp only [Traffic.step, StreamLink.shutdown_of_flush_ne hne, StreamLink.flush_link] at hshut
      exact hshut rfl
    have houtbox : (t.step .shutdown).link.outbox = [] := by
      obtain ⟨n, hn⟩ := t.link.shutdown_link
      simp only [Traffic.step, hn]
      exact StreamLink.outbox_of_flush_ok hflushed
    have hconserved := (h.step .shutdown).conserved
    rw [houtbox, List.append_nil] at hconserved
    exact ⟨houtbox, hconserved⟩

/-- Whatever becomes of the write calls, the flushes and the shutdowns, and however they are mixed
with requests that are sent: no byte is lost, none goes out twice or ahead of another, and the
stream is shut down only behind the last one. -/
theorem outgoing_run (moves : List Move) : Outgoing (run moves) := by
  apply Kept.outgoing
  apply List.foldlRecOn moves step
  · exact ⟨rfl, rfl⟩
  · exact fun t h move _ => h.step move

end Traffic

end QueryLink
