import QueryLink.Link
import QueryLink.Proofs.FrameCodec

/-!
# What a link carries

The requests the client sent and the server has not got, and the replies the server sent and the
client has not got, in order: on a byte stream they are spread over buffers and pieces, in process
they are two queues. No operation of the client changes their order, loses one or makes one up,
unless it lets go of the link or the server's side of it goes away.

## Key results

- `Carries.send`, `Carries.flush`, `Carries.shutdown`: what the client sends is carried
- `Brings.receive`: the client gets what the server sent first
-/

namespace QueryLink

/-! ## Writing to a byte stream -/

/-- What a write leaves is the end of the buffer. -/
theorem StreamLink.write_left (plan : List Accept) (buffer : Bytes) :
    ∃ n, (write plan buffer).1 = buffer.drop n := by
  induction plan generalizing buffer with
  | nil =>
    unfold write
    split
    · exact ⟨buffer.length, by simp⟩
    · exact ⟨0, rfl⟩
  | cons accept plan ih =>
    unfold write
    split
    · exact ⟨buffer.length, by simp⟩
    · cases accept with
      | blocked => exact ⟨0, rfl⟩
      | failed => exact ⟨0, rfl⟩
      | upTo n =>
        -- a write that is accepted in part goes on with what is left
        simp only
        split
        · exact ⟨0, rfl⟩
        · obtain ⟨k, hk⟩ := ih (buffer.drop n)
          exact ⟨n + k, by rw [hk, List.drop_drop]⟩

/-- Bytes that leave the outbox are accepted. -/
theorem StreamLink.writeOut_bytes (l : StreamLink) :
    l.writeOut.2.accepted ++ l.writeOut.2.outbox = l.accepted ++ l.outbox := by
  obtain ⟨n, hn⟩ := write_left (l.accepts l.outbox.length) l.outbox
  simp only [writeOut, hn, List.append_assoc, List.append_cancel_left_eq]
  split
  · rename_i hnil
    rw [hnil, List.append_nil]
  · rename_i hne
    -- what is left is not empty, so its length says where it starts
    have hlt : n < l.outbox.length := by
      rw [List.drop_eq_nil_iff] at hne
      omega
    rw [List.length_drop, Nat.sub_sub_self (Nat.le_of_lt hlt), List.take_append_drop]

/-- Flushing writes the outbox out and changes nothing else. -/
theorem StreamLink.flush_link (l : StreamLink) : l.flush.2 = l.writeOut.2 := by
  unfold flush
  split
  · rename_i hwritten
    rw [hwritten]
  · rename_i hwritten
    rw [hwritten]

/-- Shutting down flushes, and is counted. -/
theorem StreamLink.shutdown_link (l : StreamLink) :
    ∃ n, l.shutdown.2 = { l.flush.2 with shutdowns := n } := by
  unfold shutdown
  split
  · rename_i hflushed
    rw [hflushed]
    simp only
    split
    · exact ⟨_, rfl⟩
    · exact ⟨_, rfl⟩
  · rename_i hflushed
    rw [hflushed]
    exact ⟨_, rfl⟩

namespace Link

/-! ## Requests -/

/-- The requests that were sent and that the server has not got, first one first. Of a link that
the client let go of, the server gets what was flushed; without an endpoint it gets nothing. -/
def Carries (link : Link) (undecoded : Bytes) (requests : List Request) : Prop :=
  (∀ r ∈ requests, r.payload.length ≤ maxPayload) ∧
    match link with
    | stream l => undecoded ++ (l.accepted ++ l.outbox) = requests.flatMap Request.encode
    | inProcess l => l.endpoint = true →
        if l.released then l.requests <+: requests else l.requests ++ l.outbox = requests

variable {link : Link} {undecoded : Bytes} {requests : List Request}

/-- What is sent on a link that was not let go of is carried last. -/
theorem Carries.send (h : link.Carries undecoded requests) (hkept : link.isReleased = false)
    {r : Request} (hr : r.payload.length ≤ maxPayload) :
    (link.send r).Carries undecoded (requests ++ [r]) := by
  obtain ⟨hsizes, hlink⟩ := h
  refine ⟨fun f hf => ?_, ?_⟩
  · obtain hf | hf := List.mem_append.1 hf
    · exact hsizes f hf
    · rwa [List.mem_singleton.1 hf]
  · cases link with
    | stream l =>
      -- the frame goes to the end of the outbox
      simp only [Link.send, StreamLink.send, List.flatMap_append, List.flatMap_singleton] at hlink ⊢
      rw [← hlink]
      simp only [List.append_assoc]
    | inProcess l =>
      -- without an endpoint there is nothing to say
      simp only [isReleased] at hkept
      simp only [Link.send, LocalLink.send, hkept, Bool.false_eq_true, if_false] at hlink ⊢
      intro hendpoint
      rw [← hlink hendpoint, List.append_assoc]

theorem isReleased_send (link : Link) (r : Request) :
    (link.send r).isReleased = link.isReleased := by
  cases link <;> rfl

/-- What is sent in order is carried in order. -/
theorem Carries.sendAll (h : link.Carries undecoded requests) (hkept : link.isReleased = false)
    {rs : List Request} (hrs : ∀ r ∈ rs, r.payload.length ≤ maxPayload) :
    (link.sendAll rs).Carries undecoded (requests ++ rs) := by
  induction rs generalizing link requests with
  | nil => rwa [List.append_nil]
  | cons r rs ih =>
    rw [List.forall_mem_cons] at hrs
    rw [List.append_cons]
    exact ih (h.send hkept hrs.1) ((isReleased_send link r).trans hkept) hrs.2

theorem isReleased_sendAll (link : Link) (rs : List Request) :
    (link.sendAll rs).isReleased = link.isReleased := by
  induction rs generalizing link with
  | nil => rfl
  | cons r rs ih => exact (ih (link.send r)).trans (isReleased_send link r)

/-- Flushing moves requests towards the server and keeps their order. -/
theorem Carries.flush (h : link.Carries undecoded requests) (hkept : link.isReleased = false) :
    link.flush.2.Carries undecoded requests := by
  refine ⟨h.1, ?_⟩
  cases link with
  | stream l =>
    have hlink := h.2
    simp only [Link.flush, StreamLink.flush_link, StreamLink.writeOut_bytes] at hlink ⊢
    exact hlink
  | inProcess l =>
    have hlink := h.2
    simp only [isReleased] at hkept
    simp only [Link.flush, LocalLink.flush, hkept, Bool.false_eq_true, if_false] at hlink ⊢
    -- a link that cannot be flushed stays as it is, one that can moves its outbox to the queue
    split
    · simpa [hkept] using hlink
    · split
      · simpa [hkept] using hlink
      · split
        · simpa [hkept] using hlink
        · -- the endpoint is gone
          rename_i hgone
          intro hendpoint
          exact absurd hendpoint hgone

theorem isReleased_flush (link : Link) : link.flush.2.isReleased = link.isReleased := by
  cases link with
  | stream l =>
    simp only [Link.flush, StreamLink.flush_link]
    rfl
  | inProcess l =>
    simp only [Link.flush, LocalLink.flush]
    split
    · rfl
    · split
      · rfl
      · split <;> rfl

/-- Shutting down loses no request. -/
theorem Carries.shutdown (h : link.Carries undecoded requests) (hkept : link.isReleased = false) :
    link.shutdown.2.Carries undecoded requests := by
  have hflushed := h.flush hkept
  refine ⟨h.1, ?_⟩
  cases link with
  | stream l =>
    obtain ⟨n, hn⟩ := l.shutdown_link
    simp only [Link.shutdown, hn]
    exact hflushed.2
  | inProcess l => exact hflushed.2

theorem isReleased_shutdown (link : Link) : link.shutdown.2.isReleased = link.isReleased := by
  have hflushed := isReleased_flush link
  cases link with
  | stream l =>
    obtain ⟨n, hn⟩ := l.shutdown_link
    simp only [Link.shutdown, hn]
    exact hflushed
  | inProcess l => exact hflushed

/-- A link that the client lets go of carries what it had flushed. -/
theorem Carries.release (h : link.Carries undecoded requests) (hkept : link.isReleased = false) :
    link.release.Carries undecoded requests := by
  refine ⟨h.1, ?_⟩
  cases link with
  | stream l => exact h.2
  | inProcess l =>
    have hlink := h.2
    simp only [isReleased] at hkept
    simp only [hkept, Bool.false_eq_true, if_false] at hlink
    intro hendpoint
    exact ⟨l.outbox, hlink hendpoint⟩

/-- Receiving replies does not touch the requests. -/
theorem Carries.receive (h : link.Carries undecoded requests) :
    link.receive.2.Carries undecoded requests := by
  refine ⟨h.1, ?_⟩
  cases link with
  | stream l => exact h.2
  | inProcess l =>
    have hlink := h.2
    simp only [Link.receive, LocalLink.receive]
    split <;> exact hlink

theorem isReleased_receive (link : Link) : link.receive.2.isReleased = link.isReleased := by
  cases link with
  | stream l => rfl
  | inProcess l =>
    simp only [Link.receive, LocalLink.receive]
    split <;> rfl

/-! ## Replies -/

/-- The replies that the server sent and that the client has not got, first one first. -/
def Brings (link : Link) (outgoing : Bytes) (replies : List Reply) : Prop :=
  match link with
  | stream l => (∀ r ∈ replies, r.Writable) ∧
      l.inbox ++ (l.pieces.flatten ++ outgoing) = replies.flatMap Reply.encode
  | inProcess l => l.replies = replies

variable {outgoing : Bytes} {replies : List Reply}

/-- Sending requests does not touch the replies. -/
theorem Brings.send (h : link.Brings outgoing replies) (r : Request) :
    (link.send r).Brings outgoing replies := by
  cases link <;> exact h

theorem Brings.sendAll (h : link.Brings outgoing replies) (rs : List Request) :
    (link.sendAll rs).Brings outgoing replies := by
  induction rs generalizing link with
  | nil => exact h
  | cons r rs ih => exact ih (h.send r)

/-- Flushing does not touch the replies. -/
theorem Brings.flush (h : link.Brings outgoing replies) : link.flush.2.Brings outgoing replies := by
  cases link with
  | stream l =>
    simp only [Link.flush, StreamLink.flush_link]
    exact h
  | inProcess l =>
    simp only [Link.flush, LocalLink.flush]
    split
    · exact h
    · split
      · exact h
      · split <;> exact h

theorem Brings.shutdown (h : link.Brings outgoing replies) :
    link.shutdown.2.Brings outgoing replies := by
  have hflushed := h.flush
  cases link with
  | stream l =>
    obtain ⟨n, hn⟩ := l.shutdown_link
    simp only [Link.shutdown, hn]
    exact hflushed
  | inProcess l => exact hflushed

/-- Reading pieces moves bytes into the inbox; a frame is taken from its front. -/
theorem StreamLink.receiveFrom_bytes (ending : Option Ending) (pieces : List Bytes)
    (inbox : Bytes) :
    let r := StreamLink.receiveFrom ending pieces inbox
    (∀ reply, r.answer = some (.ok (some reply)) → ∃ bs,
      Reply.decode bs = .ok (some (reply, r.inbox)) ∧
        bs ++ r.pieces.flatten = inbox ++ pieces.flatten) ∧
    (r.answer = none → r.inbox ++ r.pieces.flatten = inbox ++ pieces.flatten) := by
  induction pieces generalizing inbox with
  | nil =>
    unfold StreamLink.receiveFrom
    split
    · exact ⟨by simp, by simp⟩
    · rename_i reply rest hdecode
      refine ⟨fun reply' hreply => ?_, by simp⟩
      cases hreply
      exact ⟨inbox, hdecode, rfl⟩
    · -- no piece is left: the answer is what the stream ended with, which is no reply
      refine ⟨fun reply hreply => ?_, fun _ => rfl⟩
      simp only [StreamLink.atEnd] at hreply
      split at hreply
      · cases hreply
      · cases hreply
      · split at hreply <;> cases hreply
  | cons piece pieces ih =>
    unfold StreamLink.receiveFrom
    split
    · exact ⟨by simp, by simp⟩
    · rename_i reply rest hdecode
      refine ⟨fun reply' hreply => ?_, by simp⟩
      cases hreply
      exact ⟨inbox, hdecode, rfl⟩
    · -- no whole frame yet: the next piece joins the inbox
      have hmore := ih (inbox ++ piece)
      simpa only [List.flatten_cons, List.append_assoc] using hmore

/-- The client gets what the server sent first. -/
theorem Brings.receive (h : link.Brings outgoing replies) {r : Reply} {link' : Link}
    (hreceive : link.receive = (some (.ok (some r)), link')) :
    ∃ later, replies = r :: later ∧ link'.Brings outgoing later := by
  cases link with
  | stream l =>
    obtain ⟨hwritable, hlink⟩ := h
    simp only [Link.receive, StreamLink.receive, Prod.mk.injEq] at hreceive
    obtain ⟨hanswer, rfl⟩ := hreceive
    obtain ⟨bs, hdecode, hbytes⟩ :=
      (StreamLink.receiveFrom_bytes l.ending l.pieces l.inbox).1 r hanswer
    generalize hreceived : StreamLink.receiveFrom l.ending l.pieces l.inbox = received at *
    -- the frame that was decoded is the first one of all bytes to come, and that is the first reply
    have hmore := Reply.decode_append hdecode (received.pieces.flatten ++ outgoing)
    rw [← List.append_assoc, hbytes, List.append_assoc, hlink] at hmore
    rcases replies with _ | ⟨first, later⟩
    · cases hmore
    · rw [List.forall_mem_cons] at hwritable
      rw [List.flatMap_cons, Reply.decode_encode_append hwritable.1] at hmore
      simp only [Except.ok.injEq, Option.some.injEq, Prod.mk.injEq] at hmore
      obtain ⟨rfl, hrest⟩ := hmore
      exact ⟨later, rfl, hwritable.2, hrest.symm⟩
  | inProcess l =>
    simp only [Link.receive, LocalLink.receive] at hreceive
    -- the queue of replies holds what the server sent
    rcases hqueue : l.replies with _ | ⟨first, queue⟩
    · rw [hqueue] at hreceive
      cases hendpoint : l.endpoint <;> cases hresponder : l.responder <;>
        simp [hendpoint, hresponder] at hreceive
    · rw [hqueue] at hreceive
      cases hreceive
      exact ⟨queue, h.symm.trans hqueue, rfl⟩

/-- While nothing comes, nothing is lost. -/
theorem Brings.receive_none (h : link.Brings outgoing replies) {link' : Link}
    (hreceive : link.receive = (none, link')) : link'.Brings outgoing replies := by
  cases link with
  | stream l =>
    obtain ⟨hwritable, hlink⟩ := h
    simp only [Link.receive, StreamLink.receive, Prod.mk.injEq] at hreceive
    obtain ⟨hanswer, rfl⟩ := hreceive
    have hbytes := (StreamLink.receiveFrom_bytes l.ending l.pieces l.inbox).2 hanswer
    refine ⟨hwritable, ?_⟩
    rw [← hlink, ← List.append_assoc, hbytes, List.append_assoc]
  | inProcess l =>
    simp only [Link.receive, LocalLink.receive] at hreceive
    rcases hqueue : l.replies with _ | ⟨first, queue⟩
    · rw [hqueue] at hreceive
      simp only [Prod.mk.injEq] at hreceive
      obtain ⟨-, rfl⟩ := hreceive
      exact h
    · rw [hqueue] at hreceive
      cases hreceive

end Link

end QueryLink
