import QueryLink.Proofs.LinkCarriage
import QueryLink.Script.FarEnd

/-!
# The server's side of a link

The server takes requests from a link and sends replies, which on a byte stream are written first
and arrive later, in pieces. Its side of the link may also go away, or the stream may end, fail or
change how it accepts bytes; all that moves no request and no reply.

## Key results

- `Carries.next`: the server gets what the client sent first
- `Brings.reply`, `Brings.transmit`: what the server sends is brought, however it arrives
- `Carries.quiet`, `Brings.quiet`: what else the far end does changes nothing
-/

namespace QueryLink

/-! ## Pieces of bytes -/

/-- The pieces of bytes are the bytes. -/
private theorem StreamLink.flatten_chunks {n : Nat} (hn : n ≠ 0) {fuel : Nat} {bs : Bytes}
    (h : bs.length ≤ fuel) : (deliver.chunks n fuel bs).flatten = bs := by
  induction fuel generalizing bs with
  | zero =>
    obtain rfl : bs = [] := List.length_eq_zero_iff.1 (by omega)
    rfl
  | succ fuel ih =>
    unfold deliver.chunks
    split
    · rename_i hnil
      rw [hnil, List.flatten_nil]
    · rename_i hne
      -- a piece is not empty, so less is left than there was
      have hpos := List.length_pos_iff.2 hne
      have hdrop : (bs.drop n).length ≤ fuel := by
        rw [List.length_drop]
        omega
      rw [List.flatten_cons, ih hdrop, List.take_append_drop]

/-- Bytes that arrive can be read after those that arrived before. -/
theorem StreamLink.flatten_deliver (l : StreamLink) (bytes : Bytes) (size : Option Nat) :
    (l.deliver bytes size).pieces.flatten = l.pieces.flatten ++ bytes := by
  simp only [deliver, List.flatten_append, List.flatten_filter_ne_nil]
  cases size with
  | none => simp
  | some n =>
    simp only
    split
    · simp
    · rename_i hn
      rw [flatten_chunks hn (Nat.le_refl _)]

namespace Link

variable {link : Link} {undecoded outgoing : Bytes} {requests : List Request}
  {replies : List Reply}

/-! ## Taking requests -/

/-- The next request the server can get, what it has of the one after, and the link then. -/
def next? (undecoded : Bytes) : Link → Option (Request × Bytes × Link)
  | stream l =>
    match Request.decode (undecoded ++ l.accepted) with
    | .ok (some (r, rest)) => some (r, rest, stream { l with accepted := [] })
    | _ => none
  | inProcess l =>
    if !l.endpoint then none
    else match l.takeRequest with
      | (some (some r), l) => some (r, undecoded, inProcess l)
      | _ => none

/-- On a byte stream a request is decoded from what the client wrote. -/
private theorem next?_stream {l : StreamLink} {r : Request} {rest : Bytes} {link' : Link}
    (hnext : (stream l).next? undecoded = some (r, rest, link')) :
    Request.decode (undecoded ++ l.accepted) = .ok (some (r, rest)) ∧
      link' = stream { l with accepted := [] } := by
  simp only [next?] at hnext
  split at hnext
  · rename_i hdecode
    cases hnext
    exact ⟨hdecode, rfl⟩
  · cases hnext

/-- In process a request is taken from the queue, while there is an endpoint. -/
private theorem next?_inProcess {l : LocalLink} {r : Request} {rest : Bytes} {link' : Link}
    (hnext : (inProcess l).next? undecoded = some (r, rest, link')) :
    l.endpoint = true ∧ ∃ queue, l.requests = r :: queue ∧
      link' = inProcess { l with requests := queue } := by
  simp only [next?, LocalLink.takeRequest] at hnext
  split at hnext
  · cases hnext
  · rename_i hendpoint
    rw [Bool.not_eq_true, Bool.not_eq_false'] at hendpoint
    rcases hqueue : l.requests with _ | ⟨first, queue⟩
    · rw [hqueue] at hnext
      cases hsending : l.sending <;> simp [hsending] at hnext
    · rw [hqueue] at hnext
      cases hnext
      exact ⟨hendpoint, queue, rfl, rfl⟩

/-- The server gets what was sent first, and keeps the start of what comes next. -/
theorem Carries.next (h : link.Carries undecoded requests) {r : Request} {rest : Bytes}
    {link' : Link} (hnext : link.next? undecoded = some (r, rest, link')) :
    ∃ later, requests = r :: later ∧ link'.Carries rest later := by
  obtain ⟨hsizes, hlink⟩ := h
  cases link with
  | stream l =>
    obtain ⟨hdecode, rfl⟩ := next?_stream hnext
    -- what the client has not flushed yet does not change the request that was decoded
    have hmore := Request.decode_append hdecode l.outbox
    simp only at hlink
    rw [List.append_assoc, hlink] at hmore
    rcases requests with _ | ⟨first, later⟩
    · cases hmore
    · rw [List.forall_mem_cons] at hsizes
      rw [List.flatMap_cons, Request.decode_encode_append hsizes.1] at hmore
      simp only [Except.ok.injEq, Option.some.injEq, Prod.mk.injEq] at hmore
      obtain ⟨rfl, hrest⟩ := hmore
      exact ⟨later, rfl, hsizes.2, by simpa using hrest.symm⟩
  | inProcess l =>
    obtain ⟨hendpoint, queue, hqueue, rfl⟩ := next?_inProcess hnext
    have hqueued := hlink hendpoint
    rw [hqueue] at hqueued
    split at hqueued
    · -- of a link that was let go of, the queue is the start of what was sent
      rename_i hreleased
      rcases requests with _ | ⟨first, later⟩
      · exact absurd hqueued (by simp)
      · obtain ⟨rfl, hlater⟩ := List.cons_prefix_cons.1 hqueued
        rw [List.forall_mem_cons] at hsizes
        exact ⟨later, rfl, hsizes.2, by simpa [hreleased] using fun _ => hlater⟩
    · rename_i hkept
      subst hqueued
      rw [List.cons_append, List.forall_mem_cons] at hsizes
      exact ⟨queue ++ l.outbox, rfl, hsizes.2, by simp [hkept]⟩

theorem isReleased_next {r : Request} {rest : Bytes} {link' : Link}
    (hnext : link.next? undecoded = some (r, rest, link')) :
    link'.isReleased = link.isReleased := by
  cases link with
  | stream l =>
    obtain ⟨-, rfl⟩ := next?_stream hnext
    rfl
  | inProcess l =>
    obtain ⟨-, queue, -, rfl⟩ := next?_inProcess hnext
    rfl

/-- Taking requests does not touch the replies. -/
theorem Brings.next (h : link.Brings outgoing replies) {r : Request} {rest : Bytes} {link' : Link}
    (hnext : link.next? undecoded = some (r, rest, link')) : link'.Brings outgoing replies := by
  cases link with
  | stream l =>
    obtain ⟨-, rfl⟩ := next?_stream hnext
    exact h
  | inProcess l =>
    obtain ⟨-, queue, -, rfl⟩ := next?_inProcess hnext
    exact h

/-! ## Sending replies -/

/-- The server sends a reply: on a byte stream it is written after what was written before, and
only a frame that can be read back is. `none` when the link does not take it. -/
def reply? (outgoing : Bytes) (r : Reply) : Link → Option (Bytes × Link)
  | stream l =>
    if r.payload.length ≤ maxPayload ∧ (r.kind ≠ .resultSetPayload → r.writer = 0) then
      some (outgoing ++ r.encode, stream l)
    else none
  | inProcess l =>
    match l.reply r with
    | (.delivered, l) => some (outgoing, inProcess l)
    | _ => none

/-- The first `n` written bytes arrive at the client, in reads of a size if one is given. -/
def transmit (outgoing : Bytes) (n : Nat) (size : Option Nat) : Link → Bytes × Link
  | stream l => (outgoing.drop n, stream (l.deliver (outgoing.take n) size))
  | inProcess l => (outgoing, inProcess l)

/-- A reply that is delivered joins the queue. -/
private theorem LocalLink.reply_delivered {l l' : LocalLink} {r : Reply}
    (h : l.reply r = (.delivered, l')) : l' = { l with replies := l.replies ++ [r] } := by
  unfold QueryLink.LocalLink.reply at h
  split at h
  · cases h
  · split at h
    · cases h
    · split at h
      · cases h
      · cases h
        rfl

/-- On a byte stream the link stays as it is, and a reply that can be read back is written. -/
private theorem reply?_stream {l : StreamLink} {r : Reply} {outgoing' : Bytes} {link' : Link}
    (hreply : (stream l).reply? outgoing r = some (outgoing', link')) :
    r.Writable ∧ outgoing' = outgoing ++ r.encode ∧ link' = stream l := by
  simp only [reply?] at hreply
  split at hreply
  · rename_i hfits
    cases hreply
    exact ⟨⟨hfits.1, hfits.2⟩, rfl, rfl⟩
  · cases hreply

/-- In process a reply that is taken joins the queue. -/
private theorem reply?_inProcess {l : LocalLink} {r : Reply} {outgoing' : Bytes} {link' : Link}
    (hreply : (inProcess l).reply? outgoing r = some (outgoing', link')) :
    link' = inProcess { l with replies := l.replies ++ [r] } := by
  simp only [reply?] at hreply
  split at hreply
  · rename_i hdelivered
    cases hreply
    rw [LocalLink.reply_delivered hdelivered]
  · cases hreply

/-- A reply that the link takes is the last one it brings. -/
theorem Brings.reply (h : link.Brings outgoing replies) {r : Reply} {outgoing' : Bytes}
    {link' : Link} (hreply : link.reply? outgoing r = some (outgoing', link')) :
    link'.Brings outgoing' (replies ++ [r]) := by
  cases link with
  | stream l =>
    obtain ⟨hfits, rfl, rfl⟩ := reply?_stream hreply
    obtain ⟨hwritable, hbytes⟩ := h
    refine ⟨fun r' hr' => ?_, ?_⟩
    · obtain hr' | hr' := List.mem_append.1 hr'
      · exact hwritable r' hr'
      · rw [List.mem_singleton.1 hr']
        exact hfits
    · rw [List.flatMap_append, List.flatMap_singleton, ← hbytes]
      simp only [List.append_assoc]
  | inProcess l =>
    obtain rfl := reply?_inProcess hreply
    exact congrArg (· ++ [r]) h

/-- A reply does not touch the requests. -/
theorem Carries.reply (h : link.Carries undecoded requests) {r : Reply} {outgoing' : Bytes}
    {link' : Link} (hreply : link.reply? outgoing r = some (outgoing', link')) :
    link'.Carries undecoded requests ∧ link'.isReleased = link.isReleased := by
  cases link with
  | stream l =>
    obtain ⟨-, -, rfl⟩ := reply?_stream hreply
    exact ⟨h, rfl⟩
  | inProcess l =>
    obtain rfl := reply?_inProcess hreply
    exact ⟨h, rfl⟩

/-- Written bytes stay in order when some of them arrive. -/
theorem Brings.transmit (h : link.Brings outgoing replies) (n : Nat) (size : Option Nat) :
    (link.transmit outgoing n size).2.Brings (link.transmit outgoing n size).1 replies := by
  cases link with
  | stream l =>
    obtain ⟨hwritable, hbytes⟩ := h
    have harrived := l.flatten_deliver (outgoing.take n) size
    refine ⟨hwritable, ?_⟩
    rw [← hbytes, harrived, Link.transmit, List.append_assoc, List.take_append_drop]
    rfl
  | inProcess l => exact h

theorem Carries.transmit (h : link.Carries undecoded requests) (outgoing : Bytes) (n : Nat)
    (size : Option Nat) : (link.transmit outgoing n size).2.Carries undecoded requests := by
  cases link <;> exact h

theorem isReleased_transmit (link : Link) (outgoing : Bytes) (n : Nat) (size : Option Nat) :
    (link.transmit outgoing n size).2.isReleased = link.isReleased := by
  cases link <;> rfl

/-! ## What else the far end does -/

end Link

open Script (FarEnd)

/-- Whether a step of the far end neither takes a request nor sends anything. -/
def Script.FarEnd.isQuiet : FarEnd → Bool
  | reply _ _ => false
  | raw _ _ => false
  | takeRequest => false
  | _ => true

namespace Link

variable {link : Link} {undecoded outgoing : Bytes} {requests : List Request}
  {replies : List Reply} {step : FarEnd}

theorem Carries.quiet (h : link.Carries undecoded requests) (hquiet : step.isQuiet = true) :
    (step.play link).2.2.Carries undecoded requests := by
  refine ⟨h.1, ?_⟩
  have hlink := h.2
  cases link with
  | stream l =>
    cases step <;> first
      | exact hlink
      | cases hquiet
  | inProcess l =>
    -- without an endpoint the server gets nothing
    cases step <;> first
      | exact hlink
      | exact fun hendpoint => absurd hendpoint Bool.false_ne_true
      | cases hquiet

theorem Brings.quiet (h : link.Brings outgoing replies) (hquiet : step.isQuiet = true) :
    (step.play link).2.2.Brings outgoing replies := by
  cases link <;> cases step <;> first
    | exact h
    | cases hquiet

theorem isReleased_quiet (link : Link) (hquiet : step.isQuiet = true) :
    (step.play link).2.2.isReleased = link.isReleased := by
  cases link <;> cases step <;> first
    | rfl
    | cases hquiet

end Link

end QueryLink
