import QueryLink.Proofs.BoxTableLaws
import QueryLink.Proofs.Conversation

/-!
# Whose reply it is

While a session is open, every reply on its way belongs to a request that the server got and whose
box is still owned for it. `Served` says so for all boxes at once: a box is owned for a frame that
is on its way or for a case of the server, and the replies on their way to that box are those of
the case that the owner has not heard.

## Key results

- `Owner.Serves.next`: the next reply completes the promises it is for
- `Served.owner_of_answer`: a reply on its way finds its owner
- `Served.grant`, `Served.got_first`, `Served.answer`, `Served.hear`: each step keeps it so
-/

namespace QueryLink

/-! ## Replies on their way -/

/-- The replies to requests on their way to a box. -/
def answers (slot : UInt16) (inbound : List Reply) : List Reply :=
  inbound.filter fun r => decide (r.slot = slot ∧ (r.kind = .payload ∨ r.kind = .bodyHead))

@[simp] theorem answers_nil (slot : UInt16) : answers slot [] = [] := rfl

theorem answers_append (slot : UInt16) (inbound more : List Reply) :
    answers slot (inbound ++ more) = answers slot inbound ++ answers slot more :=
  List.filter_append ..

/-- What is no reply to a request is on its way to no box. -/
theorem answers_cons_other {r : Reply} (hkind : ¬(r.kind = .payload ∨ r.kind = .bodyHead))
    (slot : UInt16) (inbound : List Reply) :
    answers slot (r :: inbound) = answers slot inbound := by
  simp [answers, hkind]

/-- A reply to a request is on its way to its box and to no other. -/
theorem answers_cons {r : Reply} (hkind : r.kind = .payload ∨ r.kind = .bodyHead) (slot : UInt16)
    (inbound : List Reply) :
    answers slot (r :: inbound) = if r.slot = slot then r :: answers slot inbound
      else answers slot inbound := by
  simp only [answers, List.filter_cons, hkind, and_true, decide_eq_true_eq]

/-! ## Cases -/

namespace Case

/-- The replies to a case keep to the protocol. -/
inductive Proper (k : Case) : Prop
  | unanswered (hreplies : k.replies = [])
  | answered (r : Reply) (hreplies : k.replies = [r]) (hlast : r.kind = .payload)
  | begun (head : Reply) (hreplies : k.replies = [head]) (hquery : k.isQuery = true)
      (hhead : head.kind = .bodyHead)
  | ended (head body : Reply) (hreplies : k.replies = [head, body]) (hquery : k.isQuery = true)
      (hhead : head.kind = .bodyHead) (hlast : body.kind = .payload)

/-- What the protocol admits keeps a case proper. -/
theorem Proper.answer {k : Case} (h : k.Proper) {r : Reply} (hadmits : k.admits r.kind = true) :
    Proper { k with replies := k.replies ++ [r] } := by
  simp only [admits, isOpen, Bool.and_eq_true, Bool.or_eq_true, decide_eq_true_eq,
    List.isEmpty_iff] at hadmits
  obtain ⟨hopen, hlast | ⟨⟨hhead, hquery⟩, hnone⟩⟩ := hadmits
  · cases h with
    | unanswered hreplies => exact .answered r (by rw [hreplies]; rfl) hlast
    | answered first hreplies hpayload => simp [hreplies, hpayload] at hopen
    | begun head hreplies hquery hhead =>
      exact .ended head r (by rw [hreplies]; rfl) hquery hhead hlast
    | ended head body hreplies hquery hhead hpayload => simp [hreplies, hpayload] at hopen
  · exact .begun r (by rw [hnone]; rfl) hquery hhead

/-- A reply that was there stays the reply to its promises. -/
theorem replyTo_answer {k : Case} {id : PromiseId} {b : Bytes} (h : k.replyTo id = some b)
    (r : Reply) : Case.replyTo { k with replies := k.replies ++ [r] } id = some b := by
  obtain ⟨frame, receivers, replies⟩ := k
  rcases receivers with _ | ⟨reply⟩ | ⟨head, body⟩
  · cases h
  · cases replies with
    | nil => cases h
    | cons first rest => exact h
  · cases replies with
    | nil => cases h
    | cons first rest =>
      simp only [replyTo, List.cons_append] at h ⊢
      split
      · rename_i hfirst
        rwa [if_pos hfirst] at h
      · rename_i hbody
        rw [if_neg hbody] at h
        cases rest with
        | nil => cases h
        | cons second rest => exact h

end Case

/-! ## One box -/

/-- A box is owned for a case: the owner has heard the first replies, knows of a body if it heard
a head, and the other replies are on their way. -/
structure Owner.Serves (o : Owner) (k : Case) (inbound : List Reply) : Prop where
  receivers : k.receivers = some o.receivers
  heard : (o.received = 0 ∧ o.expected = 1) ∨
    (o.received = 1 ∧ o.expected = 2 ∧
      ∃ head rest, k.replies = head :: rest ∧ head.kind = .bodyHead)
  coming : answers k.frame.slot inbound = k.replies.drop o.received

/-- A query has two promises. -/
theorem Case.receivers_of_isQuery {k : Case} {receivers : Receivers}
    (hreceivers : k.receivers = some receivers) (hquery : k.isQuery = true) :
    ∃ head body, receivers = .query head body := by
  rw [isQuery, hreceivers] at hquery
  cases receivers with
  | statement reply => cases hquery
  | query head body => exact ⟨head, body, rfl⟩

namespace Owner.Serves

variable {o : Owner} {k : Case} {r : Reply} {later : List Reply}

/-- The only reply to a case completes all promises. -/
private theorem next_only (hreceivers : k.receivers = some o.receivers) (hreceived : o.received = 0)
    (hreplies : k.replies = [r]) (hlast : r.kind = .payload) :
    ∃ arrival, BoxTable.Arrival.of? o false = some arrival ∧
      arrival.owner = { o with received := 1 } ∧
      ∀ id ∈ arrival.completes, id ∈ o.receivers.promises ∧ k.replyTo id = some r.payload := by
  obtain ⟨receivers, expected, received⟩ := o
  obtain rfl : received = 0 := hreceived
  cases receivers with
  | statement reply =>
    refine ⟨_, rfl, rfl, fun id hid => ⟨hid, ?_⟩⟩
    simp only [Case.replyTo, hreceivers, hreplies]
  | query head body =>
    refine ⟨_, rfl, rfl, fun id hid => ⟨hid, ?_⟩⟩
    simp only [Case.replyTo, hreceivers, hreplies, hlast, or_true, if_true]

/-- The head of a query completes the first promise, and a body is expected. -/
private theorem next_head (hreceivers : k.receivers = some o.receivers) (hreceived : o.received = 0)
    (hquery : k.isQuery = true) {rest : List Reply} (hreplies : k.replies = r :: rest) :
    ∃ arrival, BoxTable.Arrival.of? o true = some arrival ∧
      arrival.owner = { o with received := 1, expected := 2 } ∧
      ∀ id ∈ arrival.completes, id ∈ o.receivers.promises ∧ k.replyTo id = some r.payload := by
  obtain ⟨head, body, hpromises⟩ := Case.receivers_of_isQuery hreceivers hquery
  obtain ⟨receivers, expected, received⟩ := o
  obtain rfl : received = 0 := hreceived
  obtain rfl : receivers = .query head body := hpromises
  refine ⟨_, rfl, rfl, fun id hid => ?_⟩
  obtain rfl : id = head := List.mem_singleton.1 hid
  refine ⟨List.mem_cons_self, ?_⟩
  simp only [Case.replyTo, hreceivers, hreplies, true_or, if_true]

/-- The body of a query completes the second promise. -/
private theorem next_body (hreceivers : k.receivers = some o.receivers) (hreceived : o.received = 1)
    (hquery : k.isQuery = true) {head : Reply} (hreplies : k.replies = [head, r])
    (hhead : head.kind = .bodyHead) (hdistinct : o.receivers.promises.Nodup) :
    ∃ arrival, BoxTable.Arrival.of? o false = some arrival ∧
      arrival.owner = { o with received := 2 } ∧
      ∀ id ∈ arrival.completes, id ∈ o.receivers.promises ∧ k.replyTo id = some r.payload := by
  obtain ⟨first, body, hpromises⟩ := Case.receivers_of_isQuery hreceivers hquery
  obtain ⟨receivers, expected, received⟩ := o
  obtain rfl : received = 1 := hreceived
  obtain rfl : receivers = .query first body := hpromises
  refine ⟨_, rfl, rfl, fun id hid => ?_⟩
  obtain rfl : id = body := List.mem_singleton.1 hid
  refine ⟨List.mem_cons_of_mem _ List.mem_cons_self, ?_⟩
  have hbody : ¬(id = first ∨ head.kind = .payload) := by
    have hne : first ≠ id := by simpa [Receivers.promises] using hdistinct
    rw [hhead]
    simpa using hne.symm
  simp only [Case.replyTo, hreceivers, hreplies, hbody, if_false, List.head?_cons, Option.map_some]

/-- The next reply to a case completes the promises it is for. Afterwards the box is owned for
the same case still, or all replies were heard. -/
theorem next (h : o.Serves k (r :: later)) (hk : k.Proper)
    (hdistinct : o.receivers.promises.Nodup) (hslot : r.slot = k.frame.slot)
    (hkind : r.kind = .payload ∨ r.kind = .bodyHead) :
    ∃ arrival, BoxTable.Arrival.of? o (decide (r.kind = .bodyHead)) = some arrival ∧
      arrival.owner.receivers = o.receivers ∧
      (∀ id ∈ arrival.completes, id ∈ o.receivers.promises ∧ k.replyTo id = some r.payload) ∧
      if arrival.owner.expected ≤ arrival.owner.received then
        k.isOpen = false ∧ answers k.frame.slot later = []
      else arrival.owner.Serves k later := by
  obtain ⟨hreceivers, hheard, hcoming⟩ := h
  rw [answers_cons hkind, if_pos hslot] at hcoming
  -- whether the owner heard a head already decides which reply is the next one
  rcases hheard with ⟨hreceived, hexpected⟩ | ⟨hreceived, hexpected, head, rest, hbegun, hhead⟩
  · rw [hreceived, List.drop_zero] at hcoming
    -- nothing heard yet: the next reply is the first one of the case
    cases hk with
    | unanswered hreplies => simp [hreplies] at hcoming
    | answered only hreplies hlast =>
      rw [hreplies, List.cons.injEq] at hcoming
      obtain ⟨rfl, hlater⟩ := hcoming
      obtain ⟨arrival, harrival, howner, hcompletes⟩ :=
        next_only hreceivers hreceived hreplies hlast
      refine ⟨arrival, by rwa [hlast], by rw [howner], hcompletes, ?_⟩
      rw [howner, if_pos (Nat.le_of_eq hexpected)]
      exact ⟨by simp [Case.isOpen, hreplies, hlast], hlater⟩
    | begun head hreplies hquery hhead =>
      rw [hreplies, List.cons.injEq] at hcoming
      obtain ⟨rfl, hlater⟩ := hcoming
      obtain ⟨arrival, harrival, howner, hcompletes⟩ :=
        next_head hreceivers hreceived hquery hreplies
      refine ⟨arrival, by rwa [hhead], by rw [howner], hcompletes, ?_⟩
      rw [howner, if_neg (Nat.not_succ_le_self 1)]
      exact ⟨hreceivers, .inr ⟨rfl, rfl, r, [], hreplies, hhead⟩, by rw [hreplies, hlater]; rfl⟩
    | ended head body hreplies hquery hhead hlast =>
      rw [hreplies, List.cons.injEq] at hcoming
      obtain ⟨rfl, hlater⟩ := hcoming
      obtain ⟨arrival, harrival, howner, hcompletes⟩ :=
        next_head hreceivers hreceived hquery hreplies
      refine ⟨arrival, by rwa [hhead], by rw [howner], hcompletes, ?_⟩
      rw [howner, if_neg (Nat.not_succ_le_self 1)]
      exact ⟨hreceivers, .inr ⟨rfl, rfl, r, [body], hreplies, hhead⟩, by rw [hreplies, hlater]; rfl⟩
  · rw [hreceived, hbegun, List.drop_one, List.tail_cons] at hcoming
    -- the head was heard: the next reply is the body
    cases hk with
    | unanswered hreplies => simp [hreplies] at hbegun
    | answered only hreplies hlast =>
      rw [hreplies, List.cons.injEq] at hbegun
      -- a head is no payload
      rw [hbegun.1, hhead] at hlast
      cases hlast
    | begun only hreplies hquery _ =>
      -- the case has no second reply that could be on its way
      rw [hreplies, List.cons.injEq, ← hcoming] at hbegun
      cases hbegun.2
    | ended first body hreplies hquery _ hlast =>
      rw [hreplies, List.cons.injEq, ← hcoming, List.cons.injEq] at hbegun
      obtain ⟨rfl, rfl, hlater⟩ := hbegun
      obtain ⟨arrival, harrival, howner, hcompletes⟩ :=
        next_body hreceivers hreceived hquery hreplies hhead hdistinct
      refine ⟨arrival, by rwa [hlast], by rw [howner], hcompletes, ?_⟩
      rw [howner, if_pos (Nat.le_of_eq hexpected)]
      exact ⟨by simp [Case.isOpen, hreplies, hlast], hlater.symm⟩

end Owner.Serves

/-! ## All boxes -/

/-- Each reply on its way has its owner. -/
structure Served (boxes : BoxTable) (parcels : List Parcel) (cases : List Case)
    (inbound : List Reply) : Prop where
  valid : boxes.Valid
  /-- The box of a request that is on its way is owned for it, and there are no replies yet. -/
  sent : ∀ p ∈ parcels, ∀ receivers, p.receivers = some receivers →
    boxes.owner? p.frame.slot = some { receivers } ∧ answers p.frame.slot inbound = []
  /-- The box of a case is owned for it, or all replies were heard. -/
  got : ∀ k ∈ cases,
    (∃ o, boxes.owner? k.frame.slot = some o ∧ o.Serves k inbound) ∨
    (k.isOpen = false ∧ ∀ slot o, boxes.owner? slot = some o → k.receivers ≠ some o.receivers)
  owned : ∀ slot o, boxes.owner? slot = some o →
    (∃ p ∈ parcels, p.receivers = some o.receivers ∧ p.frame.slot = slot) ∨
    (∃ k ∈ cases, k.receivers = some o.receivers ∧ k.frame.slot = slot)
  idle : ∀ slot, boxes.owner? slot = none → answers slot inbound = []

/-- What the server replied to a promise, if it got the request. -/
def RepliedTo (cases : List Case) (id : PromiseId) (b : Bytes) : Prop :=
  ∃ k ∈ cases, ∃ receivers, k.receivers = some receivers ∧ id ∈ receivers.promises ∧
    k.replyTo id = some b

/-- Requests on their way and requests the server got are different requests. -/
def Distinct (parcels : List Parcel) (cases : List Case) : Prop :=
  (parcels.filterMap Parcel.receivers ++ cases.filterMap Case.receivers).Nodup

/-- The cases around one of them, and that one. -/
theorem mem_middle {k k' : Case} {before after : List Case} :
    k' ∈ before ++ k :: after ↔ k' = k ∨ k' ∈ before ++ after := by
  rw [List.mem_append, List.mem_cons, or_left_comm, ← List.mem_append]

namespace Distinct

variable {parcels : List Parcel} {cases before after : List Case} {k k' : Case} {p : Parcel}
  {receivers : Receivers}

theorem ne_of_parcel (h : Distinct parcels cases) (hp : p ∈ parcels)
    (hreceivers : p.receivers = some receivers) (hk : k ∈ cases) :
    k.receivers ≠ some receivers := by
  intro heq
  exact (List.nodup_append.1 h).2.2 receivers (List.mem_filterMap.2 ⟨p, hp, hreceivers⟩) receivers
    (List.mem_filterMap.2 ⟨k, hk, heq⟩) rfl

theorem ne_of_other (h : Distinct parcels (before ++ k :: after))
    (hreceivers : k.receivers = some receivers) (hk' : k' ∈ before ++ after) :
    k'.receivers ≠ some receivers := by
  intro heq
  have hcases := (List.nodup_append.1 h).2.1
  rw [List.filterMap_append, List.filterMap_cons_some hreceivers, List.perm_middle.nodup_iff,
    List.nodup_cons, ← List.filterMap_append] at hcases
  exact hcases.1 (List.mem_filterMap.2 ⟨k', hk', heq⟩)

/-- There is one case of a request. -/
theorem eq_of_receivers (h : Distinct parcels cases) (hk : k ∈ cases) (hk' : k' ∈ cases)
    (hreceivers : k.receivers = some receivers) (hreceivers' : k'.receivers = some receivers) :
    k' = k := by
  obtain ⟨before, after, rfl⟩ := List.append_of_mem hk
  obtain rfl | hk' := mem_middle.1 hk'
  · rfl
  · exact absurd hreceivers' (h.ne_of_other hreceivers hk')

end Distinct

namespace Served

variable {boxes boxes' : BoxTable} {parcels parcels' : List Parcel} {cases : List Case}
  {inbound inbound' later : List Reply} {r : Reply}

/-- At the start nobody owns a box and no replies to requests are on their way. -/
theorem start {capacity : Nat} (hcapacity : capacity ≤ 65536)
    (hparcels : ∀ p ∈ parcels, p.receivers = none)
    (hinbound : ∀ r ∈ inbound, ¬(r.kind = .payload ∨ r.kind = .bodyHead)) :
    Served (.ofCapacity capacity) parcels [] inbound where
  valid := BoxTable.valid_ofCapacity hcapacity
  sent := by
    intro p hp receivers hreceivers
    rw [hparcels p hp] at hreceivers
    cases hreceivers
  got := by simp
  owned := by
    intro slot o howner
    rw [BoxTable.owner?_ofCapacity] at howner
    cases howner
  idle := by
    intro slot _
    refine List.filter_eq_nil_iff.2 fun r hr => ?_
    simp [hinbound r hr]

/-- Frames that are no requests to services, and the order of frames, do not matter. -/
theorem congr_parcels (h : Served boxes parcels cases inbound)
    (hsame : ∀ p : Parcel, p.receivers.isSome → (p ∈ parcels' ↔ p ∈ parcels)) :
    Served boxes parcels' cases inbound where
  valid := h.valid
  sent := by
    intro p hp receivers hreceivers
    exact h.sent p ((hsame p (by rw [hreceivers]; rfl)).1 hp) receivers hreceivers
  got := h.got
  owned := by
    intro slot o howner
    refine (h.owned slot o howner).imp_left ?_
    rintro ⟨p, hp, hreceivers, hslot⟩
    exact ⟨p, (hsame p (by rw [hreceivers]; rfl)).2 hp, hreceivers, hslot⟩
  idle := h.idle

/-- Only replies to requests matter. -/
theorem congr_inbound (h : Served boxes parcels cases inbound)
    (hsame : ∀ slot, answers slot inbound' = answers slot inbound) :
    Served boxes parcels cases inbound' where
  valid := h.valid
  sent := by
    intro p hp receivers hreceivers
    rw [hsame]
    exact h.sent p hp receivers hreceivers
  got := by
    intro k hk
    refine (h.got k hk).imp_left ?_
    rintro ⟨o, howner, hserves⟩
    exact ⟨o, howner, hserves.receivers, hserves.heard, by rw [hsame, hserves.coming]⟩
  owned := h.owned
  idle := by
    intro slot hnone
    rw [hsame, h.idle slot hnone]

/-- A request that gets a free box may be sent. -/
theorem grant (h : Served boxes parcels cases inbound) {receivers : Receivers} {slot : UInt16}
    (hbox : boxes.allocate receivers = some (slot, boxes'))
    (hfresh : ∀ k ∈ cases, k.receivers ≠ some receivers) (payload : Bytes) :
    Served boxes' (parcels ++ [⟨⟨.payload, slot, payload⟩, some receivers⟩]) cases inbound := by
  obtain ⟨hnone, howner⟩ := h.valid.owner?_allocate hbox
  -- a box that was owned is not the one that was free
  have hkept : ∀ {other o}, boxes.owner? other = some o → boxes'.owner? other = some o := by
    intro other o hother
    rw [howner, if_neg, hother]
    rintro rfl
    rw [hnone] at hother
    cases hother
  refine ⟨h.valid.allocate hbox, ?sent, ?got, ?owned, ?idle⟩
  case sent =>
    intro p hp receivers' hreceivers
    obtain hp | hp := List.mem_append.1 hp
    · obtain ⟨hother, hanswers⟩ := h.sent p hp receivers' hreceivers
      exact ⟨hkept hother, hanswers⟩
    · obtain rfl := List.mem_singleton.1 hp
      obtain rfl : receivers = receivers' := Option.some.inj hreceivers
      exact ⟨by rw [howner, if_pos rfl], h.idle slot hnone⟩
  case got =>
    intro k hk
    refine (h.got k hk).imp ?_ ?_
    · rintro ⟨o, hother, hserves⟩
      exact ⟨o, hkept hother, hserves⟩
    · rintro ⟨hdone, hunowned⟩
      refine ⟨hdone, fun other o hother => ?_⟩
      rw [howner] at hother
      split at hother
      · cases hother
        -- the new owner is for a request that no case is about
        exact hfresh k hk
      · exact hunowned other o hother
  case owned =>
    intro other o hother
    rw [howner] at hother
    split at hother
    · rename_i hslot
      cases hother
      exact .inl ⟨_, List.mem_append_right _ List.mem_cons_self, rfl, hslot.symm⟩
    · refine (h.owned other o hother).imp_left ?_
      rintro ⟨p, hp, hrest⟩
      exact ⟨p, List.mem_append_left _ hp, hrest⟩
  case idle =>
    intro other hother
    rw [howner] at hother
    split at hother
    · cases hother
    · exact h.idle other hother

/-- A request that the server gets is a case without replies. -/
theorem got_first {p : Parcel} {receivers : Receivers}
    (h : Served boxes (p :: parcels) cases inbound)
    (hreceivers : p.receivers = some receivers) :
    Served boxes parcels (cases ++ [⟨p.frame, p.receivers, []⟩]) inbound where
  valid := h.valid
  sent := fun p' hp' => h.sent p' (List.mem_cons_of_mem _ hp')
  got := by
    intro k hk
    obtain hk | hk := List.mem_append.1 hk
    · exact h.got k hk
    · obtain rfl := List.mem_singleton.1 hk
      obtain ⟨howner, hanswers⟩ := h.sent p List.mem_cons_self receivers hreceivers
      exact .inl ⟨_, howner, hreceivers, .inl ⟨rfl, rfl⟩, hanswers⟩
  owned := by
    intro slot o howner
    obtain ⟨p', hp', howns⟩ | ⟨k, hk, howns⟩ := h.owned slot o howner
    · obtain rfl | hp' := List.mem_cons.1 hp'
      · exact .inr ⟨_, List.mem_append_right _ List.mem_cons_self, howns⟩
      · exact .inl ⟨p', hp', howns⟩
    · exact .inr ⟨k, List.mem_append_left _ hk, howns⟩
  idle := h.idle

/-- A case that is not fully answered has its box. -/
theorem serves_of_isOpen (h : Served boxes parcels cases inbound) {k : Case} (hk : k ∈ cases)
    (hopen : k.isOpen = true) :
    ∃ o, boxes.owner? k.frame.slot = some o ∧ o.Serves k inbound := by
  obtain hserved | ⟨hdone, -⟩ := h.got k hk
  · exact hserved
  · rw [hopen] at hdone
    cases hdone

/-- A reply to a case is on its way to the owner of its box. -/
theorem answer {before after : List Case} {k : Case}
    (h : Served boxes parcels (before ++ k :: after) inbound)
    (hdistinct : Distinct parcels (before ++ k :: after)) (hopen : k.isOpen = true)
    (hslot : r.slot = k.frame.slot) (hkind : r.kind = .payload ∨ r.kind = .bodyHead) :
    Served boxes parcels (before ++ { k with replies := k.replies ++ [r] } :: after)
      (inbound ++ [r]) := by
  have hmem : k ∈ before ++ k :: after := List.mem_append_right _ List.mem_cons_self
  obtain ⟨o, howner, hserves⟩ := h.serves_of_isOpen hmem hopen
  -- the reply is on its way to no other box
  have hanswers : ∀ slot, slot ≠ k.frame.slot →
      answers slot (inbound ++ [r]) = answers slot inbound := by
    intro slot hne
    rw [answers_append, answers_cons hkind, if_neg (by rw [hslot]; exact hne.symm), answers_nil,
      List.append_nil]
  refine ⟨h.valid, ?sent, ?got, ?owned, ?idle⟩
  case sent =>
    intro p hp receivers hreceivers
    obtain ⟨hp', hnone⟩ := h.sent p hp receivers hreceivers
    refine ⟨hp', ?_⟩
    rw [hanswers, hnone]
    intro hslot'
    rw [hslot', howner] at hp'
    cases hp'
    -- a box that is owned for the case is owned for no frame on its way
    exact hdistinct.ne_of_parcel hp hreceivers hmem hserves.receivers
  case got =>
    intro k' hk'
    obtain rfl | hk' := mem_middle.1 hk'
    · refine .inl ⟨o, howner, hserves.receivers, ?_, ?_⟩
      · obtain hnone | ⟨hreceived, hexpected, head, rest, hreplies, hhead⟩ := hserves.heard
        · exact .inl hnone
        · exact .inr ⟨hreceived, hexpected, head, rest ++ [r], by rw [hreplies]; rfl, hhead⟩
      · -- the owner heard no more than there was, so the reply is one it has not heard
        have hlength : o.received ≤ k.replies.length := by
          obtain ⟨hreceived, -⟩ | ⟨hreceived, -, head, rest, hreplies, -⟩ := hserves.heard
          · rw [hreceived]
            exact Nat.zero_le _
          · rw [hreceived, hreplies]
            exact Nat.succ_le_succ (Nat.zero_le _)
        rw [answers_append, hserves.coming, answers_cons hkind, if_pos hslot, answers_nil,
          List.drop_append_of_le_length hlength]
    · have hne := hdistinct.ne_of_other hserves.receivers hk'
      refine (h.got k' (mem_middle.2 (.inr hk'))).imp_left ?_
      rintro ⟨o', howner', hserves'⟩
      refine ⟨o', howner', hserves'.receivers, hserves'.heard, ?_⟩
      rw [hanswers, hserves'.coming]
      intro hslot'
      rw [hslot', howner] at howner'
      cases howner'
      exact hne hserves'.receivers
  case owned =>
    intro slot o' howner'
    refine (h.owned slot o' howner').imp_right ?_
    rintro ⟨k', hk', howns⟩
    obtain rfl | hk' := mem_middle.1 hk'
    · exact ⟨_, List.mem_append_right _ List.mem_cons_self, howns⟩
    · exact ⟨k', mem_middle.2 (.inr hk'), howns⟩
  case idle =>
    intro slot hnone
    rw [hanswers, h.idle slot hnone]
    rintro rfl
    rw [howner] at hnone
    cases hnone

/-- A reply on its way is the next one of a case, whose box is owned for it. -/
theorem owner_of_answer (h : Served boxes parcels cases (r :: later))
    (hkind : r.kind = .payload ∨ r.kind = .bodyHead) :
    ∃ k ∈ cases, k.frame.slot = r.slot ∧
      ∃ o, boxes.owner? r.slot = some o ∧ o.Serves k (r :: later) := by
  have hcoming : answers r.slot (r :: later) ≠ [] := by
    rw [answers_cons hkind, if_pos rfl]
    exact List.cons_ne_nil _ _
  rcases howner : boxes.owner? r.slot with _ | o
  · exact absurd (h.idle r.slot howner) hcoming
  obtain ⟨p, hp, hreceivers, hslot⟩ | ⟨k, hk, hreceivers, hslot⟩ := h.owned r.slot o howner
  · -- there are no replies to a request that the server has not got
    have hnone := (h.sent p hp o.receivers hreceivers).2
    rw [hslot] at hnone
    exact absurd hnone hcoming
  · refine ⟨k, hk, hslot, ?_⟩
    obtain ⟨o', howner', hserves⟩ | ⟨-, hunowned⟩ := h.got k hk
    · rw [hslot, howner] at howner'
      cases howner'
      exact ⟨o, rfl, hserves⟩
    · exact absurd hreceivers (hunowned r.slot o howner)

/-- When the owner of a box heard a reply, the box is owned for the same case still or it is free;
the other boxes keep their owners. -/
private theorem of_moved (h : Served boxes parcels cases (r :: later))
    (hdistinct : Distinct parcels cases) (hkind : r.kind = .payload ∨ r.kind = .bodyHead)
    {k : Case} {o o' : Owner} (hk : k ∈ cases) (hslot : k.frame.slot = r.slot)
    (howner : boxes.owner? r.slot = some o) (hreceivers : k.receivers = some o.receivers)
    (hsame : o'.receivers = o.receivers) (hvalid : boxes'.Valid)
    (howner' : ∀ slot, boxes'.owner? slot =
      if slot = r.slot then if o'.expected ≤ o'.received then none else some o'
      else boxes.owner? slot)
    (hheard : if o'.expected ≤ o'.received then k.isOpen = false ∧ answers k.frame.slot later = []
      else o'.Serves k later) : Served boxes' parcels cases later := by
  have hanswers : ∀ slot, slot ≠ r.slot → answers slot (r :: later) = answers slot later := by
    intro slot hne
    rw [answers_cons hkind, if_neg hne.symm]
  -- nobody else owns a box for the same request
  have halone : ∀ slot o'', boxes.owner? slot = some o'' → k.receivers = some o''.receivers →
      slot = r.slot := by
    intro slot o'' hother heq
    obtain ⟨p, hp, hp', -⟩ | ⟨k', hk', hk'', hslot'⟩ := h.owned slot o'' hother
    · exact absurd heq (hdistinct.ne_of_parcel hp hp' hk)
    · rw [← hslot', hdistinct.eq_of_receivers hk hk' heq hk'', hslot]
  -- owners of boxes in the new table own them in the old one for the same requests
  have hback : ∀ slot o'', boxes'.owner? slot = some o'' →
      ∃ old, boxes.owner? slot = some old ∧ old.receivers = o''.receivers := by
    intro slot o'' hother
    rw [howner'] at hother
    split at hother
    · rename_i heq
      split at hother
      · cases hother
      · cases hother
        exact ⟨o, by rw [heq, howner], hsame.symm⟩
    · exact ⟨o'', hother, rfl⟩
  refine ⟨hvalid, ?sent, ?got, ?owned, ?idle⟩
  case sent =>
    intro p hp receivers hp'
    obtain ⟨hother, hnone⟩ := h.sent p hp receivers hp'
    have hne : p.frame.slot ≠ r.slot := by
      intro heq
      rw [heq, howner] at hother
      cases hother
      -- the box is owned for the case and not for the frame
      exact hdistinct.ne_of_parcel hp hp' hk hreceivers
    rw [howner', if_neg hne, ← hanswers _ hne]
    exact ⟨hother, hnone⟩
  case got =>
    intro k' hk'
    -- either it is the case whose reply was heard or another one
    by_cases heq : k'.receivers = some o.receivers
    · obtain rfl := hdistinct.eq_of_receivers hk hk' hreceivers heq
      split at hheard
      · rename_i hdone
        refine .inr ⟨hheard.1, fun slot o'' hother hclash => ?_⟩
        obtain ⟨old, hold, hsame'⟩ := hback slot o'' hother
        obtain rfl := halone slot old hold (by rw [hsame', hclash])
        rw [howner', if_pos rfl, if_pos hdone] at hother
        cases hother
      · rename_i hmore
        exact .inl ⟨o', by rw [hslot, howner', if_pos rfl, if_neg hmore], hheard⟩
    · obtain ⟨old, hold, hserves⟩ | ⟨hdone, hunowned⟩ := h.got k' hk'
      · have hne : k'.frame.slot ≠ r.slot := by
          intro hslot'
          rw [hslot', howner] at hold
          cases hold
          exact heq hserves.receivers
        refine .inl ⟨old, by rw [howner', if_neg hne, hold], hserves.receivers, hserves.heard, ?_⟩
        rw [← hanswers _ hne, hserves.coming]
      · refine .inr ⟨hdone, fun slot o'' hother => ?_⟩
        obtain ⟨old, hold, hsame'⟩ := hback slot o'' hother
        rw [← hsame']
        exact hunowned slot old hold
  case owned =>
    intro slot o'' hother
    obtain ⟨old, hold, hsame'⟩ := hback slot o'' hother
    rw [← hsame']
    exact h.owned slot old hold
  case idle =>
    intro slot hnone
    by_cases heq : slot = r.slot
    · subst heq
      rw [howner', if_pos rfl] at hnone
      split at hnone
      · rename_i hdone
        rw [if_pos hdone, hslot] at hheard
        exact hheard.2
      · cases hnone
    · rw [howner', if_neg heq] at hnone
      rw [← hanswers _ heq, h.idle slot hnone]

/-- A reply reaches the promises that it is for, and no others. -/
theorem hear (h : Served boxes parcels cases (r :: later)) (hdistinct : Distinct parcels cases)
    (hproper : ∀ k ∈ cases, k.Proper)
    (hpromises : ∀ k ∈ cases, ∀ receivers, k.receivers = some receivers → receivers.promises.Nodup)
    (hkind : r.kind = .payload ∨ r.kind = .bodyHead) :
    ∃ completes freed boxes',
      boxes.push r.slot (decide (r.kind = .bodyHead)) = .ok (completes, freed, boxes') ∧
      Served boxes' parcels cases later ∧ ∀ id ∈ completes, RepliedTo cases id r.payload := by
  obtain ⟨k, hk, hslot, o, howner, hserves⟩ := h.owner_of_answer hkind
  obtain ⟨arrival, harrival, hsame, hcompletes, hheard⟩ :=
    hserves.next (hproper k hk) (hpromises k hk _ hserves.receivers) hslot.symm hkind
  obtain ⟨boxes', hpush, hvalid, howner'⟩ := h.valid.push howner harrival
  refine ⟨arrival.completes, _, boxes', hpush, ?_, fun id hid => ?_⟩
  · exact h.of_moved hdistinct hkind hk hslot howner hserves.receivers hsame hvalid howner' hheard
  · obtain ⟨hmem, hreplied⟩ := hcompletes id hid
    exact ⟨k, hk, o.receivers, hserves.receivers, hmem, hreplied⟩

end Served

end QueryLink
