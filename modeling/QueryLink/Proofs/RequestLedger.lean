import QueryLink.Proofs.ReplyAccounts

/-!
# Where a request is

A request that was accepted waits in line, is on its way, or was got by the server, in one of the
three places and once. `Ledger` says so and that the payload stays the one that was submitted;
`occupied` are the boxes of requests on their way and of cases that are not fully answered.

## Key results

- `Ledger.submit`, `Ledger.send`, `Ledger.wait`: a new request gets a place
- `Ledger.dispatch`, `Ledger.got_first`: a request moves on
- `occupied_send`, `occupied_got_first`, `occupied_answer`: which boxes a step occupies
- `Served.not_mem_occupied`: a box that nobody owns is not occupied
-/

namespace QueryLink

/-- A frame is a request to a service that was submitted, or nobody waits for replies to it. -/
def Parcel.Labelled (submitted : List (Receivers × Bytes)) (p : Parcel) : Prop :=
  if p.frame.kind = .payload then
    ∃ receivers, p.receivers = some receivers ∧ (receivers, p.frame.payload) ∈ submitted
  else p.receivers = none

/-- Somebody waits for a reply to any request. -/
theorem Receivers.exists_promise (r : Receivers) : ∃ id, id ∈ r.promises := by
  cases r with
  | statement reply => exact ⟨reply, List.mem_cons_self⟩
  | query head body => exact ⟨head, List.mem_cons_self⟩

/-- The requests that wait, are on their way or were got by the server. -/
def placed (waiting : List WaitingRequest) (parcels : List Parcel) (cases : List Case) :
    List Receivers :=
  waiting.map WaitingRequest.receivers ++
    (parcels.filterMap Parcel.receivers ++ cases.filterMap Case.receivers)

/-- The requests that wait, are on their way or were got by the server are different ones that
were submitted with the same payload. -/
structure Ledger (submitted : List (Receivers × Bytes)) (size : Nat)
    (waiting : List WaitingRequest) (parcels : List Parcel) (cases : List Case) : Prop where
  /-- Only promises that were made stand for requests. -/
  known : ∀ s ∈ submitted, ∀ id ∈ s.1.promises, id < size
  promises : (submitted.flatMap fun s => s.1.promises).Nodup
  short : ∀ s ∈ submitted, s.2.length ≤ maxPayload
  /-- A request is in one place only. -/
  once : (placed waiting parcels cases).Nodup
  waiting : ∀ w ∈ waiting, (w.receivers, w.payload) ∈ submitted
  parcels : ∀ p ∈ parcels, p.Labelled submitted
  cases : ∀ k ∈ cases,
    ∃ receivers, k.receivers = some receivers ∧ (receivers, k.frame.payload) ∈ submitted

namespace Ledger

variable {submitted : List (Receivers × Bytes)} {size : Nat} {waiting line : List WaitingRequest}
  {parcels parcels' : List Parcel} {cases : List Case} {p : Parcel}

/-- At the start no request was submitted. -/
theorem start (hparcels : ∀ p ∈ parcels, p.frame.kind ≠ .payload ∧ p.receivers = none) :
    Ledger [] 0 [] parcels [] where
  known := by simp
  promises := .nil
  short := by simp
  once := by
    have hnone : parcels.filterMap Parcel.receivers = [] :=
      List.filterMap_eq_nil_iff.2 fun p hp => (hparcels p hp).2
    simp [placed, hnone]
  waiting := by simp
  parcels := by
    intro p hp
    rw [Parcel.Labelled, if_neg (hparcels p hp).1]
    exact (hparcels p hp).2
  cases := by simp

theorem distinct (h : Ledger submitted size waiting parcels cases) : Distinct parcels cases :=
  (List.nodup_append.1 h.once).2.1

/-- No two requests have the same receivers. -/
theorem nodup_submitted (h : Ledger submitted size waiting parcels cases) :
    (submitted.map Prod.fst).Nodup := by
  refine List.pairwise_map.2 ((List.pairwise_flatMap.1 h.promises).2.imp ?_)
  intro s t hdisjoint heq
  -- the same receivers would have a promise in common
  obtain ⟨id, hid⟩ := s.1.exists_promise
  exact hdisjoint id hid id (heq ▸ hid) rfl

/-- The promises of a case are different ones. -/
theorem nodup_promises (h : Ledger submitted size waiting parcels cases) {k : Case} (hk : k ∈ cases)
    {receivers : Receivers} (hreceivers : k.receivers = some receivers) :
    receivers.promises.Nodup := by
  obtain ⟨receivers', heq, hmem⟩ := h.cases k hk
  rw [hreceivers] at heq
  cases heq
  exact (List.pairwise_flatMap.1 h.promises).1 _ hmem

/-- A frame with receivers is a request to a service that was submitted. -/
theorem labelled (h : Ledger submitted size waiting parcels cases) (hp : p ∈ parcels)
    {receivers : Receivers} (hreceivers : p.receivers = some receivers) :
    p.frame.kind = .payload ∧ (receivers, p.frame.payload) ∈ submitted := by
  have hlabelled := h.parcels p hp
  unfold Parcel.Labelled at hlabelled
  split at hlabelled
  · rename_i hkind
    obtain ⟨receivers', heq, hmem⟩ := hlabelled
    rw [hreceivers] at heq
    cases heq
    exact ⟨hkind, hmem⟩
  · rw [hreceivers] at hlabelled
    cases hlabelled

/-- Requests may leave the line. -/
theorem leave (h : Ledger submitted size waiting parcels cases) (hline : line.Sublist waiting) :
    Ledger submitted size line parcels cases where
  known := h.known
  promises := h.promises
  short := h.short
  -- a part of the line is different requests still
  once := h.once.sublist ((hline.map _).append (List.Sublist.refl _))
  waiting := fun w hw => h.waiting w (hline.subset hw)
  parcels := h.parcels
  cases := h.cases

/-- The order of frames does not matter. -/
theorem perm (h : Ledger submitted size waiting parcels cases) (hperm : parcels'.Perm parcels) :
    Ledger submitted size waiting parcels' cases where
  known := h.known
  promises := h.promises
  short := h.short
  once := (((hperm.filterMap _).append_right _).append_left _).nodup_iff.2 h.once
  waiting := h.waiting
  parcels := fun p hp => h.parcels p (hperm.subset hp)
  cases := h.cases

/-- A frame that is no request to a service may be sent. -/
theorem send_other (h : Ledger submitted size waiting parcels cases)
    (hkind : p.frame.kind ≠ .payload) (hnone : p.receivers = none) :
    Ledger submitted size waiting (parcels ++ [p]) cases where
  known := h.known
  promises := h.promises
  short := h.short
  once := by
    rw [placed, List.filterMap_append, List.filterMap_cons_none hnone, List.filterMap_nil,
      List.append_nil]
    exact h.once
  waiting := h.waiting
  parcels := by
    intro p' hp'
    obtain hp' | hp' := List.mem_append.1 hp'
    · exact h.parcels p' hp'
    · rw [List.mem_singleton.1 hp', Parcel.Labelled, if_neg hkind]
      exact hnone
  cases := h.cases

/-- Requests in the ledger were submitted. -/
theorem submitted_of_placed (h : Ledger submitted size waiting parcels cases)
    {receivers : Receivers} (hplaced : receivers ∈ placed waiting parcels cases) :
    ∃ payload, (receivers, payload) ∈ submitted := by
  unfold placed at hplaced
  rw [List.mem_append, List.mem_append] at hplaced
  obtain hplaced | hplaced | hplaced := hplaced
  · obtain ⟨w, hw, rfl⟩ := List.mem_map.1 hplaced
    exact ⟨w.payload, h.waiting w hw⟩
  · obtain ⟨p, hp, hreceivers⟩ := List.mem_filterMap.1 hplaced
    exact ⟨_, (h.labelled hp hreceivers).2⟩
  · obtain ⟨k, hk, hreceivers⟩ := List.mem_filterMap.1 hplaced
    obtain ⟨receivers', heq, hmem⟩ := h.cases k hk
    rw [hreceivers] at heq
    cases heq
    exact ⟨_, hmem⟩

/-- A request may be submitted; it has no place yet. -/
theorem submit (h : Ledger submitted size waiting parcels cases) (ask : Exchange.Ask)
    {payload : Bytes} (hshort : payload.length ≤ maxPayload) :
    Ledger (submitted ++ [(ask.receivers size, payload)])
        (size + (ask.receivers size).promises.length) waiting parcels cases ∧
      ask.receivers size ∉ placed waiting parcels cases := by
  have hfresh : ∀ id ∈ (ask.receivers size).promises,
      size ≤ id ∧ id < size + (ask.receivers size).promises.length := by
    cases ask <;> simp [Exchange.Ask.receivers, Receivers.promises]
  have hnodup : (ask.receivers size).promises.Nodup := by
    cases ask <;> simp [Exchange.Ask.receivers, Receivers.promises]
  have hmono : ∀ s ∈ submitted, s ∈ submitted ++ [(ask.receivers size, payload)] :=
    fun s hs => List.mem_append_left _ hs
  refine ⟨⟨?known, ?promises, ?short, h.once, fun w hw => hmono _ (h.waiting w hw), ?parcels,
    ?cases⟩, fun hplaced => ?fresh⟩
  case known =>
    intro s hs id hid
    obtain hs | hs := List.mem_append.1 hs
    · exact Nat.lt_add_right _ (h.known s hs id hid)
    · rw [List.mem_singleton.1 hs] at hid
      exact (hfresh id hid).2
  case promises =>
    -- promises that were there are below the size, new ones are not
    rw [List.flatMap_append, List.flatMap_singleton, List.nodup_append]
    refine ⟨h.promises, hnodup, fun id hid id' hid' heq => ?_⟩
    obtain ⟨s, hs, hid⟩ := List.mem_flatMap.1 hid
    rw [heq] at hid
    exact Nat.not_lt_of_le (hfresh id' hid').1 (h.known s hs id' hid)
  case short =>
    intro s hs
    obtain hs | hs := List.mem_append.1 hs
    · exact h.short s hs
    · rw [List.mem_singleton.1 hs]
      exact hshort
  case parcels =>
    intro p hp
    have hlabelled := h.parcels p hp
    unfold Parcel.Labelled at hlabelled ⊢
    split
    · rename_i hkind
      rw [if_pos hkind] at hlabelled
      obtain ⟨receivers, heq, hmem⟩ := hlabelled
      exact ⟨receivers, heq, hmono _ hmem⟩
    · rename_i hkind
      rwa [if_neg hkind] at hlabelled
  case cases =>
    intro k hk
    obtain ⟨receivers, heq, hmem⟩ := h.cases k hk
    exact ⟨receivers, heq, hmono _ hmem⟩
  case fresh =>
    -- receivers in the ledger have old promises
    obtain ⟨payload', hmem⟩ := h.submitted_of_placed hplaced
    obtain ⟨id, hid⟩ := (ask.receivers size).exists_promise
    exact Nat.not_lt_of_le (hfresh id hid).1 (h.known _ hmem id hid)

/-- A submitted request that has no place may be sent. -/
theorem send (h : Ledger submitted size waiting parcels cases) {receivers : Receivers}
    {payload : Bytes} (hmem : (receivers, payload) ∈ submitted)
    (hnew : receivers ∉ placed waiting parcels cases) (slot : UInt16) :
    Ledger submitted size waiting
      (parcels ++ [⟨⟨.payload, slot, payload⟩, some receivers⟩]) cases where
  known := h.known
  promises := h.promises
  short := h.short
  once := by
    have hcons := List.nodup_cons.2 ⟨hnew, h.once⟩
    simp only [placed, List.filterMap_append, List.append_assoc] at hcons ⊢
    -- the request goes behind the frames and before the cases
    rw [← List.append_assoc] at hcons ⊢
    exact List.perm_middle.nodup_iff.2 hcons
  waiting := h.waiting
  parcels := by
    intro p' hp'
    obtain hp' | hp' := List.mem_append.1 hp'
    · exact h.parcels p' hp'
    · rw [List.mem_singleton.1 hp', Parcel.Labelled, if_pos rfl]
      exact ⟨receivers, rfl, hmem⟩
  cases := h.cases

/-- A submitted request that has no place may wait. -/
theorem wait (h : Ledger submitted size waiting parcels cases) {receivers : Receivers}
    {payload : Bytes} (hmem : (receivers, payload) ∈ submitted)
    (hnew : receivers ∉ placed waiting parcels cases) :
    Ledger submitted size (waiting ++ [⟨payload, receivers⟩]) parcels cases where
  known := h.known
  promises := h.promises
  short := h.short
  once := by
    have hcons := List.nodup_cons.2 ⟨hnew, h.once⟩
    simp only [placed, List.map_append, List.append_assoc] at hcons ⊢
    exact List.perm_middle.nodup_iff.2 hcons
  waiting := by
    intro w hw
    obtain hw | hw := List.mem_append.1 hw
    · exact h.waiting w hw
    · rw [List.mem_singleton.1 hw]
      exact hmem
  parcels := h.parcels
  cases := h.cases

/-- A waiting request may be sent; it does not wait any more, and those before it have left. -/
theorem dispatch (h : Ledger submitted size waiting parcels cases) {w : WaitingRequest}
    (hline : (w :: line).Sublist waiting) (slot : UInt16) :
    Ledger submitted size line
      (parcels ++ [⟨⟨.payload, slot, w.payload⟩, some w.receivers⟩]) cases := by
  have hnew := (List.nodup_cons.1 (h.leave hline).once).1
  exact (h.leave ((List.sublist_cons_self w line).trans hline)).send
    (h.waiting w (hline.subset List.mem_cons_self)) hnew slot

/-- A request that the server gets is a case. -/
theorem got_first (h : Ledger submitted size waiting (p :: parcels) cases)
    {receivers : Receivers} (hreceivers : p.receivers = some receivers) :
    Ledger submitted size waiting parcels (cases ++ [⟨p.frame, p.receivers, []⟩]) where
  known := h.known
  promises := h.promises
  short := h.short
  once := by
    have honce := h.once
    have hlast : [(⟨p.frame, p.receivers, []⟩ : Case)].filterMap Case.receivers = [receivers] := by
      simp [hreceivers]
    unfold placed at honce ⊢
    rw [List.filterMap_cons_some hreceivers, List.cons_append] at honce
    -- the request goes from the front of the frames to the end of the cases
    rw [List.filterMap_append, hlast, ← List.append_assoc (parcels.filterMap _)]
    exact ((List.perm_append_singleton _ _).append_left _).nodup_iff.2 honce
  waiting := h.waiting
  parcels := fun p' hp' => h.parcels p' (List.mem_cons_of_mem _ hp')
  cases := by
    intro k hk
    obtain hk | hk := List.mem_append.1 hk
    · exact h.cases k hk
    · rw [List.mem_singleton.1 hk]
      exact ⟨receivers, hreceivers, (h.labelled List.mem_cons_self hreceivers).2⟩

/-- The server may get a frame that is no request to a service. -/
theorem got_other (h : Ledger submitted size waiting (p :: parcels) cases)
    (hnone : p.receivers = none) : Ledger submitted size waiting parcels cases where
  known := h.known
  promises := h.promises
  short := h.short
  once := by
    have honce := h.once
    rwa [placed, List.filterMap_cons_none hnone] at honce
  waiting := h.waiting
  parcels := fun p' hp' => h.parcels p' (List.mem_cons_of_mem _ hp')
  cases := h.cases

/-- A reply does not change whose case it is. -/
theorem answer {before after : List Case} {k : Case}
    (h : Ledger submitted size waiting parcels (before ++ k :: after)) (r : Reply) :
    Ledger submitted size waiting parcels
      (before ++ { k with replies := k.replies ++ [r] } :: after) where
  known := h.known
  promises := h.promises
  short := h.short
  once := by
    have honce := h.once
    simp only [placed, List.filterMap_append, List.filterMap_cons] at honce ⊢
    exact honce
  waiting := h.waiting
  parcels := h.parcels
  cases := by
    intro k' hk'
    obtain rfl | hk' := mem_middle.1 hk'
    · exact h.cases k (mem_middle.2 (.inl rfl))
    · exact h.cases k' (mem_middle.2 (.inr hk'))

end Ledger

/-! ## Occupied boxes -/

/-- The boxes of requests on their way and of cases that are not fully answered. -/
def occupied (parcels : List Parcel) (cases : List Case) : List UInt16 :=
  (parcels.filter fun p => p.receivers.isSome).map (fun p => p.frame.slot) ++
    (cases.filter Case.isOpen).map fun k => k.frame.slot

variable {parcels parcels' : List Parcel} {cases : List Case} {p : Parcel}

theorem occupied_start (hparcels : ∀ p ∈ parcels, p.receivers = none) :
    occupied parcels [] = [] := by
  have hnone : parcels.filter (fun p => p.receivers.isSome) = [] := by
    refine List.filter_eq_nil_iff.2 fun p hp => ?_
    simp [hparcels p hp]
  simp [occupied, hnone]

/-- The order of frames does not matter. -/
theorem occupied_perm (hperm : parcels'.Perm parcels) (cases : List Case) :
    (occupied parcels' cases).Perm (occupied parcels cases) :=
  ((hperm.filter _).map _).append_right _

/-- A request that is sent occupies its box. -/
theorem occupied_send {receivers : Receivers} (hreceivers : p.receivers = some receivers) :
    (occupied (parcels ++ [p]) cases).Perm (p.frame.slot :: occupied parcels cases) := by
  have hlast : [p].filter (fun p => p.receivers.isSome) = [p] := by simp [hreceivers]
  simp only [occupied, List.filter_append, hlast, List.map_append, List.append_assoc]
  exact List.perm_middle

theorem occupied_send_other (hnone : p.receivers = none) :
    occupied (parcels ++ [p]) cases = occupied parcels cases := by
  simp [occupied, hnone]

/-- A request that the server gets occupies the same box. -/
theorem occupied_got_first {receivers : Receivers} (hreceivers : p.receivers = some receivers) :
    (occupied parcels (cases ++ [⟨p.frame, p.receivers, []⟩])).Perm
      (occupied (p :: parcels) cases) := by
  have hlast : [(⟨p.frame, p.receivers, []⟩ : Case)].filter Case.isOpen =
      [⟨p.frame, p.receivers, []⟩] := by
    simp [Case.isOpen]
  have hfirst : (p :: parcels).filter (fun p => p.receivers.isSome) =
      p :: parcels.filter fun p => p.receivers.isSome := by simp [hreceivers]
  simp only [occupied, List.filter_append, hlast, hfirst, List.map_append, List.map_cons,
    List.map_nil, ← List.append_assoc]
  exact List.perm_append_singleton _ _

theorem occupied_got_other (hnone : p.receivers = none) :
    occupied (p :: parcels) cases = occupied parcels cases := by
  simp [occupied, hnone]

/-- A reply occupies no box. -/
theorem occupied_answer {before after : List Case} {k : Case} (hopen : k.isOpen = true)
    (r : Reply) :
    (occupied parcels (before ++ { k with replies := k.replies ++ [r] } :: after)).Sublist
      (occupied parcels (before ++ k :: after)) := by
  refine (List.Sublist.refl _).append ?_
  simp only [List.filter_append, List.filter_cons, hopen, if_true, List.map_append, List.map_cons]
  refine (List.Sublist.refl _).append ?_
  -- the reply may be the last one of the case
  split
  · exact List.Sublist.refl _
  · exact List.sublist_cons_self _ _

/-- A box that nobody owns is not occupied. -/
theorem Served.not_mem_occupied {boxes : BoxTable} {inbound : List Reply}
    (h : Served boxes parcels cases inbound) {slot : UInt16} (hnone : boxes.owner? slot = none) :
    slot ∉ occupied parcels cases := by
  intro hmem
  obtain hmem | hmem := List.mem_append.1 hmem
  · obtain ⟨p, hp, rfl⟩ := List.mem_map.1 hmem
    obtain ⟨hp, hsome⟩ := List.mem_filter.1 hp
    obtain ⟨receivers, hreceivers⟩ := Option.isSome_iff_exists.1 hsome
    -- the box of a frame on its way is owned for it
    rw [(h.sent p hp receivers hreceivers).1] at hnone
    cases hnone
  · obtain ⟨k, hk, rfl⟩ := List.mem_map.1 hmem
    obtain ⟨hk, hopen⟩ := List.mem_filter.1 hk
    obtain ⟨o, howner, -⟩ := h.serves_of_isOpen hk hopen
    -- a case that is not fully answered has its box
    rw [howner] at hnone
    cases hnone

end QueryLink
