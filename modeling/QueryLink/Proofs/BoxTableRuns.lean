import QueryLink.Proofs.FrameFaults
import QueryLink.Proofs.ShutdownLaws

/-!
# Runs of a box table

What a session does to its response boxes, one `Action` at a time, with replies for any box and
releases of any box. Whatever is done, the free list holds the boxes that nobody owns, each once,
and an owner waits for a reply: for the only one, or for the body of a query whose head he has.

So a box that is taken had no owner, and as long as nobody gives it back it is taken by nobody else.

## Key results

- `Owner.Waits.next`: an owner that heard a reply waits for another, or gives the box back
- `Sound.allocate`, `Sound.push`, `Sound.clear`, `Sound.act`: every action keeps a table sound
- `Sound.free_add_owned`: the free boxes and the owned ones are all boxes
- `Sound.allocateSteps_eq`: no box on the free list has an owner
- `Holds.act`: the allocations that are live are the owners
- `represents_run`: what these come to for a new table
-/

namespace QueryLink

/-! ## Owners -/

/-- An owner waits for a reply. He waits for a second one only if he asked a query and has its
head. -/
structure Owner.Waits (o : Owner) : Prop where
  received_lt : o.received < o.expected
  expected_le : o.expected ≤ 2
  body : o.expected = 2 → (∃ head body, o.receivers = .query head body) ∧ o.received = 1

/-- He waits for the first reply, or for the body of a query. -/
theorem Owner.waits_iff_heard (o : Owner) : o.Waits ↔ o.Heard fun _ => True := by
  constructor
  · intro ⟨hlt, hle, hbody⟩
    obtain hone | htwo : o.received = 0 ∧ o.expected = 1 ∨ o.expected = 2 := by omega
    · exact .inl hone
    · obtain ⟨⟨head, body, hquery⟩, hreceived⟩ := hbody htwo
      exact .inr ⟨head, body, hquery, hreceived, htwo, trivial⟩
  · rintro (⟨hreceived, hexpected⟩ | ⟨head, body, hquery, hreceived, hexpected, -⟩)
    · exact ⟨by omega, by omega, fun htwo => by omega⟩
    · exact ⟨by omega, by omega, fun _ => ⟨⟨head, body, hquery⟩, hreceived⟩⟩

/-- An owner that hears a reply waits for another one, unless he has all. -/
theorem Owner.Waits.next {o : Owner} (h : o.Waits) {isHead : Bool} {arrival : BoxTable.Arrival}
    (harrival : BoxTable.Arrival.of? o isHead = some arrival)
    (hmore : ¬arrival.owner.expected ≤ arrival.owner.received) : arrival.owner.Waits := by
  obtain ⟨-, -, hnext⟩ := ((o.waits_iff_heard).1 h).next harrival
  rw [if_neg hmore] at hnext
  obtain ⟨head, body, hquery, hreceived, hexpected, -⟩ := hnext
  exact (arrival.owner.waits_iff_heard).2
    (.inr ⟨head, body, hquery, hreceived, hexpected, trivial⟩)

namespace BoxTable

/-! ## Actions -/

/-- What can happen to a table. -/
inductive Action where
  | allocate (receivers : Receivers)
  | push (slot : UInt16) (isHead : Bool)
  | release (slot : UInt16)
  | clear
  deriving Repr, DecidableEq

/-- The table after an action. A request that gets no box changes nothing, and neither does a reply
that nobody hears. -/
def act (t : BoxTable) : Action → BoxTable
  | .allocate r =>
    match t.allocate r with
    | some (_, t) => t
    | none => t
  | .push slot isHead =>
    match t.push slot isHead with
    | .ok (_, _, t) => t
    | .error _ => t
  | .release slot => (t.releaseIfDone slot).2
  | .clear => t.clear.2

/-- The table after some actions. -/
def run (t : BoxTable) (as : List Action) : BoxTable := as.foldl act t

/-- Takes a box out of the free list step by step; `none` where the box is not in the table, or has
an owner. -/
def allocateSteps (t : BoxTable) (r : Receivers) : Option (Option (UInt16 × BoxTable)) :=
  match t.free with
  | [] => some none
  | slot :: free =>
    match t.boxes[slot.toNat]? with
    | some none => some (some (slot, { t with free }.setOwner slot (some { receivers := r })))
    | _ => none

/-! ## The invariant -/

/-- The free list is right, and every owner waits for a reply. -/
structure Sound (t : BoxTable) : Prop extends t.Valid where
  complete : t.Complete
  waits : ∀ slot o, t.owner? slot = some o → o.Waits

theorem sound_ofCapacity {capacity : Nat} (h : capacity ≤ UInt16.size) :
    (ofCapacity capacity).Sound where
  toValid := valid_ofCapacity h
  complete := complete_ofCapacity capacity
  waits slot o howner := by
    rw [owner?_ofCapacity] at howner
    cases howner

namespace Sound

variable {t t' : BoxTable} {slot : UInt16} {r : Receivers} {isHead freed : Bool}
  {completes : List PromiseId}

/-- The free list holds the boxes that nobody owns. -/
theorem mem_free_iff (h : t.Sound) (slot : UInt16) :
    slot ∈ t.free ↔ slot.toNat < t.boxes.size ∧ t.owner? slot = none :=
  ⟨fun hmem => ⟨h.inBounds slot hmem, h.unowned slot hmem⟩, fun ⟨hlt, hnone⟩ =>
    h.complete slot hlt hnone⟩

theorem allocate (h : t.Sound) (hallocate : t.allocate r = some (slot, t')) : t'.Sound where
  toValid := h.toValid.allocate hallocate
  complete := h.complete.allocate h.toValid hallocate
  waits other o howner := by
    obtain ⟨-, hothers⟩ := h.toValid.owner?_allocate hallocate
    rw [hothers] at howner
    split at howner
    · cases howner
      exact (Owner.waits_iff_heard _).2 (.inl ⟨rfl, rfl⟩)
    · exact h.waits other o howner

theorem push (h : t.Sound) (hpush : t.push slot isHead = .ok (completes, freed, t')) :
    t'.Sound := by
  obtain ⟨o, arrival, howner, harrival, -, -, hvalid, hothers⟩ := h.toValid.push_ok hpush
  refine ⟨hvalid, h.complete.push h.toValid hpush, fun other o' howner' => ?_⟩
  rw [hothers] at howner'
  split at howner'
  · split at howner'
    · cases howner'
    · rename_i hmore
      cases howner'
      exact (h.waits slot o howner).next harrival hmore
  · exact h.waits other o' howner'

/-- A reply is heard by whoever owns the box, and refused if nobody does. -/
theorem push_eq_error_iff (h : t.Sound) (slot : UInt16) (isHead : Bool) (e : ProtocolError) :
    t.push slot isHead = .error e ↔ t.owner? slot = none ∧ e = .unknownSlot slot :=
  BoxTable.push_eq_error_iff fun o howner =>
    ((o.waits_iff_heard).1 (h.waits slot o howner)).expects isHead

/-- A reply that is heard puts its box on the free list once, or not at all. -/
theorem count_free_of_push (h : t.Sound) (hpush : t.push slot isHead = .ok (completes, freed, t')) :
    t'.free.count slot = if freed then 1 else 0 := by
  obtain ⟨o, -, howner, -⟩ := h.toValid.push_ok hpush
  have hnot : slot ∉ t.free := fun hmem => by
    rw [h.unowned slot hmem] at howner
    cases howner
  rw [(free_of_push hpush).1]
  split
  · rw [List.count_append, List.count_eq_zero_of_not_mem hnot, List.count_singleton_self]
  · exact List.count_eq_zero_of_not_mem hnot

/-- Whoever owns a box waits for a reply, so nothing is released without one. -/
theorem releaseIfDone_eq (h : t.Sound) (slot : UInt16) : t.releaseIfDone slot = (false, t) := by
  unfold releaseIfDone
  split
  · rename_i o howner
    rw [if_neg (Nat.not_le.2 (h.waits slot o howner).received_lt)]
  · rfl

end Sound

/-! ## Taking all boxes -/

/-- The boxes that have an owner, lowest first. -/
def owned (t : BoxTable) : List UInt16 :=
  (t.boxes.toList.zipIdx.filterMap fun (owner, slot) => owner.map (·, slot)).map
    fun (_, slot) => UInt16.ofNat slot

theorem free_clear (t : BoxTable) : t.clear.2.free = t.free ++ t.owned := rfl

theorem size_clear (t : BoxTable) : t.clear.2.boxes.size = t.boxes.size := Array.size_map

/-- There are as many of them as there are owners. -/
theorem length_owned (t : BoxTable) : t.owned.length = t.boxes.countP Option.isSome := by
  have howner (p : Option Owner × Nat) : ((fun (owner, slot) => owner.map (·, slot) :
      Option Owner × Nat → Option (Owner × Nat)) p).isSome = (Option.isSome ∘ Prod.fst) p := by
    simp
  rw [owned, List.length_map, List.length_filterMap_eq_countP,
    List.countP_congr fun p _ => Bool.eq_iff_iff.1 (howner p), ← List.countP_map,
    List.zipIdx_map_fst, Array.countP_toList]

/-- The numbers of boxes are not cut off. -/
theorem lt_of_mem_zipIdx {t : BoxTable} (h : t.boxes.size ≤ UInt16.size) {owner : Option Owner}
    {n : Nat} (hmem : (owner, n) ∈ t.boxes.toList.zipIdx) : (UInt16.ofNat n).toNat = n := by
  have hlt := List.snd_lt_of_mem_zipIdx hmem
  rw [Array.length_toList, Nat.add_zero] at hlt
  exact UInt16.toNat_ofNat_of_lt' (Nat.lt_of_lt_of_le hlt h)

theorem mem_owned_iff {t : BoxTable} (h : t.boxes.size ≤ UInt16.size) (slot : UInt16) :
    slot ∈ t.owned ↔ ∃ o, t.owner? slot = some o := by
  have hbox (o : Owner) (n : Nat) :
      (some o, n) ∈ t.boxes.toList.zipIdx ↔ t.boxes[n]? = some (some o) := by
    rw [List.mem_zipIdx_iff_getElem?, Array.getElem?_toList]
  constructor
  · intro hmem
    obtain ⟨p, hp, rfl⟩ := List.mem_map.1 hmem
    obtain ⟨⟨owner, n⟩, hn, howner⟩ := List.mem_filterMap.1 hp
    obtain ⟨o, rfl, rfl⟩ := Option.map_eq_some_iff.1 howner
    exact ⟨o, by rw [owner?, lt_of_mem_zipIdx h hn, (hbox o n).1 hn, Option.join_some]⟩
  · rintro ⟨o, howner⟩
    have hmem := (hbox o slot.toNat).2 (Option.join_eq_some_iff.1 howner)
    exact List.mem_map.2 ⟨(o, slot.toNat), List.mem_filterMap.2 ⟨_, hmem, rfl⟩,
      UInt16.ofNat_toNat⟩

theorem nodup_owned {t : BoxTable} (h : t.boxes.size ≤ UInt16.size) : t.owned.Nodup := by
  have hnodup : (t.boxes.toList.zipIdx.map Prod.snd).Nodup := by
    rw [List.zipIdx_map_snd]
    exact List.nodup_range'
  -- two boxes have two places in the table, and the numbers of places are not cut off
  refine List.pairwise_map.2 (List.pairwise_filterMap.2
    ((List.pairwise_map.1 hnodup).imp_of_mem ?_))
  rintro ⟨owner, n⟩ ⟨owner', n'⟩ hn hn' hne p hp p' hp' heq
  obtain ⟨o, -, rfl⟩ := Option.map_eq_some_iff.1 hp
  obtain ⟨o', -, rfl⟩ := Option.map_eq_some_iff.1 hp'
  have hsame := congrArg UInt16.toNat heq
  rw [lt_of_mem_zipIdx h hn, lt_of_mem_zipIdx h hn'] at hsame
  exact hne hsame

namespace Sound

variable {t t' : BoxTable} {a : Action}

/-- The boxes that are taken from their owners join those that nobody owns. -/
theorem clear (h : t.Sound) (hsize : t.boxes.size ≤ UInt16.size) : t.clear.2.Sound where
  nodup := by
    rw [free_clear, List.nodup_append]
    refine ⟨h.nodup, nodup_owned hsize, ?_⟩
    rintro slot hfree other howned rfl
    obtain ⟨o, howner⟩ := (mem_owned_iff hsize slot).1 howned
    rw [h.unowned slot hfree] at howner
    cases howner
  unowned slot _ := t.owner?_clear slot
  inBounds slot hmem := by
    rw [size_clear]
    obtain hfree | howned := List.mem_append.1 hmem
    · exact h.inBounds slot hfree
    · obtain ⟨o, howner⟩ := (mem_owned_iff hsize slot).1 howned
      exact inBounds_of_owner howner
  complete slot hlt _ := by
    rw [size_clear] at hlt
    rw [free_clear, List.mem_append, mem_owned_iff hsize]
    cases howner : t.owner? slot with
    | none => exact .inl (h.complete slot hlt howner)
    | some o => exact .inr ⟨o, rfl⟩
  waits slot o howner := by
    rw [owner?_clear] at howner
    cases howner

/-- A box is free or owned. -/
theorem free_add_owned (h : t.Sound) (hsize : t.boxes.size ≤ UInt16.size) :
    t.free.length + t.boxes.countP Option.isSome = t.boxes.size := by
  have hclear := h.clear hsize
  have hnew := sound_ofCapacity hsize
  -- once all boxes are taken from their owners the free boxes are those of a new table
  have hperm : t.clear.2.free.Perm (ofCapacity t.boxes.size).free := by
    refine (List.perm_ext_iff_of_nodup hclear.nodup hnew.nodup).2 fun slot => ?_
    rw [hclear.mem_free_iff, hnew.mem_free_iff, owner?_clear, owner?_ofCapacity, size_clear,
      ofCapacity, Array.size_replicate]
  have hlength := hperm.length_eq
  rw [free_clear, List.length_append, length_owned, ofCapacity, List.length_map,
    List.length_range] at hlength
  exact hlength

/-- No box on the free list has an owner, so a box is taken step by step as it is at once. -/
theorem allocateSteps_eq (h : t.Sound) (r : Receivers) :
    t.allocateSteps r = some (t.allocate r) := by
  cases hfree : t.free with
  | nil => simp only [allocateSteps, BoxTable.allocate, hfree]
  | cons slot free =>
    have hmem : slot ∈ t.free := hfree ▸ List.mem_cons_self
    have hlt := h.inBounds slot hmem
    have hnone : t.boxes[slot.toNat]? = some none := by
      have hunowned := h.unowned slot hmem
      rw [owner?, Array.getElem?_eq_getElem hlt, Option.join_some] at hunowned
      rw [Array.getElem?_eq_getElem hlt, hunowned]
    simp only [allocateSteps, BoxTable.allocate, hfree, hnone]

theorem act (h : t.Sound) (hsize : t.boxes.size ≤ UInt16.size) (a : Action) :
    (t.act a).Sound ∧ (t.act a).boxes.size = t.boxes.size := by
  cases a with
  | allocate r =>
    rw [BoxTable.act]
    split
    · rename_i hallocate
      exact ⟨h.allocate hallocate, (free_of_allocate hallocate).2⟩
    · exact ⟨h, rfl⟩
  | push slot isHead =>
    rw [BoxTable.act]
    split
    · rename_i hpush
      exact ⟨h.push hpush, (free_of_push hpush).2⟩
    · exact ⟨h, rfl⟩
  | release slot =>
    rw [BoxTable.act, h.releaseIfDone_eq]
    exact ⟨h, rfl⟩
  | clear => exact ⟨h.clear hsize, t.size_clear⟩

theorem run (h : t.Sound) (hsize : t.boxes.size ≤ UInt16.size) (as : List Action) :
    (t.run as).Sound ∧ (t.run as).boxes.size = t.boxes.size := by
  induction as generalizing t with
  | nil => exact ⟨h, rfl⟩
  | cons a as ih =>
    obtain ⟨hact, hsame⟩ := h.act hsize a
    rw [← hsame] at hsize ⊢
    exact ih hact hsize

end Sound

/-! ## Live allocations -/

/-- Boxes, each with the request that it was given to. -/
abbrev Grants := List (UInt16 × Receivers)

/-- The grants without the last one of a box. -/
def Grants.without (live : Grants) (slot : UInt16) : Grants :=
  live.eraseP fun g => g.1 = slot

/-- The allocations that are live after an action: one that is made is, and one whose box is freed
is not any more. -/
def grant (t : BoxTable) (live : Grants) : Action → Grants
  | .allocate r =>
    match t.allocate r with
    | some (slot, _) => (slot, r) :: live
    | none => live
  | .push slot isHead =>
    match t.push slot isHead with
    | .ok (_, true, _) => live.without slot
    | _ => live
  | .release slot => if (t.releaseIfDone slot).1 then live.without slot else live
  | .clear => []

/-- The allocations that are live after some actions. -/
def grantAll : BoxTable → Grants → List Action → Grants
  | _, live, [] => live
  | t, live, a :: as => grantAll (t.act a) (t.grant live a) as

/-- The live allocations are the owners of the boxes, and no two are of one box. -/
structure Holds (t : BoxTable) (live : Grants) : Prop where
  distinct : (live.map Prod.fst).Nodup
  mem_iff : ∀ slot r, (slot, r) ∈ live ↔ ∃ o, t.owner? slot = some o ∧ o.receivers = r

/-- Of each box there is one grant to be taken out. -/
theorem Grants.mem_without_iff {live : Grants} (h : (live.map Prod.fst).Nodup) (slot : UInt16)
    (g : UInt16 × Receivers) : g ∈ live.without slot ↔ g ∈ live ∧ g.1 ≠ slot := by
  induction live with
  | nil => simp [without]
  | cons first live ih =>
    rw [List.map_cons, List.nodup_cons] at h
    by_cases hfirst : first.1 = slot
    · -- there is no other grant of the box
      rw [without, List.eraseP_cons_of_pos (by simpa using hfirst)]
      constructor
      · intro hmem
        refine ⟨List.mem_cons_of_mem _ hmem, fun hslot => h.1 ?_⟩
        rw [hfirst, ← hslot]
        exact List.mem_map_of_mem hmem
      · rintro ⟨hmem, hslot⟩
        refine (List.mem_cons.1 hmem).resolve_left ?_
        rintro rfl
        exact hslot hfirst
    · rw [without, List.eraseP_cons_of_neg (by simpa using hfirst), List.mem_cons, ← without,
        ih h.2, List.mem_cons]
      constructor
      · rintro (rfl | ⟨hmem, hslot⟩)
        · exact ⟨.inl rfl, hfirst⟩
        · exact ⟨.inr hmem, hslot⟩
      · rintro ⟨rfl | hmem, hslot⟩
        · exact .inl rfl
        · exact .inr ⟨hmem, hslot⟩

namespace Holds

variable {t t' : BoxTable} {live : Grants} {slot : UInt16} {r : Receivers}

/-- Nobody is granted a box that has no owner. -/
theorem slot_not_mem (h : t.Holds live) (hnone : t.owner? slot = none) :
    slot ∉ live.map Prod.fst := by
  intro hmem
  obtain ⟨⟨_, r⟩, hgrant, rfl⟩ := List.mem_map.1 hmem
  obtain ⟨o, howner, -⟩ := (h.mem_iff _ r).1 hgrant
  rw [hnone] at howner
  cases howner

theorem allocate (h : t.Holds live) (ht : t.Sound)
    (hallocate : t.allocate r = some (slot, t')) : t'.Holds ((slot, r) :: live) := by
  obtain ⟨hnone, hothers⟩ := ht.owner?_allocate hallocate
  have hfresh := h.slot_not_mem hnone
  refine ⟨List.nodup_cons.2 ⟨hfresh, h.distinct⟩, fun other r' => ?_⟩
  rw [List.mem_cons, hothers]
  by_cases hother : other = slot
  · subst hother
    rw [if_pos rfl]
    constructor
    · rintro (heq | hmem)
      · cases heq
        exact ⟨_, rfl, rfl⟩
      · exact absurd (List.mem_map_of_mem hmem) hfresh
    · rintro ⟨o, howner, rfl⟩
      cases howner
      exact .inl rfl
  · rw [if_neg hother, ← h.mem_iff]
    exact or_iff_right fun heq => hother (congrArg Prod.fst heq)

/-- The owner of a box gives it back. -/
theorem without (h : t.Holds live)
    (hothers : ∀ other, t'.owner? other = if other = slot then none else t.owner? other) :
    t'.Holds (live.without slot) where
  distinct := h.distinct.sublist (List.eraseP_sublist.map Prod.fst)
  mem_iff other r := by
    rw [Grants.mem_without_iff h.distinct, h.mem_iff, hothers]
    by_cases hother : other = slot
    · rw [if_pos hother]
      exact iff_of_false (fun hand => hand.2 hother) nofun
    · rw [if_neg hother]
      exact and_iff_left hother

/-- The owner of a box moves on. -/
theorem moved (h : t.Holds live) {o o' : Owner} (howner : t.owner? slot = some o)
    (hsame : o'.receivers = o.receivers)
    (hothers : ∀ other, t'.owner? other = if other = slot then some o' else t.owner? other) :
    t'.Holds live where
  distinct := h.distinct
  mem_iff other r := by
    rw [h.mem_iff, hothers]
    split
    · rename_i hother
      rw [hother, howner]
      constructor
      · rintro ⟨_, ⟨⟩, rfl⟩
        exact ⟨o', rfl, hsame⟩
      · rintro ⟨_, ⟨⟩, rfl⟩
        exact ⟨o, rfl, hsame.symm⟩
    · rfl

theorem act (h : t.Holds live) (ht : t.Sound) (a : Action) :
    (t.act a).Holds (t.grant live a) := by
  cases a with
  | allocate r =>
    rw [BoxTable.act, grant]
    cases hallocate : t.allocate r with
    | none => exact h
    | some taken => exact h.allocate ht hallocate
  | push slot isHead =>
    rw [BoxTable.act, grant]
    cases hpush : t.push slot isHead with
    | error e => exact h
    | ok pushed =>
      obtain ⟨completes, freed, t'⟩ := pushed
      obtain ⟨o, arrival, howner, harrival, -, rfl, -, hothers⟩ := ht.push_ok hpush
      -- the owner has all replies and leaves, or he waits for the body
      by_cases hdone : arrival.owner.expected ≤ arrival.owner.received
      · simp only [if_pos hdone] at hothers
        rw [decide_eq_true hdone]
        exact h.without hothers
      · simp only [if_neg hdone] at hothers
        rw [decide_eq_false hdone]
        exact h.moved howner (Arrival.receivers_of? harrival) hothers
  | release slot =>
    rw [BoxTable.act, grant, ht.releaseIfDone_eq]
    exact h
  | clear =>
    rw [BoxTable.act, grant]
    refine ⟨List.nodup_nil, fun slot r => iff_of_false List.not_mem_nil ?_⟩
    rintro ⟨o, howner, -⟩
    rw [owner?_clear] at howner
    cases howner

theorem run (h : t.Holds live) (ht : t.Sound) (hsize : t.boxes.size ≤ UInt16.size)
    (as : List Action) : (t.run as).Holds (t.grantAll live as) := by
  induction as generalizing t live with
  | nil => exact h
  | cons a as ih =>
    obtain ⟨hact, hsame⟩ := ht.act hsize a
    exact ih (h.act ht a) hact (hsame ▸ hsize)

end Holds

/-! ## Tables of a session -/

/-- What holds of a table of response boxes and of the allocations that are live. -/
structure Represents (capacity : Nat) (t : BoxTable) (live : Grants) : Prop where
  size : t.boxes.size = capacity
  /-- The free list holds the boxes without an owner, -/
  free : ∀ slot, slot ∈ t.free ↔ slot.toNat < capacity ∧ t.owner? slot = none
  /-- each once. -/
  nodup : t.free.Nodup
  /-- As many boxes are in use as have an owner, and the count does not fall below zero. -/
  inUse : t.inUse = t.boxes.countP Option.isSome ∧ t.free.length ≤ t.boxes.size
  /-- Every owner waits for a reply, a second one for a query only. -/
  waits : ∀ slot o, t.owner? slot = some o → o.Waits
  /-- A box that is taken is in the table and has no owner. -/
  allocateSteps : ∀ r, t.allocateSteps r = some (t.allocate r)
  /-- A box is taken when there is one without an owner. -/
  allocate : ∀ r, (t.allocate r).isSome = true ↔
    ∃ slot : UInt16, slot.toNat < capacity ∧ t.owner? slot = none
  /-- No two live allocations are of one box. -/
  live : t.Holds live
  /-- A reply says that it freed its box when it put it on the free list, which it does once. -/
  freed : ∀ slot isHead completes freed t', t.push slot isHead = .ok (completes, freed, t') →
    t'.free = (if freed then t.free ++ [slot] else t.free) ∧
      t'.free.count slot = if freed then 1 else 0
  /-- A reply is refused for a box that nobody owns, be there such a box or not. -/
  refused : ∀ slot isHead e, t.push slot isHead = .error e ↔
    t.owner? slot = none ∧ e = .unknownSlot slot
  /-- Without a reply no box is released. -/
  release : ∀ slot, t.releaseIfDone slot = (false, t)

/-- The boxes of a session are what they should be, whatever is done with them. -/
theorem represents_run {capacity : Nat} (h : capacity ≤ 65535) (as : List Action) :
    Represents capacity ((ofCapacity capacity).run as) ((ofCapacity capacity).grantAll [] as) := by
  have hsize : (ofCapacity capacity).boxes.size = capacity := Array.size_replicate
  have hfits : (ofCapacity capacity).boxes.size ≤ UInt16.size := by
    rw [hsize]
    exact Nat.le_succ_of_le h
  have hnew : (ofCapacity capacity).Sound := sound_ofCapacity (Nat.le_succ_of_le h)
  have hnobody : (ofCapacity capacity).Holds [] := by
    refine ⟨List.nodup_nil, fun slot r => iff_of_false List.not_mem_nil ?_⟩
    rintro ⟨o, howner, -⟩
    rw [owner?_ofCapacity] at howner
    cases howner
  obtain ⟨hsound, hsame⟩ := hnew.run hfits as
  have hholds := hnobody.run hnew hfits as
  generalize (ofCapacity capacity).run as = t at *
  generalize (ofCapacity capacity).grantAll [] as = live at *
  -- the invariants say the rest, of whatever table came out
  have hcapacity : t.boxes.size = capacity := hsame.trans hsize
  have hall := hsound.free_add_owned (hsame ▸ hfits)
  exact {
    size := hcapacity
    free := fun slot => by rw [hsound.mem_free_iff, hcapacity]
    nodup := hsound.nodup
    inUse := by
      unfold inUse
      omega
    waits := hsound.waits
    allocateSteps := hsound.allocateSteps_eq
    allocate := fun r => by
      rw [Option.isSome_iff_ne_none, ne_eq, allocate_eq_none, List.eq_nil_iff_forall_not_mem]
      simp only [hsound.mem_free_iff, hcapacity, not_forall, not_not]
    live := hholds
    freed := fun slot isHead completes freed t' hpush =>
      ⟨(free_of_push hpush).1, hsound.count_free_of_push hpush⟩
    refused := hsound.push_eq_error_iff
    release := hsound.releaseIfDone_eq }

/-- Three requests for two boxes, one of them a query that has its head; the box of the first goes
to the third. -/
def reuse : List Action :=
  [.allocate (.statement 0), .allocate (.query 1 2), .allocate (.statement 3), .push 1 true,
    .push 0 false, .push 9 false, .allocate (.statement 3), .release 1]

/-- The third request and the query hold the boxes then. -/
theorem represents_run_reuse :
    2 ≤ 65535 ∧ Represents 2 ((ofCapacity 2).run reuse) ((ofCapacity 2).grantAll [] reuse) ∧
      (ofCapacity 2).grantAll [] reuse = [(0, .statement 3), (1, .query 1 2)] :=
  ⟨by decide, represents_run (by decide) reuse, by decide⟩

end BoxTable

end QueryLink
