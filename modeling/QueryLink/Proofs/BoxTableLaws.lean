import QueryLink.Session.BoxTable

/-!
# Who owns a response box

What the operations on a table of response boxes do to the owner of each box, as long as the free
list holds boxes that nobody owns, each once.

## Key results

- `valid_ofCapacity`, `Valid.allocate`, `Valid.setOwner`, `Valid.release`: the free list stays right
- `Valid.owner?_allocate`: a box that is taken had no owner
- `Valid.push`: a reply moves the owner on, or frees the box after the last one
- `Complete.allocate`: a box that nobody owns is on the free list
-/

namespace QueryLink.BoxTable

/-- The free list holds boxes that nobody owns, each once. -/
structure Valid (t : BoxTable) : Prop where
  nodup : t.free.Nodup
  unowned : ∀ slot ∈ t.free, t.owner? slot = none
  inBounds : ∀ slot ∈ t.free, slot.toNat < t.boxes.size

theorem owner?_ofCapacity (capacity : Nat) (slot : UInt16) :
    (ofCapacity capacity).owner? slot = none := by
  simp only [owner?, ofCapacity, Array.getElem?_replicate]
  split <;> rfl

/-- All boxes of a new table are free; their numbers fit 16 bits. -/
theorem valid_ofCapacity {capacity : Nat} (h : capacity ≤ 65536) : (ofCapacity capacity).Valid where
  nodup := by
    refine List.pairwise_map.2 (List.nodup_range.imp_of_mem ?_)
    intro a b ha hb hne heq
    -- numbers below the capacity do not wrap around
    have ha' := List.mem_range.1 ha
    have hb' := List.mem_range.1 hb
    have htoNat := congrArg UInt16.toNat heq
    rw [UInt16.toNat_ofNat', UInt16.toNat_ofNat'] at htoNat
    omega
  unowned := fun slot _ => owner?_ofCapacity capacity slot
  inBounds := by
    intro slot hslot
    obtain ⟨n, hn, rfl⟩ := List.mem_map.1 hslot
    have hlt := List.mem_range.1 hn
    rw [UInt16.toNat_ofNat', ofCapacity, Array.size_replicate]
    omega

theorem owner?_setOwner {t : BoxTable} {slot : UInt16} (h : slot.toNat < t.boxes.size)
    (o : Option Owner) (other : UInt16) :
    (t.setOwner slot o).owner? other = if other = slot then o else t.owner? other := by
  simp only [owner?, setOwner, Array.getElem?_setIfInBounds, UInt16.toNat_inj]
  by_cases hother : slot = other
  · subst hother
    simp [h]
  · simp [hother, Ne.symm hother]

/-- A box with an owner is in the table. -/
theorem inBounds_of_owner {t : BoxTable} {slot : UInt16} {o : Owner} (h : t.owner? slot = some o) :
    slot.toNat < t.boxes.size := by
  simp only [owner?] at h
  by_cases hlt : slot.toNat < t.boxes.size
  · exact hlt
  · rw [Array.getElem?_eq_none (by omega)] at h
    cases h

/-- A box that is taken had no owner and has one now; the others keep theirs. -/
theorem Valid.owner?_allocate {t t' : BoxTable} (ht : t.Valid) {r : Receivers} {slot : UInt16}
    (h : t.allocate r = some (slot, t')) :
    t.owner? slot = none ∧
      ∀ other, t'.owner? other = if other = slot then some ⟨r, 1, 0⟩ else t.owner? other := by
  unfold allocate at h
  split at h
  · cases h
  · rename_i first free hfree
    cases h
    have hmem : slot ∈ t.free := hfree ▸ List.mem_cons_self
    refine ⟨ht.unowned slot hmem, fun other => ?_⟩
    exact owner?_setOwner (t := { t with free }) (ht.inBounds slot hmem) _ other

/-- Taking a box leaves the others on the free list. -/
theorem Valid.allocate {t t' : BoxTable} (ht : t.Valid) {r : Receivers} {slot : UInt16}
    (h : t.allocate r = some (slot, t')) : t'.Valid := by
  obtain ⟨-, howner⟩ := ht.owner?_allocate h
  unfold BoxTable.allocate at h
  split at h
  · cases h
  · rename_i first free hfree
    cases h
    have hnodup := ht.nodup
    rw [hfree, List.nodup_cons] at hnodup
    have hmem : ∀ s ∈ free, s ∈ t.free := fun s hs => hfree ▸ List.mem_cons_of_mem _ hs
    -- the box that was taken is not in the rest of the list
    refine ⟨hnodup.2, fun s hs => ?_, fun s hs => ?_⟩
    · rw [howner, if_neg fun (heq : s = slot) => hnodup.1 (heq ▸ hs)]
      exact ht.unowned s (hmem s hs)
    · have hlt := ht.inBounds s (hmem s hs)
      simpa [setOwner] using hlt

/-- A box that is owned may get another owner. -/
theorem Valid.setOwner {t : BoxTable} (ht : t.Valid) {slot : UInt16} {o : Owner}
    (howner : t.owner? slot = some o) (o' : Owner) : (t.setOwner slot (some o')).Valid where
  nodup := ht.nodup
  unowned := by
    intro s hs
    have hnone : t.owner? s = none := ht.unowned s hs
    -- boxes on the free list have no owner
    have hne : s ≠ slot := by
      rintro rfl
      rw [hnone] at howner
      cases howner
    rw [owner?_setOwner (inBounds_of_owner howner), if_neg hne, hnone]
  inBounds := by
    intro s hs
    have hlt := ht.inBounds s hs
    simpa [BoxTable.setOwner] using hlt

/-- A box that its owner gives back joins the free list. -/
theorem Valid.release {t : BoxTable} (ht : t.Valid) {slot : UInt16} {o : Owner}
    (howner : t.owner? slot = some o) :
    BoxTable.Valid { t.setOwner slot none with free := t.free ++ [slot] } where
  nodup := by
    rw [List.nodup_append]
    refine ⟨ht.nodup, by simp, fun a ha b hb heq => ?_⟩
    rw [List.mem_singleton] at hb
    subst heq hb
    -- the box has an owner, so it was not on the list
    rw [ht.unowned a ha] at howner
    cases howner
  unowned := by
    intro s hs
    have hset : (t.setOwner slot none).owner? s = if s = slot then none else t.owner? s :=
      owner?_setOwner (inBounds_of_owner howner) none s
    refine hset.trans ?_
    split
    · rfl
    · rename_i hne
      obtain hs | hs := List.mem_append.1 hs
      · exact ht.unowned s hs
      · exact absurd (List.mem_singleton.1 hs) hne
  inBounds := by
    intro s hs
    simp only [BoxTable.setOwner, Array.size_setIfInBounds]
    obtain hs | hs := List.mem_append.1 hs
    · exact ht.inBounds s hs
    · rw [List.mem_singleton.1 hs]
      exact inBounds_of_owner howner

/-- A reply moves the owner of its box on; the last one frees the box. -/
theorem Valid.push {t : BoxTable} (ht : t.Valid) {slot : UInt16} {isHead : Bool} {o : Owner}
    {arrival : Arrival} (howner : t.owner? slot = some o)
    (harrival : Arrival.of? o isHead = some arrival) :
    ∃ t', t.push slot isHead =
        .ok (arrival.completes, decide (arrival.owner.expected ≤ arrival.owner.received), t') ∧
      t'.Valid ∧
      ∀ other, t'.owner? other =
        if other = slot then
          if arrival.owner.expected ≤ arrival.owner.received then none else some arrival.owner
        else t.owner? other := by
  have hlt := inBounds_of_owner howner
  have hmoved : (t.setOwner slot (some arrival.owner)).owner? slot = some arrival.owner := by
    rw [owner?_setOwner hlt, if_pos rfl]
  have hvalid := ht.setOwner howner arrival.owner
  unfold BoxTable.push releaseIfDone
  simp only [howner, harrival, hmoved]
  -- the owner gives the box back after the last reply
  split
  · rename_i hdone
    refine ⟨_, by rw [decide_eq_true hdone], hvalid.release hmoved, fun other => ?_⟩
    have hset := owner?_setOwner (inBounds_of_owner hmoved) none other
    rw [owner?_setOwner hlt] at hset
    refine hset.trans ?_
    split <;> rfl
  · rename_i hmore
    refine ⟨_, by rw [decide_eq_false hmore], hvalid, fun other => ?_⟩
    exact owner?_setOwner hlt _ other

/-! ## No box is lost -/

/-- A box that nobody owns is on the free list. -/
def Complete (t : BoxTable) : Prop :=
  ∀ slot : UInt16, slot.toNat < t.boxes.size → t.owner? slot = none → slot ∈ t.free

theorem complete_ofCapacity (capacity : Nat) : (ofCapacity capacity).Complete := by
  intro slot hlt _
  rw [ofCapacity, Array.size_replicate] at hlt
  exact List.mem_map.2 ⟨slot.toNat, List.mem_range.2 hlt, UInt16.ofNat_toNat⟩

/-- The first free box is taken. -/
theorem free_of_allocate {t t' : BoxTable} {r : Receivers} {slot : UInt16}
    (h : t.allocate r = some (slot, t')) :
    t.free = slot :: t'.free ∧ t'.boxes.size = t.boxes.size := by
  unfold allocate at h
  split at h
  · cases h
  · rename_i first free hfree
    cases h
    exact ⟨hfree, Array.size_setIfInBounds⟩

/-- There is a box unless all are owned. -/
theorem allocate_eq_none {t : BoxTable} {r : Receivers} : t.allocate r = none ↔ t.free = [] := by
  unfold allocate
  split
  · rename_i hfree
    exact iff_of_true rfl hfree
  · rename_i hfree
    exact iff_of_false nofun (by simp [hfree])

/-- A box is freed at the end of the list. -/
theorem free_of_push {t t' : BoxTable} {slot : UInt16} {isHead freed : Bool}
    {completes : List PromiseId} (h : t.push slot isHead = .ok (completes, freed, t')) :
    t'.free = (if freed then t.free ++ [slot] else t.free) ∧ t'.boxes.size = t.boxes.size := by
  have hrelease (t : BoxTable) : (t.releaseIfDone slot).2.free =
        (if (t.releaseIfDone slot).1 then t.free ++ [slot] else t.free) ∧
      (t.releaseIfDone slot).2.boxes.size = t.boxes.size := by
    unfold releaseIfDone
    split
    · split
      · exact ⟨rfl, Array.size_setIfInBounds⟩
      · exact ⟨rfl, rfl⟩
    · exact ⟨rfl, rfl⟩
  unfold push at h
  split at h
  · cases h
  · split at h
    · cases h
    · rename_i arrival harrival
      cases h
      obtain ⟨hfree, hsize⟩ := hrelease (t.setOwner slot (some arrival.owner))
      exact ⟨hfree, hsize.trans Array.size_setIfInBounds⟩

/-- Taking a box leaves no other box behind. -/
theorem Complete.allocate {t t' : BoxTable} (ht : t.Complete) (hvalid : t.Valid) {r : Receivers}
    {slot : UInt16} (h : t.allocate r = some (slot, t')) : t'.Complete := by
  obtain ⟨hfree, hsize⟩ := free_of_allocate h
  obtain ⟨-, howner⟩ := hvalid.owner?_allocate h
  intro other hlt hnone
  rw [howner] at hnone
  split at hnone
  · cases hnone
  · rename_i hne
    have hmem := ht other (hsize ▸ hlt) hnone
    rw [hfree] at hmem
    exact (List.mem_cons.1 hmem).resolve_left hne

end QueryLink.BoxTable
