import QueryLink.Proofs.CatalogOrder

/-!
# The records of a result set

What the frames of one result set amount to: every writer has a buffer, a piece is appended to
its writer's, an empty piece ends the writer's record, and the end of the result set ends all
records. `assemble` reads this off a list of actions without any catalog; `Holds` relates it to
the entry and the feed a catalog keeps.

## Key results

- `leftovers_eq`: the records a catalog ends are those that are not empty, lowest writer first
- `Holds.piece`, `Holds.closing`, `Holds.take`: pieces, the end and readers keep the two together
-/

namespace QueryLink.Catalog

/-- What there is of a result set. -/
structure Assembly where
  /-- The index it is streamed under. -/
  index : Option UInt16 := none
  /-- The record each writer is at. -/
  buffers : UInt8 → Bytes := fun _ => []
  /-- What its consumer is told, first event first. -/
  events : List Feed.Event := []
  /-- Whether there will be no more. -/
  ended : Bool := false

namespace Assembly

/-- All writers, lowest first. -/
def writers : List UInt8 := (List.range 256).map UInt8.ofNat

/-- The records that writers have not ended. -/
def leftovers (s : Assembly) : List Bytes := (writers.map s.buffers).filter (· ≠ [])

/-- Gives a writer another buffer. -/
def fill (s : Assembly) (writer : UInt8) (bytes : Bytes) : Assembly :=
  { s with buffers := fun w => if w = writer then bytes else s.buffers w }

/-- The result set of a name after an action. -/
def step (name : String) (s : Assembly) : Action → Assembly
  | .hello index n => if n = name ∧ ¬ s.ended then { s with index := some index } else s
  | .piece index writer bytes =>
    if s.index ≠ some index then s
    else if bytes ≠ [] then s.fill writer (s.buffers writer ++ bytes)
    else if s.buffers writer = [] then s
    else { s.fill writer [] with events := s.events ++ [.record (s.buffers writer)] }
  | .bye index =>
    if s.index ≠ some index then s
    else { s with
      index := none
      ended := true
      events := s.events ++ (s.leftovers.map .record ++ [.endOfRecords]) }
  | .terminate outage =>
    if s.ended then s
    else { s with index := none, ended := true, events := s.events ++ [.cutOff outage] }
  | _ => s

end Assembly

/-- The result set of a name after some actions, by the frames of its own index alone. -/
def assemble (name : String) (as : List Action) : Assembly := as.foldl (Assembly.step name) {}

theorem assemble_append (name : String) (as bs : List Action) :
    assemble name (as ++ bs) = bs.foldl (Assembly.step name) (assemble name as) :=
  List.foldl_append

/-! ## The buffers of an entry -/

/-- An entry keeps the buffers that are not empty. -/
def Entry.Buffered (e : Entry) (buffers : UInt8 → Bytes) : Prop :=
  ∀ w, e.partials.get? w = if buffers w = [] then none else some (buffers w)

/-- Every byte is a writer. -/
private theorem mem_writers (w : UInt8) : w ∈ Assembly.writers :=
  List.mem_map.2 ⟨w.toNat, List.mem_range.2 w.toNat_lt, UInt8.ofNat_toNat⟩

/-- Their numbers do not wrap around. -/
private theorem pairwise_writers : Assembly.writers.Pairwise (· < ·) := by
  refine List.pairwise_map.2 (List.pairwise_lt_range.imp_of_mem ?_)
  intro a b ha hb hab
  have ha' := List.mem_range.1 ha
  have hb' := List.mem_range.1 hb
  rw [UInt8.lt_iff_toNat_lt, UInt8.toNat_ofNat', UInt8.toNat_ofNat']
  omega

/-- The records a catalog ends are those that are not empty, lowest writer first: both lists are
sorted by writer, and they have the same members. -/
theorem leftovers_eq {e : Entry} {s : Assembly} (h : e.Buffered s.buffers) :
    e.leftovers = s.leftovers := by
  let sorted := (Assembly.writers.filter fun w => s.buffers w ≠ []).map fun w => (w, s.buffers w)
  have hmem : ∀ p, p ∈ e.partials.pairs ↔ p ∈ sorted := by
    rintro ⟨w, bytes⟩
    rw [Dict.mem_iff, h w]
    simp only [sorted, List.mem_map, List.mem_filter, mem_writers, true_and, decide_eq_true_eq,
      Prod.mk.injEq]
    constructor
    · intro hbytes
      split at hbytes
      · cases hbytes
      · rename_i hw
        exact ⟨w, hw, rfl, Option.some.inj hbytes⟩
    · rintro ⟨v, hv, rfl, rfl⟩
      rw [if_neg hv]
  have hvalue : ∀ p ∈ sorted, p.2 = s.buffers p.1 ∧ p.2 ≠ [] := by
    intro p hp
    obtain ⟨w, hw, rfl⟩ := List.mem_map.1 hp
    exact ⟨rfl, of_decide_eq_true (List.mem_filter.1 hw).2⟩
  have hsorted : sorted.Pairwise fun p q => p.1 < q.1 :=
    List.pairwise_map.2 (pairwise_writers.filter _)
  -- a dictionary holds each writer once, so the same members make a permutation
  have hperm : e.partials.pairs.Perm sorted := by
    refine (List.perm_ext_iff_of_nodup ?_ ?_).2 hmem
    · exact List.Pairwise.of_map Prod.fst (fun p q hne heq => hne (heq ▸ rfl)) e.partials.nodup
    · exact hsorted.imp fun {p q} hlt (heq : p = q) => UInt8.ne_of_lt hlt (heq ▸ rfl)
  -- two sorted permutations of one another are equal, for each writer is there once
  have heq : e.partials.pairs.mergeSort (fun p q => p.1 ≤ q.1) = sorted := by
    let le : UInt8 × Bytes → UInt8 × Bytes → Bool := fun p q => p.1 ≤ q.1
    have htrans : ∀ p q r, le p q = true → le q r = true → le p r = true := by
      intro p q r hpq hqr
      exact decide_eq_true (UInt8.le_trans (of_decide_eq_true hpq) (of_decide_eq_true hqr))
    have htotal : ∀ p q, (le p q || le q p) = true := by
      intro p q
      simpa [le] using UInt8.le_total p.1 q.1
    have hmerged : (e.partials.pairs.mergeSort le).Pairwise fun p q => le p q :=
      List.pairwise_mergeSort htrans htotal _
    refine List.Perm.eq_of_pairwise ?_ hmerged
      (hsorted.imp fun hlt => decide_eq_true (UInt8.le_of_lt hlt))
      ((List.mergeSort_perm _ _).trans hperm)
    rintro ⟨w, x⟩ ⟨v, y⟩ hx hy hle hge
    obtain rfl : w = v := UInt8.le_antisymm (of_decide_eq_true hle) (of_decide_eq_true hge)
    have hx' := hvalue _ (hperm.mem_iff.1 ((List.mergeSort_perm _ _).mem_iff.1 hx))
    have hy' := hvalue _ hy
    exact congrArg (Prod.mk w) (hx'.1.trans hy'.1.symm)
  -- empty records were left out when sorting already
  have hpart : (sorted.map Prod.snd).filter (· ≠ []) = sorted.map Prod.snd := by
    refine List.filter_eq_self.2 fun x hx => ?_
    obtain ⟨p, hp, rfl⟩ := List.mem_map.1 hx
    exact decide_eq_true (hvalue p hp).2
  rw [Entry.leftovers, heq, hpart, Assembly.leftovers, List.filter_map, List.map_map]
  rfl

/-! ## Feeds -/

/-- Somebody who listens gets all events. -/
theorem foldl_deliver {f : Feed} (h : f.isOpen = true) (es : List Feed.Event) :
    (es.foldl Feed.deliver f).queue = f.queue ++ es := by
  induction es generalizing f with
  | nil => simp
  | cons e es ih =>
    rw [List.foldl_cons, ih]
    · simp [Feed.deliver, h]
    · exact h

/-- The oldest event of a feed is taken from its front. -/
theorem take_append (f : Feed) : f.take.1.toList ++ f.take.2.queue = f.queue := by
  unfold Feed.take
  split <;> simp [*]

/-! ## A catalog that keeps up -/

/-- What feed and buffers of a result set are while it is assembled; `past` was taken already. -/
structure Holds (past : List Feed.Event) (s : Assembly) (e : Entry) (f : Feed) : Prop where
  isOpen : f.isOpen = true
  events : past ++ f.queue = s.events
  buffered : e.Buffered s.buffers

variable {name : String} {id : FeedId} {past : List Feed.Event} {s : Assembly} {e : Entry}
  {c : Catalog}

/-- A record that is not empty is kept in place of the one before. -/
theorem Entry.Buffered.insert {e : Entry} {s : Assembly} (h : e.Buffered s.buffers) (w : UInt8)
    {bytes : Bytes} (hb : bytes ≠ []) :
    Entry.Buffered { e with partials := e.partials.insert w bytes } (s.fill w bytes).buffers := by
  intro v
  simp only [Assembly.fill, Dict.get?_insert]
  by_cases hv : v = w
  · simp [hv, hb]
  · simp [hv, h v]

/-- A record that has ended is not kept. -/
theorem Entry.Buffered.erase {e : Entry} {s : Assembly} (h : e.Buffered s.buffers) (w : UInt8) :
    Entry.Buffered { e with partials := e.partials.erase w } (s.fill w []).buffers := by
  intro v
  simp only [Assembly.fill, Dict.get?_erase]
  by_cases hv : v = w
  · simp [hv]
  · simp [hv, h v]

/-- A writer without a record has an empty one. -/
theorem Entry.Buffered.getD {e : Entry} {buffers : UInt8 → Bytes} (h : e.Buffered buffers)
    (w : UInt8) : (e.partials.get? w).getD [] = buffers w := by
  rw [h w]
  split
  · simp [*]
  · rfl

/-- A piece ends a record, or adds to it, on both sides; a writer without one has none to end. -/
theorem Holds.piece {f : Feed} (h : Holds past s e f) {i : UInt16} (hi : s.index = some i)
    (w : UInt8) (bytes : Bytes) :
    (bytes = [] → s.buffers w = [] → Holds past (s.step name (.piece i w bytes)) e f) ∧
    (bytes = [] → s.buffers w ≠ [] → Holds past (s.step name (.piece i w bytes))
      { e with partials := e.partials.erase w } (f.deliver (.record (s.buffers w)))) ∧
    (bytes ≠ [] → Holds past (s.step name (.piece i w bytes))
      { e with partials := e.partials.insert w (s.buffers w ++ bytes) } f) := by
  refine ⟨fun hb hw => ?_, fun hb hw => ?_, fun hb => ?_⟩
  · simpa [Assembly.step, hi, hb, hw] using h
  · simp only [Assembly.step, hi, hb, hw, ne_eq, not_true_eq_false, if_false]
    refine ⟨h.isOpen, ?_, h.buffered.erase w⟩
    simp [Feed.deliver, h.isOpen, ← h.events]
  · simp only [Assembly.step, hi, hb, ne_eq, not_true_eq_false, not_false_eq_true, if_false,
      if_true]
    exact ⟨h.isOpen, h.events, h.buffered.insert w (by simp [hb])⟩

/-- The events that end a result set. -/
def Entry.closing (e : Entry) : List Feed.Event := e.leftovers.map .record ++ [.endOfRecords]

/-- What the feed of a result set holds after its end, claimed or not. -/
theorem Holds.closing {c' : Catalog} (h : Holds past s e (c.feed id)) (hid : e.feed = id)
    (hlt : id < c.feeds.size)
    (hc : c'.feed id = (c.modifyFeed e.feed fun f => e.closing.foldl Feed.deliver f).feed id) :
    past ++ (c'.feed id).queue = s.events ++ (s.leftovers.map .record ++ [.endOfRecords]) := by
  rw [hc, hid, feed_modifyFeed_self c hlt, foldl_deliver h.isOpen, ← h.events, List.append_assoc,
    Entry.closing, leftovers_eq h.buffered]

/-- What a consumer takes is past. -/
theorem Holds.take {f : Feed} (h : Holds past s e f) :
    Holds (past ++ f.take.1.toList) s e f.take.2 := by
  refine ⟨?_, ?_, h.buffered⟩
  · unfold Feed.take
    split <;> exact h.isOpen
  · rw [List.append_assoc, take_append, h.events]

end QueryLink.Catalog
