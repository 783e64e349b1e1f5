import QueryLink.Proofs.CatalogOrder
import QueryLink.Proofs.CursorClose
import QueryLink.Proofs.Succession

/-!
# What the server has said

The `Schedule` is what a server has said about its result sets so far: which are streamed, and
which names were ever announced. A server that keeps its order announces each name once and gives
no index to two result sets at a time. The books of a catalog follow such a schedule without having
all of it: an index leads nowhere but to the result set that is streamed under it, and nothing is
over that the server has not ended.

A name whose consumer left before the end is `Forsaken`: it has no entry, its index leads nowhere,
and if it is still to be announced the announcement will be swallowed.

## Key results

- `Schedule.mem_streams_after`: what is streamed after an action
- `Follows.act`: the books follow the schedule
- `Follows.forsaken`: what a consumer leaves behind
- `Forsaken.act`: only another consumer can change that
-/

namespace QueryLink.Catalog

/-- What a server has said about its result sets. -/
structure Schedule where
  /-- The result sets that are streamed, by index and name. -/
  streams : List (UInt16 × String) := []
  /-- The names that were ever announced. -/
  announced : List String := []

namespace Schedule

/-- The indices in use. -/
def opened (s : Schedule) : List UInt16 := s.streams.map Prod.fst

/-- The schedule after an action. -/
def after (s : Schedule) (a : Action) : Schedule :=
  ⟨a.streams s.streams, a.announces s.announced⟩

/-- Whether an announcement takes a free index and a new name. -/
def Admits (s : Schedule) (a : Action) : Prop := a.Admitted s.opened s.announced

/-- Whether a result set was streamed and is no more. -/
def IsOver (s : Schedule) (name : String) : Prop :=
  name ∈ s.announced ∧ ∀ i, (i, name) ∉ s.streams

/-- Indices and names of what is streamed belong together, and all of it was announced. -/
structure Proper (s : Schedule) : Prop where
  announced : ∀ {i n}, (i, n) ∈ s.streams → n ∈ s.announced
  index_inj : ∀ {i n m}, (i, n) ∈ s.streams → (i, m) ∈ s.streams → n = m
  name_inj : ∀ {i j n}, (i, n) ∈ s.streams → (j, n) ∈ s.streams → i = j

variable {s : Schedule} {a : Action} {i : UInt16} {n : String}

theorem mem_opened (h : (i, n) ∈ s.streams) : i ∈ s.opened :=
  List.mem_map_of_mem h

theorem opened_after (s : Schedule) (a : Action) : (s.after a).opened = a.opens s.opened := by
  cases a with
  | bye i =>
    show (s.streams.filter _).map Prod.fst = (s.streams.map Prod.fst).filter _
    rw [List.filter_map]
    rfl
  | _ => rfl

/-- A result set is streamed from its announcement to its end. -/
theorem mem_streams_after :
    (i, n) ∈ (s.after a).streams ↔ a = .hello i n ∨ (i, n) ∈ s.streams ∧ a ≠ .bye i := by
  cases a with
  | hello j m =>
    have hpair : (i, n) = (j, m) ↔ Action.hello j m = .hello i n := by simp [eq_comm]
    simp [after, Action.streams, ← hpair]
  | bye j =>
    have hindex : i ≠ j ↔ Action.bye j ≠ .bye i := by simp [eq_comm]
    simp only [after, Action.streams, List.mem_filter, decide_eq_true_eq, hindex, reduceCtorEq,
      false_or]
  | _ => simp [after, Action.streams]

theorem mem_announced_after :
    n ∈ (s.after a).announced ↔ (∃ i, a = .hello i n) ∨ n ∈ s.announced := by
  cases a <;> simp [after, Action.announces, eq_comm]

theorem proper_empty : Proper {} := ⟨nofun, nofun, nofun⟩

/-- A server that keeps its order keeps indices and names apart. -/
theorem Proper.after (h : s.Proper) (ha : s.Admits a) : (s.after a).Proper := by
  constructor
  · intro i n hi
    rw [mem_announced_after]
    obtain rfl | ⟨hold, -⟩ := mem_streams_after.1 hi
    · exact Or.inl ⟨i, rfl⟩
    · exact Or.inr (h.announced hold)
  · -- an index that is announced now was free, so both names were there before or are the new one
    intro i n m hn hm
    obtain rfl | ⟨holdn, -⟩ := mem_streams_after.1 hn <;>
      obtain heq | ⟨holdm, -⟩ := mem_streams_after.1 hm
    · cases heq
      rfl
    · exact absurd (mem_opened holdm) ha.1
    · subst heq
      exact absurd (mem_opened holdn) ha.1
    · exact h.index_inj holdn holdm
  · -- a name that is announced now was not streamed under another index either
    intro i j n hi hj
    obtain rfl | ⟨holdi, -⟩ := mem_streams_after.1 hi <;>
      obtain heq | ⟨holdj, -⟩ := mem_streams_after.1 hj
    · cases heq
      rfl
    · exact absurd (h.announced holdj) ha.2
    · subst heq
      exact absurd (h.announced holdi) ha.2
    · exact h.name_inj holdi holdj

/-- What is over stays over. -/
theorem IsOver.after (h : s.IsOver n) (ha : s.Admits a) : (s.after a).IsOver n := by
  refine ⟨mem_announced_after.2 (Or.inr h.1), fun i hi => ?_⟩
  obtain rfl | ⟨hold, -⟩ := mem_streams_after.1 hi
  · exact ha.2 h.1
  · exact h.2 i hold

/-- The end of a result set leaves it over. -/
theorem Proper.isOver_bye (h : s.Proper) (hi : (i, n) ∈ s.streams) :
    (s.after (.bye i)).IsOver n := by
  refine ⟨mem_announced_after.2 (Or.inr (h.announced hi)), fun j hj => ?_⟩
  obtain heq | ⟨hold, hne⟩ := mem_streams_after.1 hj
  · cases heq
  · rw [h.name_inj hold hi] at hne
    exact hne rfl

/-- The schedule after some actions. -/
def afterAll (s : Schedule) (as : List Action) : Schedule := as.foldl after s

theorem afterAll_append (s : Schedule) (as bs : List Action) :
    s.afterAll (as ++ bs) = (s.afterAll as).afterAll bs :=
  List.foldl_append

/-- A server keeps its order in a run if it does so in one part of it and then in the other. -/
theorem orderly_append {as bs : List Action} :
    Orderly s.opened s.announced (as ++ bs) ↔ Orderly s.opened s.announced as ∧
      Orderly (s.afterAll as).opened (s.afterAll as).announced bs := by
  induction as generalizing s with
  | nil => exact (iff_of_eq (true_and _)).symm
  | cons a as ih =>
    rw [List.cons_append, Orderly, Orderly, ← opened_after, and_assoc]
    exact and_congr_right fun _ => ih

end Schedule

/-! ## The books -/

/-- The books of a catalog are in order and follow what the server has said. -/
structure Follows (c : Catalog) (s : Schedule) : Prop where
  inOrder : ∃ ended, c.InOrder ended
  mem_streams : ∀ {i n}, c.byIndex.get? i = some n → (i, n) ∈ s.streams
  isOver : ∀ {n}, c.isFinished n = true → s.IsOver n

/-- The feeds apart, a catalog is its registry. -/
theorem eq_of_registry {c c' : Catalog} (h : c'.registry = c.registry) :
    c' = { c with feeds := c'.feeds, limit := c'.limit } := by
  simp only [registry, Prod.mk.injEq] at h
  obtain ⟨hentries, hindices, hdiscarded, hunclaimed⟩ := h
  rw [← hentries, ← hindices, ← hdiscarded, ← hunclaimed]

/-- A piece under an index that leads nowhere is ignored. -/
theorem piece_of_free {c : Catalog} {i : UInt16} (h : c.byIndex.get? i = none) (w : UInt8)
    (bytes : Bytes) : c.piece i w bytes = c := by
  simp only [piece, streamed?, h, Option.bind_none]

/-- So is the end of what is streamed under it. -/
theorem bye_of_free {c : Catalog} {i : UInt16} (h : c.byIndex.get? i = none) : c.bye i = c := by
  simp only [bye, h]

namespace Follows

variable {c c' : Catalog} {s : Schedule} {a : Action} {n : String} {e : Entry} {i : UInt16}

theorem ofLimit (limit : Nat) : (ofLimit limit).Follows {} where
  inOrder := ⟨[], inOrder_ofLimit limit⟩
  mem_streams h := by cases h
  isOver h := by cases h

/-- An index that is not in use leads nowhere. -/
theorem byIndex_of_free (hc : c.Follows s) (hi : i ∉ s.opened) : c.byIndex.get? i = none := by
  rw [Option.eq_none_iff_forall_ne_some]
  intro m hm
  exact hi (Schedule.mem_opened (hc.mem_streams hm))

/-- The index of an entry is the one it is streamed under. -/
theorem mem_streams_of_entry (hc : c.Follows s) (he : c.entries.get? n = some e)
    (hi : e.index = some i) : (i, n) ∈ s.streams := by
  obtain ⟨ended, hbooks⟩ := hc.inOrder
  exact hc.mem_streams ((hbooks.indexed i n).2 (indexOf_eq_some.2 ⟨e, he, hi⟩))

theorem isOver_of_entry (hc : c.Follows s) (he : c.entries.get? n = some e)
    (hfinished : e.finished = true) : s.IsOver n :=
  hc.isOver (isFinished_iff.2 ⟨e, he, hfinished⟩)

/-- The books allow what the server says, if it keeps its order. -/
theorem allowed_hello (hc : c.Follows s) (hs : s.Proper) (ha : s.Admits (.hello i n)) :
    c.Allowed (.hello i n) := by
  refine ⟨hc.byIndex_of_free ha.1, fun e he => ⟨?_, ?_⟩⟩
  · rw [Option.eq_none_iff_forall_ne_some]
    intro j hj
    exact ha.2 (hs.announced (hc.mem_streams_of_entry he hj))
  · rw [← Bool.not_eq_true]
    intro hfinished
    exact ha.2 (hc.isOver_of_entry he hfinished).1

/-- The books follow the server from action to action. -/
theorem act (hc : c.Follows s) (hs : s.Proper) (ha : s.Admits a) (hallowed : c.Allowed a) :
    (c.act a).Follows (s.after a) where
  inOrder := by
    obtain ⟨ended, hbooks⟩ := hc.inOrder
    exact ⟨_, hbooks.act hallowed⟩
  mem_streams h := by
    -- an index leads where it did, unless the result set has ended, or to what is announced now
    rw [Schedule.mem_streams_after]
    obtain ⟨hold, hbye⟩ | hhello := c.byIndex_origin a h
    · exact Or.inr ⟨hc.mem_streams hold, hbye⟩
    · exact Or.inl hhello
  isOver h := by
    obtain ⟨e, he, hfinished⟩ := isFinished_iff.1 h
    obtain hold | ⟨j, old, rfl, hstreamed⟩ := c.finished_origin a he hfinished
    · exact (hc.isOver hold).after ha
    · exact hs.isOver_bye (hc.mem_streams (streamed?_eq_some.1 hstreamed).1)

/-- What a consumer does is no news of the server. -/
theorem act_consumer (hc : c.Follows s) (hs : s.Proper) (hafter : s.after a = s)
    (ha : s.Admits a) (hallowed : c.Allowed a) : (c.act a).Follows s := by
  have hact := hc.act hs ha hallowed
  rwa [hafter] at hact

/-- Feeds do not matter to this. -/
theorem of_registry (hc : c.Follows s) (h : c'.registry = c.registry) : c'.Follows s := by
  have heq : c' = { c with feeds := c'.feeds, limit := c'.limit } := eq_of_registry h
  obtain ⟨ended, hbooks⟩ := hc.inOrder
  have hshelved := hbooks.shelved
  rw [heq]
  exact {
    inOrder := ⟨ended, hbooks.indexed,
      ⟨hshelved.bare, hshelved.mem_unclaimed, hshelved.unclaimed_eq⟩, hbooks.discardsAbsent,
      hbooks.unclaimed_le⟩
    mem_streams := hc.mem_streams
    isOver := hc.isOver }

end Follows

/-! ## Names without a consumer -/

/-- Nothing is kept of a result set, and nothing will be unless a consumer asks for it again. -/
structure Forsaken (c : Catalog) (n : String) (s : Schedule) : Prop where
  absent : c.entries.get? n = none
  unindexed : ∀ i, (i, n) ∈ s.streams → c.byIndex.get? i = none
  /-- If it is still to be announced the announcement will be swallowed. -/
  discarded : n ∉ s.announced → n ∈ c.discarded

variable {c c' : Catalog} {s : Schedule} {a : Action} {n : String} {e : Entry} {i : UInt16}

/-- A consumer that leaves before the end forsakes its result set. -/
theorem Follows.forsaken (hc : c.Follows s) (hs : s.Proper) (he : c.entries.get? n = some e)
    (hover : ¬ s.IsOver n) : (c.disconnect n).Forsaken n s := by
  obtain ⟨ended, hbooks⟩ := hc.inOrder
  obtain ⟨hentries, hindices, -⟩ := disconnect_of_entry he
  refine ⟨(hentries n).trans (if_pos rfl), fun i hi => ?_, fun hnew => ?_⟩
  · rw [hindices]
    split
    · rfl
    · rename_i hindex
      rw [Option.eq_none_iff_forall_ne_some]
      intro m hm
      -- the index leads to this result set if it leads anywhere, and this one has another
      rw [hs.index_inj (hc.mem_streams hm) hi] at hm
      obtain ⟨d, hd, hdi⟩ := indexOf_eq_some.1 ((hbooks.indexed i n).1 hm)
      rw [he] at hd
      cases hd
      exact hindex hdi
  · -- it was not announced, so it had no index and is not over
    have hindex : e.index = none := by
      rw [Option.eq_none_iff_forall_ne_some]
      intro i hi
      exact hnew (hs.announced (hc.mem_streams_of_entry he hi))
    have hfinished : e.finished = false := by
      rw [← Bool.not_eq_true]
      intro hfinished
      exact hover (hc.isOver_of_entry he hfinished)
    simp only [disconnect, he, hindex, hfinished, Bool.false_eq_true, if_false]
    exact List.mem_cons_self

theorem Forsaken.of_registry (h : c.Forsaken n s) (heq : c'.registry = c.registry) :
    c'.Forsaken n s := by
  rw [eq_of_registry heq]
  exact ⟨h.absent, h.unindexed, h.discarded⟩

/-- A frame for a forsaken result set finds nothing under its index. -/
theorem Forsaken.byIndex_ne (h : c.Forsaken n s) (hc : c.Follows s) (i : UInt16) :
    c.byIndex.get? i ≠ some n := by
  intro hi
  have hfree := h.unindexed i (hc.mem_streams hi)
  rw [hi] at hfree
  cases hfree

/-- Its announcement is swallowed. -/
theorem Forsaken.hello_eq (h : c.Forsaken n s) (ha : s.Admits (.hello i n)) :
    c.hello i n = { c with discarded := c.discarded.filter (· ≠ n) } :=
  hello_swallowed (h.discarded ha.2) i

/-- Nothing makes an entry for it. -/
private theorem Forsaken.absent_act (h : c.Forsaken n s) (ha : s.Admits a)
    (hconnect : a ≠ .connect n) : (c.act a).entries.get? n = none := by
  rw [Option.eq_none_iff_forall_ne_some]
  intro e he
  obtain ⟨old, hold, -⟩ | ⟨⟨hmade, -, -⟩, -⟩ := (c.act_origin a).2 n e he
  · rw [h.absent] at hold
    cases hold
  · obtain rfl | ⟨i, rfl⟩ := hmade
    · exact hconnect rfl
    · rw [act, h.hello_eq ha, h.absent] at he
      cases he

/-- Nothing leads an index to it. -/
private theorem Forsaken.unindexed_act (h : c.Forsaken n s) (hc : c.Follows s) (ha : s.Admits a)
    (hi : (i, n) ∈ (s.after a).streams) : (c.act a).byIndex.get? i = none := by
  rw [Option.eq_none_iff_forall_ne_some]
  intro m hm
  obtain rfl | ⟨hold, -⟩ := Schedule.mem_streams_after.1 hi
  · -- it is announced now, and this is swallowed
    rw [act, h.hello_eq ha] at hm
    have hfree := hc.byIndex_of_free ha.1
    rw [hm] at hfree
    cases hfree
  · obtain ⟨hleads, -⟩ | rfl := c.byIndex_origin a hm
    · have hfree := h.unindexed i hold
      rw [hleads] at hfree
      cases hfree
    · exact ha.1 (Schedule.mem_opened hold)

/-- Nothing but a consumer that asks for it brings a forsaken result set back. -/
theorem Forsaken.act (h : c.Forsaken n s) (hc : c.Follows s) (ha : s.Admits a)
    (hconnect : a ≠ .connect n) (hterminate : ∀ outage, a ≠ .terminate outage) :
    (c.act a).Forsaken n (s.after a) where
  absent := h.absent_act ha hconnect
  unindexed i hi := h.unindexed_act hc ha hi
  discarded hnew := by
    have hunannounced : n ∉ s.announced := fun hold =>
      hnew (Schedule.mem_announced_after.2 (.inr hold))
    by_cases hconcerns : c.Concerns a n
    · -- what concerns it is a second consumer that leaves, or comes too late
      cases a with
      | connect m => exact absurd (congrArg _ hconcerns) hconnect
      | disconnect m =>
        obtain rfl : m = n := hconcerns
        rw [Catalog.act, disconnect_of_absent h.absent]
        exact h.discarded hunannounced
      | hello j m =>
        obtain rfl : m = n := hconcerns
        exact absurd (Schedule.mem_announced_after.2 (.inl ⟨j, rfl⟩)) hnew
      | piece j w bytes => exact absurd hconcerns (h.byIndex_ne hc j)
      | bye j => exact absurd hconcerns (h.byIndex_ne hc j)
      | terminate outage => exact absurd rfl (hterminate outage)
      | take id => exact hconcerns.elim
      | leave id => exact hconcerns.elim
    · rw [c.discarded_act hconcerns]
      exact h.discarded hunannounced

end QueryLink.Catalog
