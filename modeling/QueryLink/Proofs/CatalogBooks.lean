import Mathlib.Data.List.Dedup
import QueryLink.Proofs.CatalogFrame

/-!
# The books of a catalog agree

A catalog keeps four collections of names: its entries, the indices they are streamed under, the
names to be swallowed, and the finished result sets in the order they ended. While every index that
is announced is free and every name is there to be announced, and consumers only let go of what they
have claimed, the four say the same about every result set.

## Key results

- `DiscardsAbsent.act`: a name that will be swallowed has no entry, whatever happens
- `Indexed.act`: an index leads to the one entry that has it
- `Shelved.act`: the line of finished result sets is what is left of the ends that arrived
- `run_consistent`: all of it, after any run
-/

namespace QueryLink.Catalog

/-! ## What is asked of a run -/

/-- An announcement takes a free index, and a name that is unknown or neither announced nor over. A
consumer only leaves what it has claimed. -/
def Allowed (c : Catalog) : Action → Prop
  | .hello index name => c.byIndex.get? index = none ∧
      ∀ e ∈ c.entries.get? name, e.index = none ∧ e.finished = false
  | .disconnect name => ∀ e ∈ c.entries.get? name, e.claimed = true
  | _ => True

instance (c : Catalog) : DecidablePred c.Allowed
  | .hello _ _ => inferInstanceAs (Decidable (_ ∧ _))
  | .disconnect _ => inferInstanceAs (Decidable (∀ e ∈ _, _))
  | .connect _ | .piece _ _ _ | .bye _ | .terminate _ | .take _ | .leave _ => isTrue trivial

/-- Every action of a run is allowed when its turn comes. -/
def AllowedRun : Catalog → List Action → Prop
  | _, [] => True
  | c, a :: as => c.Allowed a ∧ AllowedRun (c.act a) as

instance : (c : Catalog) → (as : List Action) → Decidable (c.AllowedRun as)
  | _, [] => isTrue trivial
  | c, a :: as =>
    let := instDecidableAllowedRun (c.act a) as
    inferInstanceAs (Decidable (_ ∧ _))

/-- The name of the result set that an action ends. -/
def ending (c : Catalog) : Action → List String
  | .bye index => (c.byIndex.get? index).toList
  | _ => []

/-- The names whose ends arrive in a run, in that order. -/
def endings : Catalog → List Action → List String
  | _, [] => []
  | c, a :: as => c.ending a ++ endings (c.act a) as

/-- The index that the result set of a name is streamed under. -/
def indexOf (c : Catalog) (name : String) : Option UInt16 :=
  (c.entries.get? name).bind Entry.index

/-- What the four collections say about a result set agrees; `ended` are the names whose ends have
arrived. -/
structure Consistent (ended : List String) (c : Catalog) : Prop where
  byIndex_iff : ∀ index name, c.byIndex.get? index = some name ↔
    ∃ e, c.entries.get? name = some e ∧ e.index = some index
  finished : ∀ name e, c.entries.get? name = some e → e.finished = true →
    e.index = none ∧ e.claimed = false ∧ e.partials = .empty
  nodup : c.unclaimed.Nodup
  mem_unclaimed : ∀ name, name ∈ c.unclaimed ↔
    ∃ e, c.entries.get? name = some e ∧ e.finished = true
  /-- A name that ended more than once is in line for its last end. -/
  unclaimed_eq : c.unclaimed = ended.dedup.filter c.isFinished
  unclaimed_le : c.unclaimed.length ≤ maxUnclaimed
  discarded : ∀ name ∈ c.discarded, c.entries.get? name = none

theorem indexOf_eq_some {c : Catalog} {name : String} {index : UInt16} :
    c.indexOf name = some index ↔ ∃ e, c.entries.get? name = some e ∧ e.index = some index := by
  rw [indexOf, Option.bind_eq_some_iff]

/-! ## Swallowed names -/

/-- A name that will be swallowed has no entry. -/
def DiscardsAbsent (c : Catalog) : Prop :=
  ∀ name ∈ c.discarded, c.entries.get? name = none

variable {c : Catalog} {m : String}

/-- A name that has an entry is none of them. -/
private theorem DiscardsAbsent.ne (hc : c.DiscardsAbsent) {name : String} {e : Entry}
    (hname : name ∈ c.discarded) (he : c.entries.get? m = some e) : name ≠ m := by
  rintro rfl
  rw [hc name hname] at he
  cases he

/-- Whatever happens, a name is there or will be swallowed, not both. -/
theorem DiscardsAbsent.act (hc : c.DiscardsAbsent) (a : Action) : (c.act a).DiscardsAbsent := by
  intro name hname
  cases a with
  | connect m =>
    obtain heq | heq | heq := c.connect_cases m
    · rw [heq] at hname ⊢
      exact hc name hname
    -- a name that a consumer asks for is no longer swallowed
    all_goals
      rw [heq] at hname ⊢
      obtain ⟨hmem, hne⟩ := List.mem_filter.1 hname
    · exact (c.get?_setEntry_entry m _ name).trans
        ((if_neg (of_decide_eq_true hne)).trans (hc name hmem))
    · exact (c.get?_eraseEntry_entry m name).trans
        ((if_neg (of_decide_eq_true hne)).trans (hc name hmem))
  | disconnect m =>
    rw [Catalog.act] at hname ⊢
    obtain ⟨-, heq⟩ | ⟨e, -, ⟨i, -, heq⟩ | ⟨-, discarded, hothers, heq⟩⟩ := c.disconnect_cases m
    · rw [heq] at hname ⊢
      exact hc name hname
    all_goals
      rw [heq] at hname ⊢
      rw [eraseEntry_entries, Dict.get?_erase]
      split
      · rfl
    · exact hc name hname
    · rename_i hne
      exact hc name ((hothers name hne).1 hname)
  | hello j m =>
    rw [Catalog.act] at hname ⊢
    by_cases hm : m ∈ c.discarded
    · rw [hello_swallowed hm] at hname ⊢
      exact hc name (List.mem_filter.1 hname).1
    · rw [hello_announces hm] at hname ⊢
      replace hname : name ∈ (c.entry m).2.discarded := hname
      rw [entry_discarded] at hname
      have hne : name ≠ m := by
        rintro rfl
        exact hm hname
      exact (c.get?_setEntry_entry m _ name).trans ((if_neg hne).trans (hc name hname))
  | piece j w bytes =>
    rw [Catalog.act] at hname ⊢
    obtain heq | ⟨m, e, partials, f, hs, heq⟩ := c.piece_cases j w bytes
    · rw [heq] at hname ⊢
      exact hc name hname
    · rw [heq] at hname ⊢
      have hne := hc.ne hname (streamed?_eq_some.1 hs).2
      rw [modifyFeed_entries, setEntry_entries, Dict.get?_insert, if_neg hne]
      exact hc name hname
  | bye j =>
    rw [Catalog.act] at hname ⊢
    obtain ⟨-, heq⟩ | ⟨m, e, f, hs, hend⟩ := c.bye_cases j
    · rw [heq] at hname ⊢
      exact hc name hname
    · obtain ⟨-, heq⟩ | ⟨-, heq⟩ := hend
      · rw [heq] at hname ⊢
        rw [eraseEntry_entries, Dict.get?_erase]
        split
        · rfl
        · exact hc name hname
      · rw [heq] at hname ⊢
        have hne := hc.ne hname (streamed?_eq_some.1 hs).2
        rw [get?_evict]
        split
        · rfl
        · rw [setEntry_entries, Dict.get?_insert, if_neg hne]
          exact hc name hname
  | terminate o => cases hname
  | take id => exact hc name hname
  | leave id => exact hc name hname

/-- A name that will be swallowed has no entry after any run. -/
theorem DiscardsAbsent.run (hc : c.DiscardsAbsent) (as : List Action) :
    (c.run as).DiscardsAbsent := by
  induction as generalizing c with
  | nil => exact hc
  | cons a as ih => exact ih (hc.act a)

/-! ## Indices -/

/-- An index leads to the name of the result set that has it. -/
def Indexed (c : Catalog) : Prop :=
  ∀ index name, c.byIndex.get? index = some name ↔ c.indexOf name = some index

section Indices

variable {c' : Catalog} {j : UInt16}

/-- Every result set keeps its index. -/
private theorem Indexed.keep (hc : c.Indexed) (hbyIndex : c'.byIndex = c.byIndex)
    (hof : ∀ name, c'.indexOf name = c.indexOf name) : c'.Indexed := by
  intro index name
  rw [hbyIndex, hof]
  exact hc index name

/-- One result set loses its index, which is free then. -/
private theorem Indexed.free (hc : c.Indexed) (hm : c.indexOf m = some j)
    (hbyIndex : c'.byIndex = c.byIndex.erase j)
    (hof : ∀ name, c'.indexOf name = if name = m then none else c.indexOf name) :
    c'.Indexed := by
  intro index name
  rw [hbyIndex, hof, Dict.get?_erase]
  have hj : c.byIndex.get? j = some m := (hc j m).2 hm
  by_cases hindex : index = j
  · -- the index led to this result set, so another one has another index
    subst hindex
    rw [if_pos rfl]
    refine iff_of_false (fun h => by cases h) fun h => ?_
    split at h
    · cases h
    · rename_i hne
      rw [(hc index name).2 h] at hj
      exact hne (Option.some.inj hj)
  · rw [if_neg hindex]
    by_cases hname : name = m
    · -- the result set had this index, so no other one leads to it
      subst hname
      rw [if_pos rfl]
      refine iff_of_false (fun h => ?_) (fun h => by cases h)
      rw [(hc index name).1 h] at hm
      exact hindex (Option.some.inj hm)
    · rw [if_neg hname]
      exact hc index name

/-- One result set gets an index that is free. -/
private theorem Indexed.lead (hc : c.Indexed) (hm : c.indexOf m = none)
    (hj : c.byIndex.get? j = none) (hbyIndex : c'.byIndex = c.byIndex.insert j m)
    (hof : ∀ name, c'.indexOf name = if name = m then some j else c.indexOf name) :
    c'.Indexed := by
  intro index name
  rw [hbyIndex, hof, Dict.get?_insert]
  by_cases hindex : index = j
  · subst hindex
    rw [if_pos rfl]
    by_cases hname : name = m
    · rw [if_pos hname, hname]
      exact iff_of_true rfl rfl
    · -- no other result set has the index, for it was free
      rw [if_neg hname, ← hc index name, hj, Option.some.injEq]
      exact iff_of_false (Ne.symm hname) (fun h => by cases h)
  · rw [if_neg hindex]
    by_cases hname : name = m
    · subst hname
      rw [if_pos rfl, hc index name, hm, Option.some.injEq]
      exact iff_of_false (fun h => by cases h) (Ne.symm hindex)
    · rw [if_neg hname]
      exact hc index name

end Indices

/-! ## Finished result sets -/

/-- Leaving out repeated names, and then a name that comes last. -/
theorem dedup_append_singleton (l : List String) (name : String) :
    (l ++ [name]).dedup = l.dedup.filter (· ≠ name) ++ [name] := by
  induction l with
  | nil => rfl
  | cons n l ih =>
    rw [List.cons_append]
    by_cases hmem : n ∈ l
    · rw [List.dedup_cons_of_mem (List.mem_append_left _ hmem), List.dedup_cons_of_mem hmem, ih]
    · rw [List.dedup_cons_of_notMem hmem]
      by_cases hname : n = name
      · subst hname
        rw [List.dedup_cons_of_mem (by simp), ih, List.filter_cons_of_neg (by simp)]
      · rw [List.dedup_cons_of_notMem (by simp [hmem, hname]), ih,
          List.filter_cons_of_pos (by simpa using hname), List.cons_append]

/-- What is left of a list without repetitions when its head is cut off. -/
theorem drop_eq_filter {l : List String} (hl : l.Nodup) (k : Nat) :
    l.drop k = l.filter (· ∉ l.take k) := by
  have hhead : (l.take k).filter (· ∉ l.take k) = [] := by
    rw [List.filter_eq_nil_iff]
    intro name hname
    simpa using hname
  have htail : (l.drop k).filter (· ∉ l.take k) = l.drop k := by
    rw [List.filter_eq_self]
    intro name hname
    exact decide_eq_true fun hmem => List.disjoint_take_drop hl (Nat.le_refl k) hmem hname
  calc l.drop k = (l.take k).filter (· ∉ l.take k) ++ (l.drop k).filter (· ∉ l.take k) := by
        rw [hhead, htail, List.nil_append]
    _ = l.filter (· ∉ l.take k) := by rw [← List.filter_append, List.take_append_drop]

/-- The entry of one name is another one, or gone; the others stay. -/
def Edits (m : String) (x : Option Entry) (c c' : Catalog) : Prop :=
  ∀ name, c'.entries.get? name = if name = m then x else c.entries.get? name

section Edits

variable {c' : Catalog} {x : Option Entry}

/-- An edit gives its name another index, or none. -/
private theorem Edits.indexOf (h : Edits m x c c') (name : String) :
    c'.indexOf name = if name = m then x.bind Entry.index else c.indexOf name := by
  rw [Catalog.indexOf, h name]
  split <;> rfl

/-- It says whether the result set of its name is over. -/
private theorem Edits.isFinished (h : Edits m x c c') (name : String) :
    c'.isFinished name = if name = m then x.any Entry.finished else c.isFinished name := by
  rw [Catalog.isFinished, h name]
  split <;> rfl

end Edits

/-- A finished result set has no index, no consumer and no records that are not complete, and it
is in line. -/
structure Shelved (ended : List String) (c : Catalog) : Prop where
  bare : ∀ name e, c.entries.get? name = some e → e.finished = true →
    e.index = none ∧ e.claimed = false ∧ e.partials = .empty
  mem_unclaimed : ∀ name, name ∈ c.unclaimed ↔ c.isFinished name = true
  unclaimed_eq : c.unclaimed = ended.dedup.filter c.isFinished

section Shelf

variable {ended : List String} {c' : Catalog}

/-- Nobody is in line twice. -/
theorem Shelved.nodup (hc : c.Shelved ended) : c.unclaimed.Nodup := by
  rw [hc.unclaimed_eq]
  exact (List.nodup_dedup ended).filter _

/-- A result set that is not over has its entry edited, and is not over then either. -/
private theorem Shelved.edit {x : Option Entry} (hc : c.Shelved ended) (h : Edits m x c c')
    (hm : c.isFinished m = false) (hx : ∀ e ∈ x, e.finished = false)
    (hunclaimed : c'.unclaimed = c.unclaimed) : c'.Shelved ended := by
  have hsame : c'.isFinished = c.isFinished := by
    funext name
    rw [h.isFinished]
    split
    · rename_i hname
      rw [hname, hm, Option.any_eq_false]
      simpa using hx
    · rfl
  constructor
  · intro name e he hfinished
    rw [h name] at he
    split at he
    · rw [hx e he] at hfinished
      cases hfinished
    · exact hc.bare name e he hfinished
  · rw [hunclaimed, hsame]
    exact hc.mem_unclaimed
  · rw [hunclaimed, hsame]
    exact hc.unclaimed_eq

/-- A result set that is over is fetched, and leaves the line. -/
private theorem Shelved.fetch (hc : c.Shelved ended) (h : Edits m none c c')
    (hunclaimed : c'.unclaimed = c.unclaimed.filter (· ≠ m)) : c'.Shelved ended := by
  have hrest : c'.isFinished = fun name => decide (name ≠ m) && c.isFinished name := by
    funext name
    rw [h.isFinished]
    by_cases hname : name = m
    · simp [hname]
    · simp [hname]
  constructor
  · intro name e he hfinished
    rw [h name] at he
    split at he
    · cases he
    · exact hc.bare name e he hfinished
  · intro name
    rw [hunclaimed, hrest, List.mem_filter, hc.mem_unclaimed, Bool.and_eq_true, And.comm]
  · rw [hunclaimed, hrest, ← List.filter_filter, ← hc.unclaimed_eq]

/-- The end of a result set that is not over comes last, and changes nothing for other names. -/
private theorem filter_ended (hm : c.isFinished m = false) {p : String → Bool}
    (hp : ∀ name, name ≠ m → p name = c.isFinished name) :
    (ended ++ [m]).dedup.filter p = ended.dedup.filter c.isFinished ++ [m].filter p := by
  have hold : (ended.dedup.filter (· ≠ m)).filter p = ended.dedup.filter c.isFinished := by
    rw [List.filter_filter]
    refine List.filter_congr fun name _ => ?_
    by_cases hname : name = m
    · simp [hname, hm]
    · simp [hname, hp name hname]
  rw [dedup_append_singleton, List.filter_append, hold]

/-- A result set nobody has asked for ends and joins the line; the head of the line is forgotten
when the line gets too long. -/
private theorem Shelved.shelve {d : Entry} {k : Nat} (hc : c.Shelved ended)
    (hm : c.isFinished m = false)
    (hd : d.finished = true ∧ d.index = none ∧ d.claimed = false ∧ d.partials = .empty)
    (hget : ∀ name, c'.entries.get? name = if name ∈ (c.unclaimed ++ [m]).take k then none
      else if name = m then some d else c.entries.get? name)
    (hunclaimed : c'.unclaimed = (c.unclaimed ++ [m]).drop k) : c'.Shelved (ended ++ [m]) := by
  have hnew : m ∉ c.unclaimed := by
    intro hmem
    rw [(hc.mem_unclaimed m).1 hmem] at hm
    cases hm
  have hline : (c.unclaimed ++ [m]).Nodup := by
    refine List.nodup_append.2 ⟨hc.nodup, List.nodup_singleton m, ?_⟩
    rintro name hname n hn rfl
    rw [List.mem_singleton.1 hn] at hname
    exact hnew hname
  have hfinished : c'.isFinished = fun name =>
      decide (name ∉ (c.unclaimed ++ [m]).take k) && (decide (name = m) || c.isFinished name) := by
    funext name
    rw [Catalog.isFinished, hget name]
    by_cases hcut : name ∈ (c.unclaimed ++ [m]).take k
    · simp [hcut]
    · by_cases hname : name = m
      · subst hname
        simp [hcut, hd.1]
      · simp [hcut, hname, Catalog.isFinished]
  -- the ends of result sets that are over: the line before, and the one that has joined it
  have hends : (ended ++ [m]).dedup.filter (fun name => decide (name = m) || c.isFinished name) =
      c.unclaimed ++ [m] := by
    rw [filter_ended hm (fun name hname => by simp [hname]), ← hc.unclaimed_eq]
    simp
  have heq : c'.unclaimed = (ended ++ [m]).dedup.filter c'.isFinished := by
    rw [hunclaimed, hfinished, ← List.filter_filter, hends]
    exact drop_eq_filter hline k
  refine ⟨?_, ?_, heq⟩
  · intro name e he hover
    rw [hget name] at he
    split at he
    · cases he
    · split at he
      · cases he
        exact hd.2
      · exact hc.bare name e he hover
  · intro name
    rw [hunclaimed, drop_eq_filter hline k, List.mem_filter, List.mem_append,
      List.mem_singleton, hc.mem_unclaimed, hfinished]
    simp only [Bool.and_eq_true, Bool.or_eq_true, decide_eq_true_eq]
    rw [Or.comm, And.comm]

/-- The end of a result set that is gone changes nothing for those in line. -/
private theorem Shelved.ended_append (hc : c.Shelved ended) (hm : c.isFinished m = false) :
    c.Shelved (ended ++ [m]) := by
  refine ⟨hc.bare, hc.mem_unclaimed, ?_⟩
  rw [filter_ended hm fun _ _ => rfl, ← hc.unclaimed_eq]
  simp [hm]

end Shelf

/-! ## What an action makes of the books -/

variable {ended : List String}

/-- An entry that is looked up has the index of its name. -/
private theorem entry_index (c : Catalog) (m : String) : (c.entry m).1.index = c.indexOf m := by
  obtain ⟨hold, -⟩ | ⟨hnone, hnew, -⟩ := c.entry_origin m
  · simp [indexOf, hold]
  · simp [indexOf, hnone, hnew]

/-- A result set that has an index is not over. -/
private theorem Shelved.unfinished (hc : c.Shelved ended) {j : UInt16}
    (hm : c.indexOf m = some j) : c.isFinished m = false := by
  obtain ⟨e, he, hindex⟩ := indexOf_eq_some.1 hm
  rw [Bool.eq_false_iff]
  intro hfinished
  obtain ⟨d, hd, hover⟩ := isFinished_iff.1 hfinished
  obtain rfl : d = e := Option.some.inj (hd.symm.trans he)
  rw [(hc.bare m d hd hover).1] at hindex
  cases hindex

/-- A consumer claims a result set, fetches one that is over, or is refused. -/
theorem books_connect (hi : c.Indexed) (hs : c.Shelved ended) (m : String) :
    (c.act (.connect m)).Indexed ∧ (c.act (.connect m)).Shelved ended := by
  have hindex := c.entry_index m
  have hfinished := c.entry_finished m
  cases hclaimed : (c.entry m).1.claimed with
  | true =>
    rw [connect_refused hclaimed]
    exact ⟨hi, hs⟩
  | false =>
    cases hover : (c.entry m).1.finished with
    | true =>
      rw [hover] at hfinished
      have hedit : Edits m none c (c.act (.connect m)) := by
        rw [connect_fetches hclaimed hover]
        exact c.get?_eraseEntry_entry m
      -- what is over has no index that could be lost with the entry
      have hbare : c.indexOf m = none := by
        obtain ⟨e, he, heover⟩ := isFinished_iff.1 hfinished.symm
        rw [indexOf, he, Option.bind_some]
        exact (hs.bare m e he heover).1
      constructor
      · refine hi.keep (c.connect_byIndex m) fun name => ?_
        rw [hedit.indexOf]
        split
        · rename_i hname
          rw [hname, hbare, Option.bind_none]
        · rfl
      · refine hs.fetch hedit ?_
        rw [connect_fetches hclaimed hover]
    | false =>
      have hedit : Edits m (some { (c.entry m).1 with claimed := true }) c
          (c.act (.connect m)) := by
        rw [connect_claims hclaimed hover]
        exact c.get?_setEntry_entry m _
      constructor
      · refine hi.keep (c.connect_byIndex m) fun name => ?_
        rw [hedit.indexOf]
        split
        · rename_i hname
          rw [hname, ← hindex, Option.bind_some]
        · rfl
      · refine hs.edit hedit (hfinished.symm.trans hover) ?_ ?_
        · rintro e he
          cases he
          exact hover
        · rw [connect_claims hclaimed hover]
          exact c.entry_unclaimed m

/-- A consumer leaves a result set it has claimed. -/
theorem books_disconnect (hi : c.Indexed) (hs : c.Shelved ended) {m : String}
    (ha : c.Allowed (.disconnect m)) :
    (c.disconnect m).Indexed ∧ (c.disconnect m).Shelved ended := by
  obtain ⟨-, heq⟩ | ⟨e, he, hleft⟩ := c.disconnect_cases m
  · rw [heq]
    exact ⟨hi, hs⟩
  · have hunfinished : c.isFinished m = false := by
      rw [Bool.eq_false_iff]
      intro hfinished
      obtain ⟨d, hd, hover⟩ := isFinished_iff.1 hfinished
      have hclaimed : d.claimed = true := ha d hd
      rw [(hs.bare m d hd hover).2.1] at hclaimed
      cases hclaimed
    have hof : c.indexOf m = e.index := by
      rw [indexOf, he, Option.bind_some]
    have herase : Edits m none c (c.eraseEntry m) := Dict.get?_erase _ _
    have hgone : Edits m none c (c.disconnect m) ∧ (c.disconnect m).unclaimed = c.unclaimed := by
      obtain ⟨i, -, heq⟩ | ⟨-, discarded, -, heq⟩ := hleft
      · rw [heq]
        exact ⟨herase, rfl⟩
      · rw [heq]
        exact ⟨herase, rfl⟩
    obtain ⟨hedit, hunclaimed⟩ := hgone
    refine ⟨?_, hs.edit hedit hunfinished (fun e he => by cases he) hunclaimed⟩
    obtain ⟨i, hindex, heq⟩ | ⟨hindex, discarded, -, heq⟩ := hleft
    · refine hi.free (hof.trans hindex) ?_ hedit.indexOf
      rw [heq]
    · refine hi.keep ?_ fun name => ?_
      · rw [heq]
        rfl
      · rw [hedit.indexOf]
        split
        · rename_i hname
          rw [hname, hof, hindex, Option.bind_none]
        · rfl

/-- The server announces a result set under a free index. -/
theorem books_hello (hi : c.Indexed) (hs : c.Shelved ended) {j : UInt16} {m : String}
    (ha : c.Allowed (.hello j m)) : (c.hello j m).Indexed ∧ (c.hello j m).Shelved ended := by
  by_cases hm : m ∈ c.discarded
  · rw [hello_swallowed hm]
    exact ⟨hi, hs.bare, hs.mem_unclaimed, hs.unclaimed_eq⟩
  · rw [hello_announces hm]
    have hfinished := c.entry_finished m
    have hnone : c.indexOf m = none := by
      rw [indexOf, Option.bind_eq_none_iff]
      exact fun e he => (ha.2 e he).1
    have hunfinished : c.isFinished m = false := by
      rw [isFinished, Option.any_eq_false]
      intro e he
      simpa using (ha.2 e he).2
    have hedit := c.get?_setEntry_entry m { (c.entry m).1 with index := some j }
    constructor
    · exact hi.lead hnone ha.1 rfl (Edits.indexOf hedit)
    · refine hs.edit hedit hunfinished ?_ (c.entry_unclaimed m)
      rintro e he
      cases he
      exact hfinished.trans hunfinished

/-- The server sends a piece. -/
theorem books_piece (hi : c.Indexed) (hs : c.Shelved ended) (j : UInt16) (w : UInt8)
    (bytes : Bytes) : (c.piece j w bytes).Indexed ∧ (c.piece j w bytes).Shelved ended := by
  obtain heq | ⟨m, e, partials, f, hstreamed, heq⟩ := c.piece_cases j w bytes
  · rw [heq]
    exact ⟨hi, hs⟩
  · obtain ⟨hj, he⟩ := streamed?_eq_some.1 hstreamed
    have hunfinished := hs.unfinished ((hi j m).1 hj)
    have hedit : Edits m (some { e with partials }) c (c.piece j w bytes) := by
      rw [heq]
      exact fun name => Dict.get?_insert _ _ name _
    constructor
    · refine hi.keep (c.piece_byIndex j w bytes) fun name => ?_
      rw [hedit.indexOf]
      split
      · rename_i hname
        rw [hname, indexOf, he]
        rfl
      · rfl
    · refine hs.edit hedit hunfinished ?_ ?_
      · rintro d hd
        cases hd
        rw [isFinished, he] at hunfinished
        exact hunfinished
      · rw [heq]
        rfl

/-- The server ends a result set. -/
theorem books_bye (hi : c.Indexed) (hs : c.Shelved ended) (j : UInt16) :
    (c.bye j).Indexed ∧ (c.bye j).Shelved (ended ++ c.ending (.bye j)) := by
  obtain ⟨hnone, heq⟩ | ⟨m, e, f, hstreamed, hend⟩ := c.bye_cases j
  · -- an index leads to an entry or nowhere
    have hj : c.byIndex.get? j = none := by
      rw [Option.eq_none_iff_forall_ne_some]
      intro m hm
      obtain ⟨e, he, -⟩ := indexOf_eq_some.1 ((hi j m).1 hm)
      rw [streamed?_eq_some.2 ⟨hm, he⟩] at hnone
      cases hnone
    rw [heq, Dict.erase_of_get?_none hj, ending, hj, Option.toList_none, List.append_nil]
    exact ⟨hi, hs⟩
  · obtain ⟨hj, he⟩ := streamed?_eq_some.1 hstreamed
    have hof := (hi j m).1 hj
    have hunfinished := hs.unfinished hof
    rw [ending, hj, Option.toList_some]
    obtain ⟨-, heq⟩ | ⟨hclaimed, heq⟩ := hend
    · -- a result set that was claimed is gone
      have hedit : Edits m none c (c.bye j) := by
        rw [heq]
        exact Dict.get?_erase _ _
      refine ⟨hi.free hof (c.bye_byIndex j) hedit.indexOf, ?_⟩
      refine (hs.edit hedit hunfinished (fun e he => by cases he) ?_).ended_append ?_
      · rw [heq]
        rfl
      · rw [hedit.isFinished, if_pos rfl, Option.any_none]
    · let line := c.unclaimed ++ [m]
      let excess := line.length - maxUnclaimed
      let d : Entry := { e with index := none, partials := .empty, finished := true }
      have hget : ∀ name, (c.bye j).entries.get? name =
          if name ∈ line.take excess then none
          else if name = m then some d else c.entries.get? name := by
        intro name
        rw [heq, get?_evict]
        split
        · rfl
        · exact Dict.get?_insert _ _ _ _
      have hunclaimed : (c.bye j).unclaimed = line.drop excess := by
        rw [heq]
        rfl
      refine ⟨hi.free hof (c.bye_byIndex j) fun name => ?_,
        Shelved.shelve (d := d) hs hunfinished ⟨rfl, rfl, hclaimed, rfl⟩ hget hunclaimed⟩
      rw [indexOf, hget name]
      by_cases hname : name = m
      · rw [if_pos hname, if_pos hname]
        split <;> rfl
      · rw [if_neg hname, if_neg hname]
        split
        · -- what is forgotten is over, and has no index that could be lost with the entry
          rename_i hcut
          have hmem : name ∈ c.unclaimed := by
            obtain hmem | hmem := List.mem_append.1 (List.mem_of_mem_take hcut)
            · exact hmem
            · exact absurd (List.mem_singleton.1 hmem) hname
          obtain ⟨d', hd', hover⟩ := isFinished_iff.1 ((hs.mem_unclaimed name).1 hmem)
          rw [indexOf, hd', Option.bind_some, (hs.bare name d' hd' hover).1]
          rfl
        · rfl

/-- The session ends, and nothing is left. -/
theorem books_terminate (c : Catalog) (ended : List String) (o : Outage) :
    (c.terminate o).Indexed ∧ (c.terminate o).Shelved ended := by
  have hfinished : (c.terminate o).isFinished = fun _ => false := rfl
  refine ⟨fun index name => ?_, fun name e he _ => ?_, fun name => ?_, ?_⟩
  · exact iff_of_false (fun h => by cases h) (fun h => by cases h)
  · cases he
  · exact iff_of_false List.not_mem_nil (fun h => by cases h)
  · rw [hfinished, List.filter_false]
    rfl

/-- Consumers that read or let go of a feed leave the books alone. -/
theorem books_modifyFeed (hi : c.Indexed) (hs : c.Shelved ended) (id : FeedId) (f : Feed → Feed) :
    (c.modifyFeed id f).Indexed ∧ (c.modifyFeed id f).Shelved ended :=
  ⟨hi, hs.bare, hs.mem_unclaimed, hs.unclaimed_eq⟩

/-! ## Runs -/

/-- The books are in order. -/
structure InOrder (ended : List String) (c : Catalog) : Prop where
  indexed : c.Indexed
  shelved : c.Shelved ended
  discardsAbsent : c.DiscardsAbsent
  unclaimed_le : c.unclaimed.length ≤ maxUnclaimed

/-- They are in order before anything happens. -/
theorem inOrder_ofLimit (limit : Nat) : (ofLimit limit).InOrder [] where
  indexed := fun index name => iff_of_false (fun h => by cases h) (fun h => by cases h)
  shelved := {
    bare := fun name e he => by cases he
    mem_unclaimed := fun name => iff_of_false List.not_mem_nil (fun h => by cases h)
    unclaimed_eq := rfl }
  discardsAbsent := fun name hname => by cases hname
  unclaimed_le := Nat.zero_le _

/-- An action that is allowed leaves them in order. -/
theorem InOrder.act (hc : c.InOrder ended) {a : Action} (ha : c.Allowed a) :
    (c.act a).InOrder (ended ++ c.ending a) := by
  have hi := hc.indexed
  have hs := hc.shelved
  -- only an end adds to what has ended
  have hsilent {c' : Catalog} (h : c'.Indexed ∧ c'.Shelved ended) :
      c'.Indexed ∧ c'.Shelved (ended ++ []) := by
    rwa [List.append_nil]
  have hboth : (c.act a).Indexed ∧ (c.act a).Shelved (ended ++ c.ending a) := by
    cases a with
    | connect m => exact hsilent (books_connect hi hs m)
    | disconnect m => exact hsilent (books_disconnect hi hs ha)
    | hello j m => exact hsilent (books_hello hi hs ha)
    | piece j w bytes => exact hsilent (books_piece hi hs j w bytes)
    | bye j => exact books_bye hi hs j
    | terminate o => exact hsilent (books_terminate c ended o)
    | take id => exact hsilent (books_modifyFeed hi hs id _)
    | leave id => exact hsilent (books_modifyFeed hi hs id _)
  exact ⟨hboth.1, hboth.2, hc.discardsAbsent.act a, unclaimed_le_act hc.unclaimed_le a⟩

/-- Books that are in order agree. -/
theorem InOrder.consistent (hc : c.InOrder ended) : c.Consistent ended where
  byIndex_iff := fun index name => (hc.indexed index name).trans indexOf_eq_some
  finished := hc.shelved.bare
  nodup := hc.shelved.nodup
  mem_unclaimed := fun name => (hc.shelved.mem_unclaimed name).trans isFinished_iff
  unclaimed_eq := hc.shelved.unclaimed_eq
  unclaimed_le := hc.unclaimed_le
  discarded := hc.discardsAbsent

/-- A run in which every action is allowed leaves them in order. -/
theorem InOrder.run {as : List Action} (hc : c.InOrder ended) (has : c.AllowedRun as) :
    (c.run as).InOrder (ended ++ c.endings as) := by
  induction as generalizing c ended with
  | nil => simpa [Catalog.run, endings] using hc
  | cons a as ih =>
    have hrest := ih (hc.act has.1) has.2
    rwa [List.append_assoc] at hrest

/-- The books of a catalog agree after any run in which every action is allowed. -/
theorem run_consistent (limit : Nat) (as : List Action) (has : (ofLimit limit).AllowedRun as) :
    ((ofLimit limit).run as).Consistent ((ofLimit limit).endings as) :=
  ((inOrder_ofLimit limit).run has).consistent

/-- One result set is kept, one is streamed, one is claimed early, and one is to be swallowed. -/
theorem run_consistent_mixed :
    let as : List Action := [.hello 1 "a", .bye 1, .connect "b", .hello 1 "b", .piece 1 0 [7],
      .connect "c", .disconnect "c", .hello 2 "d", .bye 2, .connect "a"]
    let c := (ofLimit 1).run as
    (ofLimit 1).AllowedRun as ∧ (ofLimit 1).endings as = ["a", "d"] ∧
      c.unclaimed = ["d"] ∧ c.byIndex.get? 1 = some "b" ∧ c.discarded = ["c"] ∧
      c.Consistent ((ofLimit 1).endings as) :=
  ⟨by decide, by decide, by decide, by decide, by decide, run_consistent 1 _ (by decide)⟩

end QueryLink.Catalog
