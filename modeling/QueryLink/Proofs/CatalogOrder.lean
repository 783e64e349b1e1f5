import QueryLink.Proofs.CatalogFrame

/-!
# The order the server keeps

Result sets that are open at a time have different indices, and no name is announced twice. While
the server is `Orderly` the books of a catalog stay `Ordered`: an index leads to one result set,
and a feed belongs to one.

## Key results

- `Ordered.act`: the books stay in order from action to action
- `Ordered.byIndex_act`: an action leaves alone the index of a result set it does not concern
-/

namespace QueryLink.Catalog

namespace Action

/-- The indices in use after an action of the server. -/
def opens (opened : List UInt16) : Action → List UInt16
  | .hello index _ => index :: opened
  | .bye index => opened.filter (· ≠ index)
  | _ => opened

/-- The names that were announced by then. -/
def announces (announced : List String) : Action → List String
  | .hello _ name => name :: announced
  | _ => announced

/-- An announcement takes an index that is not in use and a name that was never announced. -/
def Admitted (opened : List UInt16) (announced : List String) : Action → Prop
  | .hello index name => index ∉ opened ∧ name ∉ announced
  | _ => True

end Action

/-- Result sets that are open at a time have different indices, and no name is announced twice. -/
def Orderly : List UInt16 → List String → List Action → Prop
  | _, _, [] => True
  | opened, announced, a :: as =>
    a.Admitted opened announced ∧ Orderly (a.opens opened) (a.announces announced) as

/-- What the books of a catalog are like while the server keeps to its order. -/
structure Ordered (opened : List UInt16) (c : Catalog) : Prop where
  feed_lt : ∀ {name e}, c.entries.get? name = some e → e.feed < c.feeds.size
  feed_inj : ∀ {n m e d}, c.entries.get? n = some e → c.entries.get? m = some d →
    e.feed = d.feed → n = m
  index_eq : ∀ {name e i}, c.entries.get? name = some e → e.index = some i →
    c.byIndex.get? i = some name
  mem_opened : ∀ {i name}, c.byIndex.get? i = some name → i ∈ opened
  unclaimed_le : c.unclaimed.length ≤ maxUnclaimed

/-- A catalog without result sets has nothing to be out of order. -/
theorem ordered_ofLimit (limit : Nat) : (ofLimit limit).Ordered [] where
  feed_lt := by simp [ofLimit]
  feed_inj := by simp [ofLimit]
  index_eq := by simp [ofLimit]
  mem_opened := by simp [ofLimit]
  unclaimed_le := Nat.zero_le _

/-- Entries have feeds of their own. -/
theorem Ordered.ownFeeds {opened : List UInt16} {c : Catalog} (hc : c.Ordered opened) :
    c.OwnFeeds :=
  ⟨hc.feed_lt, hc.feed_inj⟩

/-- An index that is in use after an action is one of those the server has open. -/
theorem Ordered.mem_opened_act {opened : List UInt16} {c : Catalog} (hc : c.Ordered opened)
    (a : Action) {i : UInt16} {name : String} (h : (c.act a).byIndex.get? i = some name) :
    i ∈ a.opens opened := by
  obtain ⟨hold, hbye⟩ | rfl := c.byIndex_origin a h
  · have hmem := hc.mem_opened hold
    cases a with
    | hello j m => exact List.mem_cons_of_mem j hmem
    | bye j => exact List.mem_filter.2 ⟨hmem, decide_eq_true fun hij => hbye (congrArg _ hij.symm)⟩
    | _ => exact hmem
  · exact List.mem_cons_self

/-- Forgetting the entry of a name leaves the other entries with their indices. -/
private theorem Ordered.index_eq_erase {opened : List UInt16} {c : Catalog} (hc : c.Ordered opened)
    {m name : String} {e : Entry} {i : UInt16} (he : (c.entries.erase m).get? name = some e)
    (hi : e.index = some i) : name ≠ m ∧ c.byIndex.get? i = some name := by
  rw [Dict.get?_erase] at he
  split at he
  · cases he
  · rename_i hname
    exact ⟨hname, hc.index_eq he hi⟩

/-- So does an edit of the entry that keeps its index. -/
private theorem Ordered.index_eq_insert {opened : List UInt16} {c : Catalog}
    (hc : c.Ordered opened) {m name : String} {d d' e : Entry} {i : UInt16}
    (hd : c.entries.get? m = some d) (he : (c.entries.insert m d').get? name = some e)
    (hindex : d'.index = d.index) (hi : e.index = some i) : c.byIndex.get? i = some name := by
  rw [Dict.get?_insert] at he
  split at he
  · rename_i hname
    cases he
    rw [hindex] at hi
    rw [hname]
    exact hc.index_eq hd hi
  · exact hc.index_eq he hi

/-- An index that leads to one name does not lead to another. -/
private theorem index_ne {c : Catalog} {i j : UInt16} {m name : String} (hne : name ≠ m)
    (hi : c.byIndex.get? i = some name) (hj : c.byIndex.get? j = some m) : i ≠ j := by
  rintro rfl
  rw [hi] at hj
  exact hne (Option.some.inj hj)

/-- An entry that has an index is the one that the index leads to. -/
def Leads (c : Catalog) : Prop :=
  ∀ ⦃name : String⦄ ⦃e : Entry⦄ ⦃i : UInt16⦄, c.entries.get? name = some e → e.index = some i →
    c.byIndex.get? i = some name

/-- A consumer that comes takes the entry over as it is, makes one without an index, or fetches
one away. -/
private theorem Ordered.leads_connect {opened : List UInt16} {c : Catalog} (hc : c.Ordered opened)
    (m : String) : (c.act (.connect m)).Leads := by
  intro name e i he hi
  rw [connect_byIndex]
  obtain heq | heq | heq := c.connect_cases m
  · rw [heq] at he
    exact hc.index_eq he hi
  · rw [heq] at he
    obtain ⟨hold, hsame⟩ | ⟨-, hnew, -⟩ := c.entry_origin m
    · rw [hsame] at he
      exact hc.index_eq_insert hold he rfl hi
    · rw [setEntry_entries, Dict.get?_insert] at he
      split at he
      · -- a new entry has no index
        cases he
        rw [hnew] at hi
        cases hi
      · rename_i hname
        rw [get?_entry_ne c hname] at he
        exact hc.index_eq he hi
  · rw [heq, eraseEntry_entries, Dict.get?_erase] at he
    split at he
    · cases he
    · rename_i hname
      rw [get?_entry_ne c hname] at he
      exact hc.index_eq he hi

/-- A consumer that goes frees the index of its entry. -/
private theorem Ordered.leads_disconnect {opened : List UInt16} {c : Catalog}
    (hc : c.Ordered opened) (m : String) : (c.act (.disconnect m)).Leads := by
  intro name e i he hi
  rw [act] at he ⊢
  obtain ⟨-, heq⟩ | ⟨d, hd, ⟨j, hj, heq⟩ | ⟨-, discarded, -, heq⟩⟩ := c.disconnect_cases m
  · rw [heq] at he ⊢
    exact hc.index_eq he hi
  · -- the index that is freed led to the name that is gone
    rw [heq] at he ⊢
    obtain ⟨hname, hleads⟩ := hc.index_eq_erase he hi
    rw [Dict.get?_erase, if_neg (index_ne hname hleads (hc.index_eq hd hj))]
    exact hleads
  · rw [heq] at he ⊢
    exact (hc.index_eq_erase he hi).2

/-- An announcement takes a free index. -/
private theorem Ordered.leads_hello {opened : List UInt16} {c : Catalog} (hc : c.Ordered opened)
    {j : UInt16} (hj : j ∉ opened) (m : String) : (c.act (.hello j m)).Leads := by
  intro name e i he hi
  rw [act] at he ⊢
  obtain heq | heq := c.hello_cases j m
  · rw [heq] at he ⊢
    exact hc.index_eq he hi
  · rw [heq] at he ⊢
    rw [setEntry_entries, Dict.get?_insert] at he
    rw [Dict.get?_insert]
    split at he
    · rename_i hname
      cases he
      cases hi
      rw [if_pos rfl, hname]
    · rename_i hname
      rw [get?_entry_ne c hname] at he
      have hleads := hc.index_eq he hi
      -- an index that leads to a result set is in use, and the announced one is not
      have hij : i ≠ j := fun hij => hj (hij ▸ hc.mem_opened hleads)
      rw [if_neg hij, hleads]

/-- A piece leaves names and indices as they are. -/
private theorem Ordered.leads_piece {opened : List UInt16} {c : Catalog} (hc : c.Ordered opened)
    (j : UInt16) (w : UInt8) (bytes : Bytes) : (c.act (.piece j w bytes)).Leads := by
  intro name e i he hi
  rw [act] at he ⊢
  rw [piece_byIndex]
  obtain heq | ⟨m, d, partials, f, hs, heq⟩ := c.piece_cases j w bytes
  · rw [heq] at he
    exact hc.index_eq he hi
  · rw [heq] at he
    exact hc.index_eq_insert (streamed?_eq_some.1 hs).2 he rfl hi

/-- The end of a result set frees its index and forgets it in the entry, if that is kept. -/
private theorem Ordered.leads_bye {opened : List UInt16} {c : Catalog} (hc : c.Ordered opened)
    (j : UInt16) : (c.act (.bye j)).Leads := by
  intro name e i he hi
  rw [act] at he ⊢
  rw [bye_byIndex, Dict.get?_erase]
  obtain ⟨hs, heq⟩ | ⟨m, d, f, hs, hend⟩ := c.bye_cases j
  · rw [heq] at he
    have hleads := hc.index_eq he hi
    -- an index that led to an entry would have a result set to end
    have hij : i ≠ j := by
      rintro rfl
      rw [streamed?_eq_some.2 ⟨hleads, he⟩] at hs
      cases hs
    rw [if_neg hij, hleads]
  · have hj := (streamed?_eq_some.1 hs).1
    obtain ⟨-, heq⟩ | ⟨-, heq⟩ := hend
    · rw [heq] at he
      obtain ⟨hname, hleads⟩ := hc.index_eq_erase he hi
      rw [if_neg (index_ne hname hleads hj), hleads]
    · rw [heq, get?_evict] at he
      split at he
      · cases he
      · rw [setEntry_entries, modifyFeed_entries, Dict.get?_insert] at he
        split at he
        · cases he
          cases hi
        · rename_i hname
          have hleads := hc.index_eq he hi
          rw [if_neg (index_ne hname hleads hj), hleads]

/-- An entry that has an index after an action is the one that the index leads to then. -/
theorem Ordered.leads_act {opened : List UInt16} {c : Catalog} (hc : c.Ordered opened)
    {a : Action} {announced : List String} (ha : a.Admitted opened announced) :
    (c.act a).Leads := by
  cases a with
  | connect m => exact hc.leads_connect m
  | disconnect m => exact hc.leads_disconnect m
  | hello j m => exact hc.leads_hello ha.1 m
  | piece j w bytes => exact hc.leads_piece j w bytes
  | bye j => exact hc.leads_bye j
  | terminate o => exact fun _ _ _ he => by cases he
  | take id => exact fun _ _ _ he hi => hc.index_eq he hi
  | leave id => exact fun _ _ _ he hi => hc.index_eq he hi

/-- The books stay in order from action to action. -/
theorem Ordered.act {opened : List UInt16} {c : Catalog} (hc : c.Ordered opened) {a : Action}
    {announced : List String} (ha : a.Admitted opened announced) :
    (c.act a).Ordered (a.opens opened) where
  feed_lt := (hc.ownFeeds.act a).lt
  feed_inj := (hc.ownFeeds.act a).inj
  index_eq he hi := hc.leads_act ha he hi
  mem_opened := hc.mem_opened_act a
  unclaimed_le := unclaimed_le_act hc.unclaimed_le a

/-- An action leaves alone the index of a result set it does not concern: an announcement would
need a free one, and a consumer that leaves frees its own. -/
theorem Ordered.byIndex_act {opened : List UInt16} {c : Catalog} (hc : c.Ordered opened)
    {a : Action} {announced : List String} (ha : a.Admitted opened announced) {name : String}
    (h : ¬ c.Concerns a name) (i : UInt16) :
    (c.act a).byIndex.get? i = some name ↔ c.byIndex.get? i = some name := by
  cases a with
  | connect m => rw [connect_byIndex]
  | disconnect m =>
    rw [Catalog.act]
    obtain ⟨-, heq⟩ | ⟨e, he, ⟨j, hj, heq⟩ | ⟨-, discarded, -, heq⟩⟩ := c.disconnect_cases m
    · rw [heq]
    · rw [heq, Dict.get?_erase]
      split
      · -- the index that is freed led to the name that is gone
        rename_i hij
        rw [hij, hc.index_eq he hj, Option.some.injEq]
        exact iff_of_false (fun hnone => by cases hnone) h
      · exact Iff.rfl
    · rw [heq]
      exact Iff.rfl
  | hello j m =>
    rw [Catalog.act]
    obtain heq | heq := c.hello_cases j m
    · rw [heq]
    · rw [heq, Dict.get?_insert]
      split
      · -- the index was not in use, and now it leads to another name
        rename_i hij
        subst hij
        refine iff_of_false (fun heq => h (Option.some.inj heq)) (fun hold => ?_)
        exact ha.1 (hc.mem_opened hold)
      · exact Iff.rfl
  | piece j w bytes => rw [Catalog.act, piece_byIndex]
  | bye j =>
    rw [Catalog.act, bye_byIndex, Dict.get?_erase]
    split
    · rename_i hij
      subst hij
      exact iff_of_false (fun hnone => by cases hnone) h
    · exact Iff.rfl
  | terminate o => exact absurd trivial h
  | take id => exact Iff.rfl
  | leave id => exact Iff.rfl

end QueryLink.Catalog
