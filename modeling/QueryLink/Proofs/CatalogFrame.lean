import QueryLink.Proofs.CatalogRuns

/-!
# What an action leaves alone

An action `Concerns` the result sets it names, by name or by index; all other result sets keep
their entry, their index and their feed, unless they are `evicted`. Feeds are never reused.

## Key results

- `get?_act`, `discarded_act`, `unclaimed_act`: what an action leaves alone
- `feed_act`: the only feeds that change are those of entries the action concerns
- `act_origin`: an entry has the feed it had before, or a new one
- `finished_origin`, `byIndex_origin`: what makes a result set be over, or an index lead to it
- `OwnFeeds.act`, `OwnFeeds.pairwise`: no two entries share a feed
- `unclaimed_cases`, `unclaimed_le_act`: what becomes of the finished result sets that are kept
- `Unfed.act`, `Unfed.feed_act`: a feed without an entry stays so, and gets nothing
-/

namespace QueryLink.Catalog

/-! ## Entries and feeds -/

/-- Whether an action is about the result set of a name. -/
def Concerns (c : Catalog) : Action → String → Prop
  | .connect name, n => name = n
  | .disconnect name, n => name = n
  | .hello _ name, n => name = n
  | .piece index _ _, n => c.byIndex.get? index = some n
  | .bye index, n => c.byIndex.get? index = some n
  | .terminate _, _ => True
  | .take _, _ => False
  | .leave _, _ => False

/-- Whether a result set ends that nobody has asked for. -/
def endsUnclaimed (c : Catalog) : Action → Bool
  | .bye index => (c.streamed? index).any fun p => !p.2.claimed
  | _ => false

/-- The finished result sets that are forgotten because another one is kept. -/
def evicted (c : Catalog) (a : Action) : List String :=
  if c.endsUnclaimed a then c.unclaimed.take (c.unclaimed.length + 1 - maxUnclaimed) else []

/-- An action spares the entries of the names it does not concern. -/
theorem get?_act (c : Catalog) {a : Action} {name : String} (h : ¬ c.Concerns a name)
    (hkept : name ∉ c.evicted a) : (c.act a).entries.get? name = c.entries.get? name := by
  cases a with
  | connect m =>
    have hne : name ≠ m := fun e => h e.symm
    obtain heq | heq | heq := c.connect_cases m
    · rw [heq]
    · rw [heq, setEntry_entries, Dict.get?_insert, if_neg hne, get?_entry_ne c hne]
    · rw [heq, eraseEntry_entries, Dict.get?_erase, if_neg hne, get?_entry_ne c hne]
  | disconnect m =>
    have hne : name ≠ m := fun e => h e.symm
    rw [act]
    obtain ⟨-, heq⟩ | ⟨e, -, ⟨i, -, heq⟩ | ⟨-, discarded, -, heq⟩⟩ := c.disconnect_cases m
    · rw [heq]
    · rw [heq, eraseEntry_entries, Dict.get?_erase, if_neg hne]
    · rw [heq, eraseEntry_entries, Dict.get?_erase, if_neg hne]
  | hello j m =>
    have hne : name ≠ m := fun e => h e.symm
    rw [act]
    obtain heq | heq := c.hello_cases j m
    · rw [heq]
    · rw [heq, setEntry_entries, Dict.get?_insert, if_neg hne, get?_entry_ne c hne]
  | piece j w bytes =>
    rw [act]
    obtain heq | ⟨m, e, partials, f, hs, heq⟩ := c.piece_cases j w bytes
    · rw [heq]
    · -- a piece edits the entry its index leads to, which is another one
      have hne : name ≠ m := by
        rintro rfl
        exact h (streamed?_eq_some.1 hs).1
      rw [heq, modifyFeed_entries, setEntry_entries, Dict.get?_insert, if_neg hne]
  | bye j =>
    rw [act]
    obtain ⟨-, heq⟩ | ⟨m, e, f, hs, hend⟩ := c.bye_cases j
    · rw [heq]
    · have hne : name ≠ m := by
        rintro rfl
        exact h (streamed?_eq_some.1 hs).1
      obtain ⟨-, heq⟩ | ⟨hclaimed, heq⟩ := hend
      · rw [heq, eraseEntry_entries, modifyFeed_entries, Dict.get?_erase, if_neg hne]
      · -- the end of a result set is what may forget others, but not this one
        have hends : c.endsUnclaimed (.bye j) = true := by
          simp [endsUnclaimed, hs, hclaimed]
        have hlen : c.unclaimed.length + 1 - maxUnclaimed ≤ c.unclaimed.length := by
          unfold maxUnclaimed
          omega
        rw [evicted, if_pos hends] at hkept
        rw [heq, get?_evict, if_neg]
        · rw [setEntry_entries, modifyFeed_entries, Dict.get?_insert, if_neg hne]
        · rwa [List.length_append, List.length_singleton, List.take_append_of_le_length hlen]
  | terminate o => exact absurd trivial h
  | take id => rfl
  | leave id => rfl

/-- Changing the feeds of some entries leaves other feeds alone. -/
theorem feed_foldl_of_ne (es : List Entry) (f : Feed → Feed) (c : Catalog) {id : FeedId}
    (h : ∀ e ∈ es, e.feed ≠ id) :
    (es.foldl (fun c e => c.modifyFeed e.feed f) c).feed id = c.feed id := by
  induction es generalizing c with
  | nil => rfl
  | cons e es ih =>
    rw [List.foldl_cons, ih _ fun e' he' => h e' (List.mem_cons_of_mem _ he')]
    exact feed_modifyFeed_ne c (h e List.mem_cons_self).symm f

/-- Each of them is changed once if no two entries share a feed. -/
theorem feed_foldl_of_mem (f : Feed → Feed) {es : List Entry} {c : Catalog} {e : Entry}
    (hdistinct : es.Pairwise fun d e => d.feed ≠ e.feed) (he : e ∈ es)
    (hlt : e.feed < c.feeds.size) :
    (es.foldl (fun c e => c.modifyFeed e.feed f) c).feed e.feed = f (c.feed e.feed) := by
  induction es generalizing c with
  | nil => cases he
  | cons d es ih =>
    obtain ⟨hd, hes⟩ := List.pairwise_cons.1 hdistinct
    rw [List.foldl_cons]
    -- either it is the first entry, or the first one has another feed
    obtain rfl | he := List.mem_cons.1 he
    · rw [feed_foldl_of_ne _ _ _ fun e' he' => (hd e' he').symm, feed_modifyFeed_self c hlt]
    · rw [ih hes he (by simpa using hlt), feed_modifyFeed_ne c (hd e he).symm]

theorem size_foldl (es : List Entry) (f : Feed → Feed) (c : Catalog) :
    (es.foldl (fun c e => c.modifyFeed e.feed f) c).feeds.size = c.feeds.size := by
  induction es generalizing c with
  | nil => rfl
  | cons e es ih => rw [List.foldl_cons, ih, size_modifyFeed]

/-- A consumer that comes changes no feed: looking an entry up, and editing it, does not. -/
theorem feed_connect (c : Catalog) (m : String) (id : FeedId) :
    (c.act (.connect m)).feed id = c.feed id := by
  obtain heq | heq | heq := c.connect_cases m
  · rw [heq]
  · rw [heq]
    exact c.feed_entry m id
  · rw [heq]
    exact c.feed_entry m id

theorem feed_disconnect (c : Catalog) (m : String) (id : FeedId) :
    (c.disconnect m).feed id = c.feed id := by
  obtain ⟨-, heq⟩ | ⟨e, -, ⟨i, -, heq⟩ | ⟨-, discarded, -, heq⟩⟩ := c.disconnect_cases m
  · rw [heq]
  · rw [heq]
    rfl
  · rw [heq]
    rfl

theorem feed_hello (c : Catalog) (j : UInt16) (m : String) (id : FeedId) :
    (c.hello j m).feed id = c.feed id := by
  obtain heq | heq := c.hello_cases j m
  · rw [heq]
    rfl
  · rw [heq]
    exact c.feed_entry m id

/-- When the session ends, only the consumers of result sets that are not over are told. -/
theorem feed_terminate_of_ne (c : Catalog) {id : FeedId}
    (h : ∀ name e, c.entries.get? name = some e → e.finished = false → e.feed ≠ id)
    (outage : Outage) : (c.terminate outage).feed id = c.feed id := by
  refine feed_foldl_of_ne _ _ _ fun e he => ?_
  obtain ⟨hvalue, hfinished⟩ := List.mem_filter.1 he
  obtain ⟨name, hname⟩ := Dict.mem_values_iff.1 hvalue
  exact h name e hname (by simpa using hfinished)

/-- An action spares the feeds of the result sets it does not concern. -/
theorem feed_act (c : Catalog) {a : Action} {id : FeedId} (htake : a ≠ .take id)
    (hleave : a ≠ .leave id)
    (h : ∀ name e, c.entries.get? name = some e → e.feed = id → ¬ c.Concerns a name) :
    (c.act a).feed id = c.feed id := by
  cases a with
  | connect m => exact c.feed_connect m id
  | disconnect m => exact c.feed_disconnect m id
  | hello j m => exact c.feed_hello j m id
  | piece j w bytes =>
    rw [act]
    obtain heq | ⟨m, e, partials, f, hs, heq⟩ := c.piece_cases j w bytes
    · rw [heq]
    · -- the feed that is written to belongs to a result set the action concerns
      obtain ⟨hj, he⟩ := streamed?_eq_some.1 hs
      have hne : id ≠ e.feed := fun hfeed => h m e he hfeed.symm hj
      rw [heq, feed_modifyFeed_ne _ hne, setEntry_feed]
  | bye j =>
    rw [act]
    obtain ⟨-, heq⟩ | ⟨m, e, f, hs, hend⟩ := c.bye_cases j
    · rw [heq]
      rfl
    · obtain ⟨hj, he⟩ := streamed?_eq_some.1 hs
      have hne : id ≠ e.feed := fun hfeed => h m e he hfeed.symm hj
      obtain ⟨-, heq⟩ | ⟨-, heq⟩ := hend
      · rw [heq]
        exact feed_modifyFeed_ne _ hne f
      · rw [heq]
        exact feed_modifyFeed_ne _ hne f
  | terminate o =>
    exact c.feed_terminate_of_ne (fun name e he _ heq => h name e he heq trivial) o
  | take other => exact feed_modifyFeed_ne c (fun heq => htake (congrArg _ heq.symm)) _
  | leave other => exact feed_modifyFeed_ne c (fun heq => hleave (congrArg _ heq.symm)) _

/-! ## Where entries come from -/

/-- Where an entry may come from: it was there, under the same name and with the same feed, and it
was not over yet if it is not now. -/
def Inherited (c : Catalog) (name : String) (e : Entry) : Prop :=
  ∃ old, c.entries.get? name = some old ∧ e.feed = old.feed ∧
    (e.finished = false → old.finished = false)

/-- Else it was made for a consumer or an announcement, and its feed is new. -/
def Fresh (c : Catalog) (a : Action) (name : String) (e : Entry) : Prop :=
  (a = .connect name ∨ ∃ index, a = .hello index name) ∧ c.entries.get? name = none ∧
    e.feed = c.feeds.size

/-- An entry that is edited keeps its feed, and the others stay as they are. -/
private theorem inherited_insert {c : Catalog} {m name : String} {d d' e : Entry}
    (hd : c.entries.get? m = some d) (he : (c.entries.insert m d').get? name = some e)
    (hfeed : d'.feed = d.feed) (hfinished : d'.finished = false → d.finished = false) :
    c.Inherited name e := by
  rw [Dict.get?_insert] at he
  split at he
  · rename_i hname
    cases he
    exact ⟨d, by rw [hname, hd], hfeed, hfinished⟩
  · exact ⟨e, he, rfl, id⟩

/-- When an entry is forgotten the others stay as they are. -/
private theorem inherited_erase {c : Catalog} {m name : String} {e : Entry}
    (he : (c.entries.erase m).get? name = some e) : c.Inherited name e := by
  rw [Dict.get?_erase] at he
  split at he
  · cases he
  · exact ⟨e, he, rfl, id⟩

/-- An entry that is looked up and edited is inherited or fresh, and the others are inherited. -/
private theorem origin_of_entry {c : Catalog} {a : Action} {m name : String} {d e : Entry}
    (ha : a = .connect m ∨ ∃ index, a = .hello index m)
    (he : ((c.entry m).2.entries.insert m d).get? name = some e)
    (hfeed : d.feed = (c.entry m).1.feed)
    (hfinished : d.finished = false → (c.entry m).1.finished = false) :
    c.Inherited name e ∨ c.Fresh a name e ∧ c.feeds.size < (c.entry m).2.feeds.size := by
  obtain ⟨hold, hsame⟩ | ⟨hnone, hnew, hsize⟩ := c.entry_origin m
  · rw [hsame] at he
    exact .inl (inherited_insert hold he hfeed hfinished)
  · rw [Dict.get?_insert] at he
    split at he
    · rename_i hname
      subst hname
      cases he
      rw [hnew] at hfeed
      exact .inr ⟨⟨ha, hnone, hfeed⟩, by rw [hsize]; exact Nat.lt_succ_self _⟩
    · rename_i hname
      rw [get?_entry_ne c hname] at he
      exact .inl ⟨e, he, rfl, id⟩

/-- Looking up an entry may add a feed. -/
private theorem size_le_entry (c : Catalog) (m : String) :
    c.feeds.size ≤ (c.entry m).2.feeds.size := by
  obtain ⟨-, hsame⟩ | ⟨-, -, hsize⟩ := c.entry_origin m
  · exact Nat.le_of_eq (by rw [hsame])
  · rw [hsize]
    exact Nat.le_succ _

/-- Feeds are only ever added, and no entry gets the feed of another one. -/
theorem act_origin (c : Catalog) (a : Action) :
    c.feeds.size ≤ (c.act a).feeds.size ∧
    ∀ name e, (c.act a).entries.get? name = some e →
      c.Inherited name e ∨ c.Fresh a name e ∧ c.feeds.size < (c.act a).feeds.size := by
  have hsame : ∀ name e, c.entries.get? name = some e → c.Inherited name e :=
    fun name e he => ⟨e, he, rfl, id⟩
  cases a with
  | connect m =>
    obtain heq | heq | heq := c.connect_cases m
    · rw [heq]
      exact ⟨Nat.le_refl _, fun name e he => .inl (hsame name e he)⟩
    · rw [heq]
      exact ⟨c.size_le_entry m, fun name e he => origin_of_entry (.inl rfl) he rfl id⟩
    · rw [heq]
      refine ⟨c.size_le_entry m, fun name e he => .inl ?_⟩
      rw [eraseEntry_entries, Dict.get?_erase] at he
      split at he
      · cases he
      · rename_i hname
        rw [get?_entry_ne c hname] at he
        exact hsame name e he
  | disconnect m =>
    rw [act]
    obtain ⟨-, heq⟩ | ⟨d, -, ⟨i, -, heq⟩ | ⟨-, discarded, -, heq⟩⟩ := c.disconnect_cases m
    · rw [heq]
      exact ⟨Nat.le_refl _, fun name e he => .inl (hsame name e he)⟩
    · rw [heq]
      exact ⟨Nat.le_refl _, fun name e he => .inl (inherited_erase he)⟩
    · rw [heq]
      exact ⟨Nat.le_refl _, fun name e he => .inl (inherited_erase he)⟩
  | hello j m =>
    rw [act]
    obtain heq | heq := c.hello_cases j m
    · rw [heq]
      exact ⟨Nat.le_refl _, fun name e he => .inl (hsame name e he)⟩
    · rw [heq]
      exact ⟨c.size_le_entry m, fun name e he => origin_of_entry (.inr ⟨j, rfl⟩) he rfl id⟩
  | piece j w bytes =>
    rw [act]
    obtain heq | ⟨m, d, partials, f, hs, heq⟩ := c.piece_cases j w bytes
    · rw [heq]
      exact ⟨Nat.le_refl _, fun name e he => .inl (hsame name e he)⟩
    · rw [heq]
      refine ⟨Nat.le_of_eq (size_modifyFeed _ _ _).symm, fun name e he => .inl ?_⟩
      exact inherited_insert (streamed?_eq_some.1 hs).2 he rfl id
  | bye j =>
    rw [act]
    obtain ⟨-, heq⟩ | ⟨m, d, f, hs, ⟨-, heq⟩ | ⟨-, heq⟩⟩ := c.bye_cases j
    · rw [heq]
      exact ⟨Nat.le_refl _, fun name e he => .inl (hsame name e he)⟩
    · rw [heq]
      refine ⟨Nat.le_of_eq (size_modifyFeed _ _ _).symm, fun name e he => .inl ?_⟩
      exact inherited_erase he
    · rw [heq]
      refine ⟨Nat.le_of_eq (size_modifyFeed _ _ _).symm, fun name e he => .inl ?_⟩
      -- what is left after eviction was there before
      rw [get?_evict] at he
      split at he
      · cases he
      · exact inherited_insert (streamed?_eq_some.1 hs).2 he rfl Bool.noConfusion
  | terminate o =>
    refine ⟨Nat.le_of_eq (size_foldl _ _ _).symm, fun name e he => ?_⟩
    -- no entry outlives the session
    cases he
  | take id =>
    exact ⟨Nat.le_of_eq (size_modifyFeed _ _ _).symm, fun name e he => .inl (hsame name e he)⟩
  | leave id =>
    exact ⟨Nat.le_of_eq (size_modifyFeed _ _ _).symm, fun name e he => .inl (hsame name e he)⟩

/-- Whether the result set of a name is over. -/
def isFinished (c : Catalog) (name : String) : Bool :=
  (c.entries.get? name).any Entry.finished

theorem isFinished_iff {c : Catalog} {name : String} :
    c.isFinished name = true ↔ ∃ e, c.entries.get? name = some e ∧ e.finished = true := by
  rw [isFinished, Option.any_eq_true]

/-- An entry that is looked up is over if the result set of its name is. -/
theorem entry_finished (c : Catalog) (m : String) : (c.entry m).1.finished = c.isFinished m := by
  obtain ⟨hold, -⟩ | ⟨hnone, hnew, -⟩ := c.entry_origin m
  · simp [isFinished, hold]
  · simp [isFinished, hnone, hnew]

/-- A result set is over because it was before, or because it ends now. -/
theorem finished_origin (c : Catalog) (a : Action) {name : String} {e : Entry}
    (he : (c.act a).entries.get? name = some e) (hfinished : e.finished = true) :
    c.isFinished name = true ∨ ∃ j old, a = .bye j ∧ c.streamed? j = some (name, old) := by
  have hsame : c.entries.get? name = some e → c.isFinished name = true :=
    fun hold => isFinished_iff.2 ⟨e, hold, hfinished⟩
  -- an edit of an entry that was looked up keeps whether it is over
  have hedit {m : String} {d : Entry}
      (hget : ((c.entry m).2.setEntry m d).entries.get? name = some e)
      (hd : d.finished = (c.entry m).1.finished) : c.isFinished name = true := by
    rw [get?_setEntry_entry] at hget
    split at hget
    · rename_i hname
      cases hget
      rw [hname, ← entry_finished, ← hd, hfinished]
    · exact hsame hget
  cases a with
  | connect m =>
    obtain heq | heq | heq := c.connect_cases m
    · rw [heq] at he
      exact .inl (hsame he)
    · rw [heq] at he
      exact .inl (hedit he rfl)
    · rw [heq] at he
      replace he := (c.get?_eraseEntry_entry m name).symm.trans he
      split at he
      · cases he
      · exact .inl (hsame he)
  | disconnect m =>
    rw [act] at he
    obtain ⟨-, heq⟩ | ⟨d, -, ⟨i, -, heq⟩ | ⟨-, discarded, -, heq⟩⟩ := c.disconnect_cases m
    · rw [heq] at he
      exact .inl (hsame he)
    all_goals
      rw [heq, eraseEntry_entries, Dict.get?_erase] at he
      split at he
      · cases he
      · exact .inl (hsame he)
  | hello j m =>
    rw [act] at he
    obtain heq | heq := c.hello_cases j m
    · rw [heq] at he
      exact .inl (hsame he)
    · rw [heq] at he
      exact .inl (hedit he rfl)
  | piece j w bytes =>
    rw [act] at he
    obtain heq | ⟨m, d, partials, f, hs, heq⟩ := c.piece_cases j w bytes
    · rw [heq] at he
      exact .inl (hsame he)
    · rw [heq, modifyFeed_entries, setEntry_entries, Dict.get?_insert] at he
      split at he
      · rename_i hname
        cases he
        rw [hname]
        exact .inl (isFinished_iff.2 ⟨d, (streamed?_eq_some.1 hs).2, hfinished⟩)
      · exact .inl (hsame he)
  | bye j =>
    rw [act] at he
    obtain ⟨-, heq⟩ | ⟨m, d, f, hs, ⟨-, heq⟩ | ⟨-, heq⟩⟩ := c.bye_cases j
    · rw [heq] at he
      exact .inl (hsame he)
    · rw [heq, eraseEntry_entries, modifyFeed_entries, Dict.get?_erase] at he
      split at he
      · cases he
      · exact .inl (hsame he)
    · rw [heq, get?_evict] at he
      split at he
      · cases he
      · rw [setEntry_entries, modifyFeed_entries, Dict.get?_insert] at he
        split at he
        · rename_i hname
          rw [hname]
          exact .inr ⟨j, d, rfl, hs⟩
        · exact .inl (hsame he)
  | terminate o => cases he
  | take id => exact .inl (hsame he)
  | leave id => exact .inl (hsame he)

/-- An index leads to a name because it did before, or because it is announced for it now; the end
of a result set frees its index. -/
theorem byIndex_origin (c : Catalog) (a : Action) {i : UInt16} {name : String}
    (h : (c.act a).byIndex.get? i = some name) :
    (c.byIndex.get? i = some name ∧ a ≠ .bye i) ∨ a = .hello i name := by
  cases a with
  | connect m =>
    rw [connect_byIndex] at h
    exact .inl ⟨h, by simp⟩
  | disconnect m =>
    rw [act] at h
    refine .inl ⟨?_, by simp⟩
    obtain ⟨-, heq⟩ | ⟨e, -, ⟨j, -, heq⟩ | ⟨-, discarded, -, heq⟩⟩ := c.disconnect_cases m
    · rwa [heq] at h
    · rw [heq, Dict.get?_erase] at h
      split at h
      · cases h
      · exact h
    · rwa [heq] at h
  | hello j m =>
    rw [act] at h
    obtain heq | heq := c.hello_cases j m
    · rw [heq] at h
      exact .inl ⟨h, by simp⟩
    · rw [heq, Dict.get?_insert] at h
      split at h
      · rename_i hi
        cases h
        exact .inr (by rw [hi])
      · exact .inl ⟨h, by simp⟩
  | piece j w bytes =>
    rw [act, piece_byIndex] at h
    exact .inl ⟨h, by simp⟩
  | bye j =>
    rw [act, bye_byIndex, Dict.get?_erase] at h
    split at h
    · cases h
    · rename_i hi
      exact .inl ⟨h, fun heq => hi (Action.bye.inj heq).symm⟩
  | terminate o => cases h
  | take id => exact .inl ⟨h, by simp⟩
  | leave id => exact .inl ⟨h, by simp⟩

/-! ## Feeds of their own -/

/-- Each entry has a feed that is there, and no two entries share one. -/
structure OwnFeeds (c : Catalog) : Prop where
  lt : ∀ {name e}, c.entries.get? name = some e → e.feed < c.feeds.size
  inj : ∀ {n m e d}, c.entries.get? n = some e → c.entries.get? m = some d →
    e.feed = d.feed → n = m

/-- Entries have feeds of their own after an action. -/
theorem OwnFeeds.act {c : Catalog} (hc : c.OwnFeeds) (a : Action) : (c.act a).OwnFeeds := by
  obtain ⟨hle, horigin⟩ := c.act_origin a
  constructor
  · intro name e he
    obtain ⟨old, hold, hfeed, -⟩ | ⟨⟨-, -, hfeed⟩, hlt⟩ := horigin name e he
    · rw [hfeed]
      exact Nat.lt_of_lt_of_le (hc.lt hold) hle
    · rwa [hfeed]
  · intro n m e d he hd heq
    obtain ⟨olde, holde, hfeede, -⟩ | ⟨⟨hae, -, hfeede⟩, -⟩ := horigin n e he
    -- an old feed is below the size, a new one is the size; two new ones are of one action
    all_goals obtain ⟨oldd, holdd, hfeedd, -⟩ | ⟨⟨had, -, hfeedd⟩, -⟩ := horigin m d hd
    · exact hc.inj holde holdd (by rw [← hfeede, heq, hfeedd])
    · exact absurd (hc.lt holde) (by rw [← hfeede, heq, hfeedd]; exact Nat.lt_irrefl _)
    · exact absurd (hc.lt holdd) (by rw [← hfeedd, ← heq, hfeede]; exact Nat.lt_irrefl _)
    · obtain rfl | ⟨i, rfl⟩ := hae
      · obtain h | ⟨j, h⟩ := had <;> cases h
        rfl
      · obtain h | ⟨j, h⟩ := had <;> cases h
        rfl

/-- No two entries share a feed. -/
theorem OwnFeeds.pairwise {c : Catalog} (hc : c.OwnFeeds) :
    c.entries.values.Pairwise fun d e => d.feed ≠ e.feed := by
  have hkeys : c.entries.pairs.Pairwise fun p q => p.1 ≠ q.1 := List.pairwise_map.1 c.entries.nodup
  -- two entries have two names, and a shared feed would make these one
  refine List.pairwise_map.2 (hkeys.imp_of_mem ?_)
  rintro ⟨n, d⟩ ⟨m, e⟩ hd he hne hfeed
  exact hne (hc.inj (Dict.mem_iff.1 hd) (Dict.mem_iff.1 he) hfeed)

/-- When the session ends, the consumer of a result set that is not over is told, once. -/
theorem OwnFeeds.feed_terminate {c : Catalog} (hc : c.OwnFeeds) {name : String} {e : Entry}
    (he : c.entries.get? name = some e) (hfinished : e.finished = false) (outage : Outage) :
    (c.terminate outage).feed e.feed = (c.feed e.feed).deliver (.cutOff outage) := by
  have hmem : e ∈ c.entries.values.filter fun e => !e.finished :=
    List.mem_filter.2 ⟨Dict.mem_values_iff.2 ⟨name, he⟩, by simp [hfinished]⟩
  exact feed_foldl_of_mem (·.deliver (.cutOff outage)) (hc.pairwise.filter _) hmem (hc.lt he)

/-! ## Names that are swallowed or kept -/

/-- Taking one name out of a list leaves the others in it. -/
private theorem mem_filter_ne {m name : String} (h : m ≠ name) (names : List String) :
    name ∈ names.filter (· ≠ m) ↔ name ∈ names := by
  rw [List.mem_filter, decide_eq_true_eq]
  exact and_iff_left h.symm

/-- A name is swallowed, or not, no matter what happens to other names. -/
theorem discarded_act (c : Catalog) {a : Action} {name : String} (h : ¬ c.Concerns a name) :
    name ∈ (c.act a).discarded ↔ name ∈ c.discarded := by
  cases a with
  | connect m =>
    obtain heq | heq | heq := c.connect_cases m
    · rw [heq]
    · rw [heq]
      exact mem_filter_ne h c.discarded
    · rw [heq]
      exact mem_filter_ne h c.discarded
  | disconnect m =>
    rw [act]
    obtain ⟨-, heq⟩ | ⟨e, -, ⟨i, -, heq⟩ | ⟨-, discarded, hothers, heq⟩⟩ := c.disconnect_cases m
    · rw [heq]
    · rw [heq]
      rfl
    · rw [heq]
      exact hothers name (Ne.symm h)
  | hello j m =>
    rw [act]
    obtain heq | heq := c.hello_cases j m
    · rw [heq]
      exact mem_filter_ne h c.discarded
    · rw [heq]
      show name ∈ (c.entry m).2.discarded ↔ _
      rw [entry_discarded]
  | piece j w bytes =>
    rw [act]
    obtain heq | ⟨m, e, partials, f, -, heq⟩ := c.piece_cases j w bytes
    · rw [heq]
    · rw [heq]
      rfl
  | bye j =>
    rw [act]
    obtain ⟨-, heq⟩ | ⟨m, e, f, -, ⟨-, heq⟩ | ⟨-, heq⟩⟩ := c.bye_cases j
    · rw [heq]
    · rw [heq]
      rfl
    · rw [heq]
      rfl
  | terminate o => exact absurd trivial h
  | take id => exact Iff.rfl
  | leave id => exact Iff.rfl

/-- The line of kept result sets after an action: one that a consumer fetches leaves it, and one
that ends unclaimed joins it, which may push out the oldest. -/
theorem unclaimed_cases (c : Catalog) (a : Action) :
    c.endsUnclaimed a = false ∧
      ((c.act a).unclaimed = c.unclaimed ∨
        (∃ m, a = .connect m ∧ (c.act a).unclaimed = c.unclaimed.filter (· ≠ m)) ∨
        (∃ o, a = .terminate o ∧ (c.act a).unclaimed = [])) ∨
    c.endsUnclaimed a = true ∧ ∃ j m e, a = .bye j ∧ c.streamed? j = some (m, e) ∧
      (c.act a).unclaimed = (c.unclaimed ++ [m]).drop (c.unclaimed.length + 1 - maxUnclaimed) := by
  cases a with
  | connect m =>
    refine .inl ⟨rfl, ?_⟩
    obtain heq | heq | heq := c.connect_cases m
    · exact .inl (by rw [heq])
    · refine .inl ?_
      rw [heq]
      exact c.entry_unclaimed m
    · exact .inr (.inl ⟨m, rfl, by rw [heq]⟩)
  | disconnect m =>
    refine .inl ⟨rfl, .inl ?_⟩
    rw [act]
    obtain ⟨-, heq⟩ | ⟨e, -, ⟨i, -, heq⟩ | ⟨-, discarded, -, heq⟩⟩ := c.disconnect_cases m
    · rw [heq]
    · rw [heq]
      rfl
    · rw [heq]
      rfl
  | hello j m =>
    refine .inl ⟨rfl, .inl ?_⟩
    rw [act]
    obtain heq | heq := c.hello_cases j m
    · rw [heq]
    · rw [heq]
      exact c.entry_unclaimed m
  | piece j w bytes =>
    refine .inl ⟨rfl, .inl ?_⟩
    rw [act]
    obtain heq | ⟨m, e, partials, f, -, heq⟩ := c.piece_cases j w bytes
    · rw [heq]
    · rw [heq]
      rfl
  | bye j =>
    rw [act]
    obtain ⟨hs, heq⟩ | ⟨m, e, f, hs, ⟨hclaimed, heq⟩ | ⟨hclaimed, heq⟩⟩ := c.bye_cases j
    · exact .inl ⟨by simp [endsUnclaimed, hs], .inl (by rw [heq])⟩
    · refine .inl ⟨by simp [endsUnclaimed, hs, hclaimed], .inl ?_⟩
      rw [heq]
      rfl
    · refine .inr ⟨by simp [endsUnclaimed, hs, hclaimed], j, m, e, rfl, hs, ?_⟩
      rw [heq, evict, List.length_append, List.length_singleton]
  | terminate o => exact .inl ⟨rfl, .inr (.inr ⟨o, rfl, rfl⟩)⟩
  | take id => exact .inl ⟨rfl, .inl rfl⟩
  | leave id => exact .inl ⟨rfl, .inl rfl⟩

/-- The line never gets too long: it is cut whenever a name joins it. -/
theorem unclaimed_le_act {c : Catalog} (h : c.unclaimed.length ≤ maxUnclaimed) (a : Action) :
    (c.act a).unclaimed.length ≤ maxUnclaimed := by
  obtain ⟨-, heq | ⟨m, -, heq⟩ | ⟨o, -, heq⟩⟩ | ⟨-, j, m, e, -, -, heq⟩ := c.unclaimed_cases a
  · rwa [heq]
  · rw [heq]
    exact Nat.le_trans (List.length_filter_le _ _) h
  · rw [heq]
    exact Nat.zero_le _
  · rw [heq, List.length_drop, List.length_append, List.length_singleton]
    omega

/-- A name that is not kept for a consumer is not, whatever happens to other names. -/
theorem unclaimed_act (c : Catalog) {a : Action} {name : String} (h : ¬ c.Concerns a name)
    (hname : name ∉ c.unclaimed) : name ∉ (c.act a).unclaimed := by
  obtain ⟨-, heq | ⟨m, -, heq⟩ | ⟨o, -, heq⟩⟩ | ⟨-, j, m, e, rfl, hs, heq⟩ := c.unclaimed_cases a
  · rwa [heq]
  · rw [heq]
    exact fun hmem => hname (List.mem_filter.1 hmem).1
  · rw [heq]
    exact List.not_mem_nil
  · -- the line only gets the name that ended, and loses its head
    rw [heq]
    intro hmem
    obtain hmem | hmem := List.mem_append.1 (List.mem_of_mem_drop hmem)
    · exact hname hmem
    · obtain rfl := List.mem_singleton.1 hmem
      exact h (streamed?_eq_some.1 hs).1

/-! ## The limit -/

/-- How many records a feed holds when it is full is settled when the session starts. -/
theorem limit_act (c : Catalog) (a : Action) : (c.act a).limit = c.limit := by
  cases a with
  | connect m =>
    obtain heq | heq | heq := c.connect_cases m
    · rw [heq]
    · rw [heq]
      exact c.entry_limit m
    · rw [heq]
      exact c.entry_limit m
  | disconnect m =>
    rw [act]
    obtain ⟨-, heq⟩ | ⟨e, -, ⟨i, -, heq⟩ | ⟨-, discarded, -, heq⟩⟩ := c.disconnect_cases m
    · rw [heq]
    · rw [heq]
      rfl
    · rw [heq]
      rfl
  | hello j m =>
    rw [act]
    obtain heq | heq := c.hello_cases j m
    · rw [heq]
    · rw [heq]
      exact c.entry_limit m
  | piece j w bytes =>
    rw [act]
    obtain heq | ⟨m, e, partials, f, -, heq⟩ := c.piece_cases j w bytes
    · rw [heq]
    · rw [heq]
      rfl
  | bye j =>
    rw [act]
    obtain ⟨-, heq⟩ | ⟨m, e, f, -, ⟨-, heq⟩ | ⟨-, heq⟩⟩ := c.bye_cases j
    · rw [heq]
    · rw [heq]
      rfl
    · rw [heq]
      rfl
  | terminate o =>
    have hfold (es : List Entry) (f : Feed → Feed) (c : Catalog) :
        (es.foldl (fun c e => c.modifyFeed e.feed f) c).limit = c.limit := by
      induction es generalizing c with
      | nil => rfl
      | cons e es ih => exact ih (c.modifyFeed e.feed f)
    exact hfold _ _ c
  | take id => rfl
  | leave id => rfl

theorem limit_run (c : Catalog) (as : List Action) : (c.run as).limit = c.limit := by
  induction as generalizing c with
  | nil => rfl
  | cons a as ih => exact (ih (c.act a)).trans (c.limit_act a)

/-! ## Feeds without an entry -/

/-- A feed that no result set adds to. -/
structure Unfed (c : Catalog) (id : FeedId) : Prop where
  lt : id < c.feeds.size
  ne : ∀ name e, c.entries.get? name = some e → e.feed ≠ id

/-- A feed without an entry never has one again: feeds are not reused. -/
theorem Unfed.act {c : Catalog} {id : FeedId} (h : c.Unfed id) (a : Action) :
    (c.act a).Unfed id := by
  obtain ⟨hle, horigin⟩ := c.act_origin a
  refine ⟨Nat.lt_of_lt_of_le h.lt hle, fun name e he => ?_⟩
  obtain ⟨old, hold, hfeed, -⟩ | ⟨⟨-, -, hfeed⟩, -⟩ := horigin name e he
  · rw [hfeed]
    exact h.ne name old hold
  · rw [hfeed]
    exact (Nat.ne_of_lt h.lt).symm

/-- A feed without an entry gets nothing. -/
theorem Unfed.feed_act {c : Catalog} {id : FeedId} (h : c.Unfed id) {a : Action}
    (htake : a ≠ .take id) (hleave : a ≠ .leave id) : (c.act a).feed id = c.feed id :=
  c.feed_act htake hleave fun name e he hfeed => absurd hfeed (h.ne name e he)

end QueryLink.Catalog
