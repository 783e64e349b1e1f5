import QueryLink.Proofs.Assembly

/-!
# The life of a result set

A result set is `Absent` until it is asked for or announced, then `Live`; when the server ends it,
it is `Kept` for a consumer to come or, if it has one, `Ended`. Each state says what the catalog
holds and how its feed relates to the assembly of the frames, and each action leads from one state
to another. Everything an action does not concern is settled once, by the frame lemmas of a
catalog.

## Key results

- `Live.act_of_not_concerns`, `Live.hello`, `Live.piece`: a result set that is not over
- `Live.bye_claimed`, `Live.bye_unclaimed`, `Live.terminate`: the ways it can end
- `Kept.act`: a finished one stays while fewer than `maxUnclaimed` others finish unclaimed
- `Ended.act`: nothing is added after the end
-/

namespace QueryLink.Catalog

variable {name : String} {id : FeedId} {past : List Feed.Event} {opened : List UInt16}
  {announced : List String} {s : Assembly} {e : Entry} {c : Catalog} {a : Action}

/-! ## Not over yet -/

/-- The result set is not over. -/
structure Live (name : String) (id : FeedId) (past : List Feed.Event) (announced : List String)
    (s : Assembly) (e : Entry) (c : Catalog) : Prop where
  ended : s.ended = false
  entry : c.entries.get? name = some e
  finished : e.finished = false
  entry_index : e.index = s.index
  byIndex : ∀ i, c.byIndex.get? i = some name ↔ s.index = some i
  announced : s.index ≠ none → name ∈ announced
  discarded : name ∉ c.discarded
  unclaimed : name ∉ c.unclaimed
  holds : e.feed = id → Holds past s e (c.feed id)

/-- A name that was announced stays so. -/
theorem mem_announces {announced : List String} {name : String} (h : name ∈ announced)
    (a : Action) : name ∈ a.announces announced := by
  cases a <;> simp [Action.announces, h]

/-- The assembly of a result set only looks at the actions that concern it. -/
theorem Assembly.step_of_not_concerns {name : String} {s : Assembly} {c : Catalog}
    (hindex : ∀ i, c.byIndex.get? i = some name ↔ s.index = some i) {a : Action}
    (h : ¬ c.Concerns a name) : s.step name a = s := by
  cases a with
  | hello i m => exact if_neg fun hand => h hand.1
  | piece i w bytes => exact if_pos fun hi => h ((hindex i).2 hi)
  | bye i => exact if_pos fun hi => h ((hindex i).2 hi)
  | terminate o => exact absurd trivial h
  | _ => rfl

/-- Only finished result sets are forgotten. -/
theorem notMem_evicted {name : String} {c : Catalog} (h : name ∉ c.unclaimed) (a : Action) :
    name ∉ c.evicted a := by
  unfold evicted
  split
  · exact fun hmem => h (List.mem_of_mem_take hmem)
  · exact List.not_mem_nil

/-- What happens to others leaves it as it is. -/
theorem Live.act_of_not_concerns (h : Live name id past announced s e c) (hc : c.Ordered opened)
    (ha : a.Admitted opened announced) (htake : a ≠ .take id) (hleave : a ≠ .leave id)
    (hother : ¬ c.Concerns a name) :
    Live name id past (a.announces announced) (s.step name a) e (c.act a) := by
  rw [Assembly.step_of_not_concerns h.byIndex hother]
  exact {
    ended := h.ended
    entry := by rw [c.get?_act hother (notMem_evicted h.unclaimed a), h.entry]
    finished := h.finished
    entry_index := h.entry_index
    byIndex := fun i => (hc.byIndex_act ha hother i).trans (h.byIndex i)
    announced := fun hi => mem_announces (h.announced hi) a
    discarded := fun hmem => h.discarded ((c.discarded_act hother).1 hmem)
    unclaimed := c.unclaimed_act hother h.unclaimed
    holds := by
      intro hid
      rw [c.feed_act htake hleave]
      · exact h.holds hid
      · intro n d hd hfeed
        -- the feed has one owner, and that is the result set itself
        rw [hc.feed_inj hd h.entry (hfeed.trans hid.symm)]
        exact hother }

/-- It is announced. The index is free, so no other result set loses its own. -/
theorem Live.hello (h : Live name id past announced s e c) {i : UInt16}
    (ha : (Action.hello i name).Admitted opened announced) :
    Live name id past (name :: announced) (s.step name (.hello i name))
      { e with index := some i } (c.act (.hello i name)) := by
  -- a name is announced once, so there was no index before
  have hnew : s.index = none := by
    cases hi : s.index with
    | none => rfl
    | some j => exact absurd (h.announced (by simp [hi])) ha.2
  have hact : c.act (.hello i name) =
      { c.setEntry name { e with index := some i } with byIndex := c.byIndex.insert i name } := by
    simp only [Catalog.act, Catalog.hello, if_neg h.discarded, Catalog.entry, h.entry]
  have hstep : s.step name (.hello i name) = { s with index := some i } :=
    if_pos ⟨rfl, by simp [h.ended]⟩
  rw [hact, hstep]
  exact {
    ended := h.ended
    entry := by simp [Dict.get?_insert]
    finished := h.finished
    entry_index := rfl
    byIndex := by
      intro j
      have hold := h.byIndex j
      rw [hnew] at hold
      simp only [Dict.get?_insert]
      by_cases hj : j = i
      · simp [hj]
      · simp [hj, hold, Ne.symm hj]
    announced := fun _ => List.mem_cons_self
    discarded := h.discarded
    unclaimed := h.unclaimed
    holds := fun hid => ⟨(h.holds hid).isOpen, (h.holds hid).events, (h.holds hid).buffered⟩ }

/-- An edit of its entry and its feed only needs to keep the two together. -/
theorem Live.edit (h : Live name id past announced s e c) {past' : List Feed.Event}
    {s' : Assembly} {d : Entry} {c' : Catalog}
    (hs : s'.ended = false ∧ s'.index = s.index) (hentry : c'.entries.get? name = some d)
    (hd : d.finished = false ∧ d.index = e.index)
    (hc : c'.byIndex = c.byIndex ∧ c'.discarded = c.discarded ∧ c'.unclaimed = c.unclaimed)
    (hholds : d.feed = id → Holds past' s' d (c'.feed id)) :
    Live name id past' announced s' d c' where
  ended := hs.1
  entry := hentry
  finished := hd.1
  entry_index := by rw [hd.2, hs.2, h.entry_index]
  byIndex := by rw [hc.1, hs.2]; exact h.byIndex
  announced := by rw [hs.2]; exact h.announced
  discarded := by rw [hc.2.1]; exact h.discarded
  unclaimed := by rw [hc.2.2]; exact h.unclaimed
  holds := hholds

/-- It gets a piece. -/
theorem Live.piece (h : Live name id past announced s e c) (hc : c.Ordered opened) {i : UInt16}
    (hi : c.byIndex.get? i = some name) (w : UInt8) (bytes : Bytes) :
    ∃ d, d.feed = e.feed ∧ d.claimed = e.claimed ∧
      Live name id past announced (s.step name (.piece i w bytes)) d
        (c.act (.piece i w bytes)) := by
  have hindex := (h.byIndex i).1 hi
  have hstreamed : c.streamed? i = some (name, e) := streamed?_eq_some.2 ⟨hi, h.entry⟩
  have hs : (s.step name (.piece i w bytes)).ended = false ∧
      (s.step name (.piece i w bytes)).index = s.index := by
    simp only [Assembly.step]
    split
    · exact ⟨h.ended, rfl⟩
    · split
      · exact ⟨h.ended, rfl⟩
      · split
        · exact ⟨h.ended, rfl⟩
        · exact ⟨h.ended, rfl⟩
  have hstep := fun hid => @Holds.piece name past s e _ (h.holds hid) i hindex w bytes
  simp only [Catalog.act, Catalog.piece, hstreamed]
  split
  · -- nobody listens: then it is not the feed in question
    rename_i hclosed
    refine ⟨e, rfl, rfl, h.edit hs h.entry ⟨h.finished, rfl⟩ ⟨rfl, rfl, rfl⟩ fun hid => ?_⟩
    rw [hid, (h.holds hid).isOpen] at hclosed
    cases hclosed
  · split
    · rename_i hb
      split
      · -- an empty piece of a writer without a record ends nothing
        rename_i hnone
        refine ⟨e, rfl, rfl, h.edit hs h.entry ⟨h.finished, rfl⟩ ⟨rfl, rfl, rfl⟩ fun hid => ?_⟩
        have hw := (h.holds hid).buffered.getD w
        rw [hnone] at hw
        exact (hstep hid).1 hb hw.symm
      · rename_i record hrecord
        -- an empty piece ends the record of its writer
        refine ⟨{ e with partials := e.partials.erase w }, rfl, rfl,
          h.edit hs ?_ ⟨h.finished, rfl⟩ ⟨rfl, rfl, rfl⟩ fun hid => ?_⟩
        · simp [Dict.get?_insert]
        · have hid' : e.feed = id := hid
          have hbuffered := (h.holds hid').buffered w
          rw [hrecord] at hbuffered
          have hw : s.buffers w ≠ [] ∧ record = s.buffers w := by
            split at hbuffered
            · cases hbuffered
            · rename_i hw
              exact ⟨hw, Option.some.inj hbuffered⟩
          have hlt : id < c.feeds.size := hid' ▸ hc.feed_lt h.entry
          have hfeed : ((c.setEntry name { e with partials := e.partials.erase w }).modifyFeed
              e.feed (·.deliver (.record record))).feed id =
              (c.feed id).deliver (.record (s.buffers w)) := by
            rw [hid', hw.2]
            exact feed_modifyFeed_self (c.setEntry name _) hlt _
          rw [hfeed]
          exact (hstep hid').2.1 hb hw.1
    · rename_i hb
      -- any other piece is added to it
      refine ⟨{ e with partials := e.partials.insert w ((e.partials.get? w).getD [] ++ bytes) },
        rfl, rfl, h.edit hs ?_ ⟨h.finished, rfl⟩ ⟨rfl, rfl, rfl⟩ fun hid => ?_⟩
      · simp [Dict.get?_insert]
      · have hid' : e.feed = id := hid
        rw [(h.holds hid').buffered.getD w]
        exact (hstep hid').2.2 hb

/-! ## Over -/

/-- The feed of a result set that is over, and what it says. -/
structure Ended (id : FeedId) (past : List Feed.Event) (s : Assembly) (c : Catalog) : Prop where
  ended : s.ended = true
  index : s.index = none
  unfed : c.Unfed id
  events : past ++ (c.feed id).queue = s.events

/-- Nothing is added after the end. -/
theorem Ended.act (h : Ended id past s c) (htake : a ≠ .take id) (hleave : a ≠ .leave id) :
    Ended id past (s.step name a) (c.act a) := by
  have hstep : s.step name a = s := by
    cases a <;> simp [Assembly.step, h.ended, h.index]
  rw [hstep]
  refine ⟨h.ended, h.index, h.unfed.act a, ?_⟩
  rw [h.unfed.feed_act htake hleave, h.events]

/-- A finished result set that is kept, with at most `k` kept after it. -/
def Behind (name : String) (k : Nat) (unclaimed : List String) : Prop :=
  ∃ older newer, unclaimed = older ++ name :: newer ∧ name ∉ older ∧ newer.length ≤ k

/-- A name that is claimed leaves the line; it was before or after. -/
theorem Behind.filter {name : String} {k : Nat} {l : List String} (h : Behind name k l)
    {m : String} (hne : m ≠ name) : Behind name k (l.filter (· ≠ m)) := by
  obtain ⟨older, newer, rfl, hold, hlen⟩ := h
  refine ⟨older.filter (· ≠ m), newer.filter (· ≠ m), ?_, ?_, ?_⟩
  · simp [Ne.symm hne]
  · exact fun hmem => hold (List.mem_filter.1 hmem).1
  · exact Nat.le_trans (List.length_filter_le _ _) hlen

/-- One more comes to the end of the line, and the head of it goes if the line is too long. -/
theorem Behind.push {name : String} {k : Nat} {l : List String} (h : Behind name k l)
    (hl : l.length ≤ maxUnclaimed) (hk : k + 1 < maxUnclaimed) (m : String) :
    name ∉ l.take (l.length + 1 - maxUnclaimed) ∧
      Behind name (k + 1) ((l ++ [m]).drop (l.length + 1 - maxUnclaimed)) := by
  obtain ⟨older, newer, rfl, hold, hlen⟩ := h
  simp only [List.length_append, List.length_cons] at hl
  -- what is cut off stood before the kept one
  have hexcess : (older ++ name :: newer).length + 1 - maxUnclaimed ≤ older.length := by
    simp only [List.length_append, List.length_cons]
    omega
  constructor
  · rw [List.take_append_of_le_length hexcess]
    exact fun hmem => hold (List.mem_of_mem_take hmem)
  · refine ⟨older.drop ((older ++ name :: newer).length + 1 - maxUnclaimed), newer ++ [m],
      ?_, ?_, ?_⟩
    · rw [List.append_assoc, List.drop_append_of_le_length hexcess, List.cons_append]
    · exact fun hmem => hold (List.mem_of_mem_drop hmem)
    · simpa using hlen

/-- Other result sets that finish meanwhile come after the kept one; it stays as long as there are
not too many of them. -/
theorem Behind.act {name : String} {k : Nat} {c : Catalog} (h : Behind name k c.unclaimed)
    (hc : c.unclaimed.length ≤ maxUnclaimed) {a : Action} (hother : ¬ c.Concerns a name)
    (hk : k + (c.endsUnclaimed a).toNat < maxUnclaimed) :
    name ∉ c.evicted a ∧ Behind name (k + (c.endsUnclaimed a).toNat) (c.act a).unclaimed := by
  obtain ⟨hends, heq⟩ | ⟨hends, j, m, e, -, -, heq⟩ := c.unclaimed_cases a
  · have hevicted : name ∉ c.evicted a := by simp [evicted, hends]
    refine ⟨hevicted, ?_⟩
    rw [hends, Bool.toNat_false, Nat.add_zero]
    obtain heq | ⟨m, rfl, heq⟩ | ⟨o, rfl, -⟩ := heq
    · rwa [heq]
    · -- a consumer that takes another name out of the line does not lengthen it
      rw [heq]
      exact h.filter hother
    · exact absurd trivial hother
  · -- only an end makes the line longer, by the name that ended
    rw [hends, Bool.toNat_true] at hk
    rw [evicted, if_pos hends, hends, Bool.toNat_true, heq]
    exact h.push hc hk m

/-- The result set is over and waits for its consumer, at most `k` others behind it. -/
structure Kept (name : String) (id : FeedId) (announced : List String) (k : Nat) (s : Assembly)
    (e : Entry) (c : Catalog) : Prop where
  ended : s.ended = true
  index : s.index = none
  entry : c.entries.get? name = some e
  finished : e.finished = true
  claimed : e.claimed = false
  byIndex : ∀ i, c.byIndex.get? i ≠ some name
  announced : name ∈ announced
  behind : Behind name k c.unclaimed
  events : e.feed = id → (c.feed id).queue = s.events

/-- It stays as long as there are fewer than `maxUnclaimed` behind it. -/
theorem Kept.act {k : Nat} (h : Kept name id announced k s e c) (hc : c.Ordered opened)
    (ha : a.Admitted opened announced) (htake : a ≠ .take id) (hleave : a ≠ .leave id)
    (hconnect : a ≠ .connect name) (hdisconnect : a ≠ .disconnect name)
    (hterminate : ∀ o, a ≠ .terminate o)
    (hk : k + (c.endsUnclaimed a).toNat < maxUnclaimed) :
    Kept name id (a.announces announced) (k + (c.endsUnclaimed a).toNat) (s.step name a) e
      (c.act a) := by
  have hother : ¬ c.Concerns a name := by
    cases a with
    | connect m => exact fun hm => hconnect (congrArg _ hm)
    | disconnect m => exact fun hm => hdisconnect (congrArg _ hm)
    | hello i m => exact fun hm => ha.2 (hm ▸ h.announced)
    | piece i w bytes => exact h.byIndex i
    | bye i => exact h.byIndex i
    | terminate o => exact absurd rfl (hterminate o)
    | take _ => exact fun hfalse => hfalse
    | leave _ => exact fun hfalse => hfalse
  -- the assembly of a result set that is over does not change
  have hstep : s.step name a = s := by
    cases a <;> simp [Assembly.step, h.ended, h.index]
  obtain ⟨hkept, hbehind⟩ := h.behind.act hc.unclaimed_le hother hk
  rw [hstep]
  exact {
    ended := h.ended
    index := h.index
    entry := by rw [c.get?_act hother hkept, h.entry]
    finished := h.finished
    claimed := h.claimed
    byIndex := fun i hi => h.byIndex i ((hc.byIndex_act ha hother i).1 hi)
    announced := mem_announces h.announced a
    behind := hbehind
    events := by
      intro hid
      rw [c.feed_act htake hleave]
      · exact h.events hid
      · intro n d hd hfeed
        rw [hc.feed_inj hd h.entry (hfeed.trans hid.symm)]
        exact hother }

/-! ## How it ends -/

/-- The end of a result set that has a consumer: its entry goes. -/
theorem bye_claimed_eq {i : UInt16} (hi : c.byIndex.get? i = some name)
    (he : c.entries.get? name = some e) (hclaimed : e.claimed = true) :
    c.bye i = ({ c with byIndex := c.byIndex.erase i }.modifyFeed e.feed
      fun f => e.closing.foldl Feed.deliver f).eraseEntry name := by
  simp only [bye, hi, he, hclaimed, if_true]
  rfl

/-- The end of a result set nobody has asked for: it is kept. -/
theorem bye_unclaimed_eq {i : UInt16} (hi : c.byIndex.get? i = some name)
    (he : c.entries.get? name = some e) (hclaimed : e.claimed = false) :
    c.bye i = evict { ({ c with byIndex := c.byIndex.erase i }.modifyFeed e.feed
        fun f => e.closing.foldl Feed.deliver f).setEntry name
          { e with index := none, partials := .empty, finished := true } with
        unclaimed := c.unclaimed ++ [name] } := by
  simp only [bye, hi, he]
  rw [if_neg (by simp [hclaimed])]
  rfl

/-- The end, by the frames alone. -/
theorem Assembly.step_bye {i : UInt16} (hi : s.index = some i) :
    s.step name (.bye i) = { s with
      index := none
      ended := true
      events := s.events ++ (s.leftovers.map .record ++ [.endOfRecords]) } :=
  if_neg fun hne => hne hi

/-- The server ends a result set that has a consumer. -/
theorem Live.bye_claimed (h : Live name id past announced s e c) (hc : c.Ordered opened)
    (hid : e.feed = id) (hclaimed : e.claimed = true) {i : UInt16}
    (hi : c.byIndex.get? i = some name) :
    Ended id past (s.step name (.bye i)) (c.act (.bye i)) := by
  have hlt : id < c.feeds.size := hid ▸ hc.feed_lt h.entry
  have hact : c.act (.bye i) = _ := bye_claimed_eq hi h.entry hclaimed
  rw [Assembly.step_bye ((h.byIndex i).1 hi), hact]
  refine ⟨rfl, rfl, ⟨?_, ?_⟩, (h.holds hid).closing hid hlt rfl⟩
  · simpa [eraseEntry] using hlt
  · intro n d hd hfeed
    rw [eraseEntry_entries, modifyFeed_entries, Dict.get?_erase] at hd
    split at hd
    · cases hd
    · -- the entry that is gone was the only one with this feed
      rename_i hne
      exact hne (hc.feed_inj hd h.entry (hfeed.trans hid.symm))

/-- The server ends a result set nobody has asked for. -/
theorem Live.bye_unclaimed (h : Live name id [] announced s e c) (hc : c.Ordered opened)
    (hclaimed : e.claimed = false) {i : UInt16} (hi : c.byIndex.get? i = some name) :
    ∃ d, d.feed = e.feed ∧ Kept name id announced 0 (s.step name (.bye i)) d (c.act (.bye i)) := by
  have hindex := (h.byIndex i).1 hi
  have hact : c.act (.bye i) = _ := bye_unclaimed_eq hi h.entry hclaimed
  have hlen := hc.unclaimed_le
  have hexcess : c.unclaimed.length + 1 - maxUnclaimed ≤ c.unclaimed.length := by
    unfold maxUnclaimed
    omega
  rw [Assembly.step_bye hindex, hact]
  refine ⟨{ e with index := none, partials := .empty, finished := true }, rfl, ?_⟩
  exact {
    ended := rfl
    index := rfl
    entry := by
      rw [get?_evict, if_neg]
      · simp [Dict.get?_insert]
      · simpa [List.take_append_of_le_length hexcess] using
          fun hmem => h.unclaimed (List.mem_of_mem_take hmem)
    finished := rfl
    claimed := hclaimed
    byIndex := by
      intro j hj
      have hold := h.byIndex j
      change (c.byIndex.erase i).get? j = some name at hj
      rw [Dict.get?_erase] at hj
      split at hj
      · cases hj
      · rename_i hne
        rw [hold, hindex, Option.some.injEq] at hj
        exact hne hj.symm
    announced := h.announced (by simp [hindex])
    behind := by
      refine ⟨c.unclaimed.drop (c.unclaimed.length + 1 - maxUnclaimed), [], ?_, ?_, Nat.le_refl _⟩
      · simp [evict, List.drop_append_of_le_length hexcess]
      · exact fun hmem => h.unclaimed (List.mem_of_mem_drop hmem)
    events := fun (hid : e.feed = id) =>
      (h.holds hid).closing hid (hid ▸ hc.feed_lt h.entry) rfl }

/-- The session ends first. No two entries share a feed, so the consumer is told once. -/
theorem Live.terminate (h : Live name id past announced s e c) (hc : c.Ordered opened)
    (hid : e.feed = id) (outage : Outage) :
    Ended id past (s.step name (.terminate outage)) (c.act (.terminate outage)) := by
  have hlt : e.feed < c.feeds.size := hc.feed_lt h.entry
  have hholds := h.holds hid
  -- the entry is one of those that are told
  have hfeed : (c.act (.terminate outage)).feed id = (c.feed id).deliver (.cutOff outage) := by
    rw [← hid]
    exact hc.ownFeeds.feed_terminate h.entry h.finished outage
  have hstep : s.step name (.terminate outage) =
      { s with index := none, ended := true, events := s.events ++ [.cutOff outage] } :=
    if_neg (by simp [h.ended])
  rw [hstep]
  refine ⟨rfl, rfl, ⟨?_, by simp [Catalog.act, Catalog.terminate]⟩, ?_⟩
  · rw [← hid]
    exact Nat.lt_of_lt_of_le hlt (c.act_origin _).1
  · rw [hfeed]
    simp [Feed.deliver, hholds.isOpen, ← hholds.events]

end QueryLink.Catalog
