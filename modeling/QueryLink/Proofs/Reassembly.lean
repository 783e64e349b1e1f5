import QueryLink.Proofs.ResultSetLife

/-!
# Result sets are reassembled

The consumer of a result set is told what the frames of its index amount to, in order and once,
whatever other result sets and consumers there are, and whenever it comes: before the
announcement, in the middle of the stream or after its end.

## Key results

- `Awaited.run`: what a run does to a result set that nobody has asked for
- `Followed.run`: what a consumer gets from then on
- `connect_run_assemble`: together they are the assembly of the result set
-/

namespace QueryLink.Catalog

variable {name : String} {id : FeedId} {past : List Feed.Event} {opened : List UInt16}
  {announced : List String} {s : Assembly} {e : Entry} {c : Catalog} {a : Action}

/-! ## After the consumer came -/

/-- A consumer has been given the feed: its result set is not over, or it is and all is said. -/
def Followed (name : String) (id : FeedId) (past : List Feed.Event) (announced : List String)
    (s : Assembly) (c : Catalog) : Prop :=
  (∃ e, e.feed = id ∧ e.claimed = true ∧ Live name id past announced s e c) ∨ Ended id past s c

/-- What an action does to a result set that has a consumer. -/
theorem Live.act_claimed (h : Live name id past announced s e c) (hc : c.Ordered opened)
    (ha : a.Admitted opened announced) (hid : e.feed = id) (hclaimed : e.claimed = true)
    (htake : a ≠ .take id) (hleave : a ≠ .leave id) (hdisconnect : a ≠ .disconnect name) :
    Followed name id past (a.announces announced) (s.step name a) (c.act a) := by
  by_cases hother : c.Concerns a name
  · cases a with
    | connect m =>
      obtain rfl : m = name := hother
      -- a second consumer is refused
      have hrefused : c.act (.connect m) = c := by
        simp [act, connect, Catalog.entry, h.entry, hclaimed]
      rw [hrefused]
      exact .inl ⟨e, hid, hclaimed, h⟩
    | disconnect m => exact absurd (congrArg _ hother) hdisconnect
    | hello i m =>
      obtain rfl : m = name := hother
      exact .inl ⟨{ e with index := some i }, hid, hclaimed, h.hello ha⟩
    | piece i w bytes =>
      obtain ⟨d, hfeed, hd, hlive⟩ := h.piece hc hother w bytes
      exact .inl ⟨d, hfeed.trans hid, hd.trans hclaimed, hlive⟩
    | bye i => exact .inr (h.bye_claimed hc hid hclaimed hother)
    | terminate o => exact .inr (h.terminate hc hid o)
    | take _ => exact hother.elim
    | leave _ => exact hother.elim
  · exact .inl ⟨e, hid, hclaimed, h.act_of_not_concerns hc ha htake hleave hother⟩

/-- What the consumer takes, and what it may still take, are the events of the assembly. -/
theorem Followed.act (h : Followed name id past announced s c) (hc : c.Ordered opened)
    (ha : a.Admitted opened announced) (hleave : a ≠ .leave id)
    (hdisconnect : a ≠ .disconnect name) :
    Followed name id (past ++ got id c a) (a.announces announced) (s.step name a) (c.act a) := by
  by_cases htake : a = .take id
  · subst htake
    rw [got, if_pos rfl]
    have hfeed : id < c.feeds.size → (c.act (.take id)).feed id = (c.feed id).take.2 :=
      fun hlt => feed_modifyFeed_self c hlt _
    -- what is taken moves from the queue to the past
    obtain ⟨e, hid, hclaimed, h⟩ | h := h
    · refine .inl ⟨e, hid, hclaimed,
        h.edit ⟨h.ended, rfl⟩ h.entry ⟨h.finished, rfl⟩ ⟨rfl, rfl, rfl⟩ fun _ => ?_⟩
      rw [hfeed (hid ▸ hc.feed_lt h.entry)]
      exact (h.holds hid).take
    · refine .inr ⟨h.ended, h.index, h.unfed.act _, ?_⟩
      rw [hfeed h.unfed.lt, List.append_assoc, take_append]
      exact h.events
  · rw [got, if_neg htake, List.append_nil]
    obtain ⟨e, hid, hclaimed, h⟩ | h := h
    · exact h.act_claimed hc ha hid hclaimed htake hleave hdisconnect
    · exact .inr (h.act htake hleave)

/-- What a consumer gets in a run, from the time it came. -/
theorem Followed.run {as : List Action} (h : Followed name id past announced s c)
    (hc : c.Ordered opened) (has : Orderly opened announced as) (hleave : .leave id ∉ as)
    (hdisconnect : .disconnect name ∉ as) :
    past ++ taken id c as ++ ((c.run as).feed id).queue =
      (as.foldl (Assembly.step name) s).events := by
  induction as generalizing past opened announced s c with
  | nil =>
    rw [taken, List.append_nil]
    obtain ⟨e, hid, -, h⟩ | h := h
    · exact (h.holds hid).events
    · exact h.events
  | cons a as ih =>
    obtain ⟨ha, has⟩ := has
    rw [List.mem_cons, not_or] at hleave hdisconnect
    have hstep := h.act hc ha (Ne.symm hleave.1) (Ne.symm hdisconnect.1)
    have hrun := ih hstep (hc.act ha) has hleave.2 hdisconnect.2
    -- what was taken first comes first
    rwa [taken, ← List.append_assoc]

/-! ## Before the consumer comes -/

/-- Nothing is known of a result set. -/
structure Absent (name : String) (c : Catalog) : Prop where
  entry : c.entries.get? name = none
  byIndex : ∀ i, c.byIndex.get? i ≠ some name
  discarded : name ∉ c.discarded
  unclaimed : name ∉ c.unclaimed

/-- What happens to others leaves it unknown. -/
theorem Absent.act_of_not_concerns (h : Absent name c) (hc : c.Ordered opened)
    (ha : a.Admitted opened announced) (hother : ¬ c.Concerns a name) : Absent name (c.act a) where
  entry := by rw [c.get?_act hother (notMem_evicted h.unclaimed a), h.entry]
  byIndex := fun i hi => h.byIndex i ((hc.byIndex_act ha hother i).1 hi)
  discarded := fun hmem => h.discarded ((c.discarded_act hother).1 hmem)
  unclaimed := c.unclaimed_act hother h.unclaimed

/-- The entry that is made for it has an empty feed, as the assembly has nothing. -/
theorem Absent.entry_live (h : Absent name c) (id : FeedId) (announced : List String) :
    (c.entry name).1.claimed = false ∧
      Live name id [] announced {} (c.entry name).1 (c.entry name).2 := by
  have hentry : c.entry name = ({ feed := c.feeds.size }, (c.entry name).2) := by
    simp [Catalog.entry, h.entry]
  rw [hentry]
  refine ⟨rfl, ?_⟩
  exact {
    ended := rfl
    entry := by rw [get?_entry, hentry]
    finished := rfl
    entry_index := rfl
    byIndex := by
      intro i
      rw [entry_byIndex]
      exact iff_of_false (h.byIndex i) (by simp)
    announced := fun hindex => absurd rfl hindex
    discarded := by rw [entry_discarded]; exact h.discarded
    unclaimed := by rw [entry_unclaimed]; exact h.unclaimed
    holds := by
      rintro rfl
      have hnew : c.feed c.feeds.size = {} := by simp [feed]
      rw [feed_entry, hnew]
      refine ⟨rfl, rfl, fun w => rfl⟩ }

/-- To look an entry up again changes nothing. -/
theorem entry_entry (c : Catalog) (name : String) :
    (c.entry name).2.entry name = c.entry name := by
  have h := get?_entry c name
  rw [entry, h]

/-- So a consumer may come to an entry that was just made. -/
theorem connect_entry (c : Catalog) (name : String) :
    (c.entry name).2.connect name = c.connect name := by
  simp only [connect, entry_entry]

/-- So may an announcement, if it is not swallowed. -/
theorem hello_entry {c : Catalog} {name : String} (h : name ∉ c.discarded) (i : UInt16) :
    (c.entry name).2.hello i name = c.hello i name := by
  simp only [hello, entry_discarded, h, entry_entry, if_false]

/-- Nobody has asked for the result set: it is unknown, or not over, or kept with at most `k` that
finished after it. -/
def Awaited (name : String) (id : FeedId) (announced : List String) (k : Nat) (s : Assembly)
    (c : Catalog) : Prop :=
  (s = {} ∧ Absent name c) ∨ (∃ e, e.claimed = false ∧ Live name id [] announced s e c) ∨
    ∃ e, Kept name id announced k s e c

/-- How many other result sets finish unclaimed after the one of a name did. -/
def rivals (name : String) : Catalog → Assembly → List Action → Nat
  | _, _, [] => 0
  | c, s, a :: as =>
    (s.ended && c.endsUnclaimed a).toNat + rivals name (c.act a) (s.step name a) as

/-- What may happen while nobody has asked for a result set. -/
def Unasked (name : String) (id : FeedId) (a : Action) : Prop :=
  a ≠ .connect name ∧ a ≠ .disconnect name ∧ (∀ outage, a ≠ .terminate outage) ∧
    a ≠ .take id ∧ a ≠ .leave id

/-- What an action does to a result set that is not over and that nobody has asked for. -/
theorem Live.act_unclaimed (h : Live name id [] announced s e c) (hc : c.Ordered opened)
    (ha : a.Admitted opened announced) (hclaimed : e.claimed = false) (hidle : Unasked name id a) :
    Awaited name id (a.announces announced) 0 (s.step name a) (c.act a) := by
  obtain ⟨hconnect, hdisconnect, hterminate, htake, hleave⟩ := hidle
  by_cases hother : c.Concerns a name
  · cases a with
    | connect m => exact absurd (congrArg _ hother) hconnect
    | disconnect m => exact absurd (congrArg _ hother) hdisconnect
    | hello i m =>
      obtain rfl : m = name := hother
      exact .inr (.inl ⟨{ e with index := some i }, hclaimed, h.hello ha⟩)
    | piece i w bytes =>
      obtain ⟨d, -, hd, hlive⟩ := h.piece hc hother w bytes
      exact .inr (.inl ⟨d, hd.trans hclaimed, hlive⟩)
    | bye i =>
      obtain ⟨d, -, hkept⟩ := h.bye_unclaimed hc hclaimed hother
      exact .inr (.inr ⟨d, hkept⟩)
    | terminate o => exact absurd rfl (hterminate o)
    | take _ => exact hother.elim
    | leave _ => exact hother.elim
  · exact .inr (.inl ⟨e, hclaimed, h.act_of_not_concerns hc ha htake hleave hother⟩)

/-- What an action does to a result set that is not known. -/
theorem Absent.act_unclaimed (h : Absent name c) (hc : c.Ordered opened)
    (ha : a.Admitted opened announced) (hidle : Unasked name id a) :
    Awaited name id (a.announces announced) 0 (Assembly.step name {} a) (c.act a) := by
  by_cases hother : c.Concerns a name
  · cases a with
    | connect m => exact absurd (congrArg _ hother) hidle.1
    | disconnect m => exact absurd (congrArg _ hother) hidle.2.1
    | hello i m =>
      obtain rfl : m = name := hother
      -- an announcement makes the entry and then announces it
      obtain ⟨hclaimed, hlive⟩ := h.entry_live id announced
      have hhello := hlive.hello ha
      have hact : (c.entry m).2.act (.hello i m) = c.act (.hello i m) := hello_entry h.discarded i
      rw [hact] at hhello
      exact .inr (.inl ⟨{ (c.entry m).1 with index := some i }, hclaimed, hhello⟩)
    | piece i w bytes => exact absurd hother (h.byIndex i)
    | bye i => exact absurd hother (h.byIndex i)
    | terminate o => exact absurd rfl (hidle.2.2.1 o)
    | take _ => exact hother.elim
    | leave _ => exact hother.elim
  · have hstep : Assembly.step name {} a = {} :=
      Assembly.step_of_not_concerns (fun i => iff_of_false (h.byIndex i) (by simp)) hother
    exact .inl ⟨hstep, h.act_of_not_concerns hc ha hother⟩

/-- More may be allowed to come behind it. -/
theorem Kept.mono {k l : Nat} (h : Kept name id announced k s e c) (hle : k ≤ l) :
    Kept name id announced l s e c := by
  obtain ⟨older, newer, heq, hold, hlen⟩ := h.behind
  exact { h with behind := ⟨older, newer, heq, hold, Nat.le_trans hlen hle⟩ }

theorem Awaited.mono {k l : Nat} (h : Awaited name id announced k s c) (hle : k ≤ l) :
    Awaited name id announced l s c := by
  obtain h | h | ⟨e, h⟩ := h
  · exact .inl h
  · exact .inr (.inl h)
  · exact .inr (.inr ⟨e, h.mono hle⟩)

/-- A result set waits for its consumer as long as it has not too many rivals. -/
theorem Awaited.act {k : Nat} (h : Awaited name id announced k s c) (hc : c.Ordered opened)
    (ha : a.Admitted opened announced) (hidle : Unasked name id a)
    (hk : k + (s.ended && c.endsUnclaimed a).toNat < maxUnclaimed) :
    Awaited name id (a.announces announced) (k + (s.ended && c.endsUnclaimed a).toNat)
      (s.step name a) (c.act a) := by
  obtain ⟨rfl, h⟩ | ⟨e, hclaimed, h⟩ | ⟨e, h⟩ := h
  · exact (h.act_unclaimed hc ha hidle).mono (Nat.zero_le _)
  · exact (h.act_unclaimed hc ha hclaimed hidle).mono (Nat.zero_le _)
  · rw [h.ended, Bool.true_and] at hk ⊢
    obtain ⟨hconnect, hdisconnect, hterminate, htake, hleave⟩ := hidle
    exact .inr (.inr ⟨e, h.act hc ha htake hleave hconnect hdisconnect hterminate hk⟩)

/-- A result set waits for its consumer through a run. -/
theorem Awaited.run {k : Nat} {as bs : List Action} (h : Awaited name id announced k s c)
    (hc : c.Ordered opened) (has : Orderly opened announced (as ++ bs))
    (hidle : ∀ a ∈ as, Unasked name id a) (hk : k + rivals name c s as < maxUnclaimed) :
    ∃ opened' announced', (c.run as).Ordered opened' ∧ Orderly opened' announced' bs ∧
      ∃ l, Awaited name id announced' l (as.foldl (Assembly.step name) s) (c.run as) := by
  induction as generalizing opened announced k s c with
  | nil => exact ⟨opened, announced, hc, has, k, h⟩
  | cons a as ih =>
    obtain ⟨ha, has⟩ := has
    rw [List.forall_mem_cons] at hidle
    rw [rivals] at hk
    have hstep := h.act hc ha hidle.1 (by omega)
    exact ih hstep (hc.act ha) has hidle.2 (by omega)

/-! ## The consumer comes -/

/-- The consumer comes before the end. -/
theorem Live.connect (h : Live name id [] announced s e c) (hclaimed : e.claimed = false) :
    ∃ c', c.connect name = .ok (e.feed, c') ∧
      (e.feed = id → Followed name id [] announced s c') := by
  have hconnect : c.connect name = .ok (e.feed, { c.setEntry name { e with claimed := true } with
      discarded := c.discarded.filter (· ≠ name) }) := by
    simp [Catalog.connect, Catalog.entry, h.entry, hclaimed, h.finished, setEntry]
  -- claiming the entry is the only change
  refine ⟨_, hconnect, fun hid => .inl ⟨{ e with claimed := true }, hid, rfl, ?_⟩⟩
  exact {
    ended := h.ended
    entry := by simp [setEntry, Dict.get?_insert]
    finished := h.finished
    entry_index := h.entry_index
    byIndex := h.byIndex
    announced := h.announced
    discarded := fun hmem => h.discarded (List.mem_filter.1 hmem).1
    unclaimed := h.unclaimed
    holds := fun _ => ⟨(h.holds hid).isOpen, (h.holds hid).events, (h.holds hid).buffered⟩ }

/-- The consumer comes after the end: the feed is its own, the entry goes. -/
theorem Kept.connect {k : Nat} (h : Kept name id announced k s e c) (hc : c.Ordered opened) :
    ∃ c', c.connect name = .ok (e.feed, c') ∧
      (e.feed = id → Followed name id [] announced s c') := by
  have hconnect : c.connect name = .ok (e.feed, { c.eraseEntry name with
      unclaimed := c.unclaimed.filter (· ≠ name)
      discarded := c.discarded.filter (· ≠ name) }) := by
    simp [Catalog.connect, Catalog.entry, h.entry, h.claimed, h.finished, eraseEntry]
  refine ⟨_, hconnect, fun hid =>
    .inr ⟨h.ended, h.index, ⟨hid ▸ hc.feed_lt h.entry, ?_⟩, h.events hid⟩⟩
  -- nothing is added to the feed any more: its entry is gone
  intro n d hd hfeed
  simp only [eraseEntry_entries, Dict.get?_erase] at hd
  split at hd
  · cases hd
  · rename_i hne
    exact hne (hc.feed_inj hd h.entry (hfeed.trans hid.symm))

/-- The consumer comes, whenever it is. -/
theorem Awaited.connect {k : Nat} (h : Awaited name id announced k s c) (hc : c.Ordered opened) :
    ∃ feed c', c.connect name = .ok (feed, c') ∧
      (feed = id → Followed name id [] announced s c') := by
  obtain ⟨rfl, h⟩ | ⟨e, hclaimed, h⟩ | ⟨e, h⟩ := h
  · -- to connect makes the entry first, so it is as if it had been there
    obtain ⟨hclaimed, hlive⟩ := h.entry_live id announced
    rw [← connect_entry]
    exact ⟨_, hlive.connect hclaimed⟩
  · exact ⟨_, h.connect hclaimed⟩
  · exact ⟨_, h.connect hc⟩

/-- There are feeds that nobody has anything to do with. -/
private theorem exists_untouched (as : List Action) :
    ∃ bound : Nat, ∀ id : Nat, bound ≤ id → ∀ a ∈ as, a ≠ .take id ∧ a ≠ .leave id := by
  induction as with
  | nil => exact ⟨0, fun id _ => List.forall_mem_nil _⟩
  | cons a as ih =>
    obtain ⟨bound, hbound⟩ := ih
    have hone : ∃ own : Nat, ∀ id : Nat, own ≤ id → a ≠ .take id ∧ a ≠ .leave id := by
      cases a with
      | take own =>
        refine ⟨Nat.succ own, fun id hid => ⟨fun h => ?_, by simp⟩⟩
        cases h
        exact Nat.lt_irrefl _ hid
      | leave own =>
        refine ⟨Nat.succ own, fun id hid => ⟨by simp, fun h => ?_⟩⟩
        cases h
        exact Nat.lt_irrefl _ hid
      | _ => exact ⟨0, fun _ _ => ⟨by simp, by simp⟩⟩
    obtain ⟨own, hown⟩ := hone
    refine ⟨max own bound, fun id hid => List.forall_mem_cons.2 ⟨?_, ?_⟩⟩
    · exact hown id (by omega)
    · exact hbound id (by omega)

/-- A result set is reassembled for its consumer, whenever that comes. Let the server keep to its
order, let nobody else have asked for the result set and the session not have ended when the
consumer comes, and let fewer than `maxUnclaimed` others have finished unclaimed since it ended,
if it did. Then the consumer is given a feed; and if it stays, what it has taken and what it can
still take is, event by event, what the frames of the result set's own index amount to. -/
theorem connect_run_assemble (limit : Nat) (name : String) (before after : List Action)
    (horder : Orderly [] [] (before ++ .connect name :: after))
    (halone : ∀ a ∈ before,
      a ≠ .connect name ∧ a ≠ .disconnect name ∧ ∀ outage, a ≠ .terminate outage)
    (hstays : .disconnect name ∉ after)
    (hrivals : rivals name (ofLimit limit) {} before < maxUnclaimed) :
    ∃ feed c, ((ofLimit limit).run before).connect name = .ok (feed, c) ∧
      ((∀ a ∈ before, a ≠ .take feed ∧ a ≠ .leave feed) → .leave feed ∉ after →
        taken feed c after ++ ((c.run after).feed feed).queue =
          (assemble name (before ++ after)).events) := by
  -- nothing is known at first
  have habsent : Absent name (ofLimit limit) :=
    ⟨rfl, by simp [ofLimit], List.not_mem_nil, List.not_mem_nil⟩
  have hbefore : ∀ id, (∀ a ∈ before, a ≠ .take id ∧ a ≠ .leave id) →
      ∃ opened announced, ((ofLimit limit).run before).Ordered opened ∧
        Orderly opened announced (.connect name :: after) ∧
        ∃ k, Awaited name id announced k (assemble name before) ((ofLimit limit).run before) := by
    intro id hid
    have hstart : Awaited name id [] 0 {} (ofLimit limit) := .inl ⟨rfl, habsent⟩
    refine hstart.run (ordered_ofLimit limit) horder (fun a ha => ?_) (by omega)
    obtain ⟨hconnect, hdisconnect, hterminate⟩ := halone a ha
    exact ⟨hconnect, hdisconnect, hterminate, hid a ha⟩
  -- that the consumer gets a feed does not depend on which; take an id nobody touches
  have hconnect : ∃ feed c, ((ofLimit limit).run before).connect name = .ok (feed, c) := by
    obtain ⟨id, hid⟩ := exists_untouched before
    obtain ⟨opened, announced, hc, -, k, hawaited⟩ := hbefore id (hid id (Nat.le_refl _))
    obtain ⟨feed, c, hconnect, -⟩ := hawaited.connect hc
    exact ⟨feed, c, hconnect⟩
  obtain ⟨feed, c, hconnect⟩ := hconnect
  refine ⟨feed, c, hconnect, fun huntouched hleave => ?_⟩
  -- now for the feed it got
  obtain ⟨opened, announced, hc, horder', k, hawaited⟩ := hbefore feed huntouched
  obtain ⟨feed', c', hconnect', hfollowed⟩ := hawaited.connect hc
  obtain ⟨rfl, rfl⟩ : feed = feed' ∧ c = c' := by
    rw [hconnect, Except.ok.injEq, Prod.mk.injEq] at hconnect'
    exact hconnect'
  have hact : ((ofLimit limit).run before).act (.connect name) = c := by
    simp only [act, hconnect]
  have hcc : c.Ordered opened := hact ▸ hc.act horder'.1
  have hrun := (hfollowed rfl).run hcc horder'.2 hleave hstays
  rwa [List.nil_append, ← assemble_append] at hrun

/-- `connect_run_assemble` with two result sets, three writers and a consumer that comes in the
middle of the stream. -/
theorem connect_run_assemble_interleaved :
    ∃ feed c, ((ofLimit 2).run [.hello 1 "rs", .piece 1 9 [1], .hello 2 "other", .piece 1 4 [2],
        .piece 2 9 [3], .piece 1 9 [], .bye 2]).connect "rs" = .ok (feed, c) ∧
      taken feed c [.piece 1 0 [4], .take 0, .piece 1 0 [5], .bye 1] ++
          ((c.run [.piece 1 0 [4], .take 0, .piece 1 0 [5], .bye 1]).feed feed).queue =
        [.record [1], .record [4, 5], .record [2], .endOfRecords] := by
  obtain ⟨feed, c, hconnect, hevents⟩ := connect_run_assemble 2 "rs"
    [.hello 1 "rs", .piece 1 9 [1], .hello 2 "other", .piece 1 4 [2], .piece 2 9 [3],
      .piece 1 9 [], .bye 2]
    [.piece 1 0 [4], .take 0, .piece 1 0 [5], .bye 1]
    (by simp [Orderly, Action.Admitted, Action.opens, Action.announces]) (by simp) (by simp)
    (by decide)
  refine ⟨feed, c, hconnect, ?_⟩
  rw [hevents (by simp) (by simp)]
  decide

end QueryLink.Catalog
