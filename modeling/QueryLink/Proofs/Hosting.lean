import QueryLink.Proofs.FeedHistory
import QueryLink.Proofs.Schedule

/-!
# Consumers and their claims

A consumer is bound to the name it asked for until it leaves. What it has claimed under the name
nobody else can claim; and while the server keeps its order, a result set that is not over and has
a consumer is the one in its catalog entry, which nobody but that consumer takes away.

`Hosts` says so of a catalog and the cursors on it. It is what makes leaving by name safe: who
leaves takes out his own result set, or one that is over.

## Key results

- `news_cases`: what the server can do to an entry
- `Hosts.news`, `Hosts.read`, `Hosts.connect`, `Hosts.leave`: one lemma for each way in which
  catalog and cursors change
- `Hosts.forsaken`: what a consumer leaves behind
- `Moves.hosts`, `Moves.forsaken`: what no step at a cursor changes
-/

namespace QueryLink

namespace Catalog

/-- Whether an action is something the server says. -/
def Action.IsNews : Action → Prop
  | .hello _ _ => True
  | .piece _ _ _ => True
  | .bye _ => True
  | _ => False

variable {c c' : Catalog} {a : Action} {n m : String} {e : Entry} {id : FeedId}

/-- A finished result set that is forgotten for another one has no entry then. -/
theorem get?_of_evicted (h : n ∈ c.evicted a) : (c.act a).entries.get? n = none := by
  unfold evicted at h
  split at h
  · rename_i hends
    cases a with
    | bye j =>
      obtain ⟨⟨m, d⟩, hstreamed, hd⟩ := (Option.any_eq_true _ _).1 hends
      have hlen : c.unclaimed.length + 1 - maxUnclaimed ≤ c.unclaimed.length := by
        unfold maxUnclaimed
        omega
      have hunclaimed : d.claimed = false := by simpa using hd
      obtain ⟨hj, hget⟩ := streamed?_eq_some.1 hstreamed
      -- the one that ended is last in line
      rw [act, bye_unclaimed_eq hj hget hunclaimed, get?_evict, if_pos]
      rwa [List.length_append, List.length_singleton, List.take_append_of_le_length hlen]
    | _ => cases hends
  · cases h

/-- What the server says leaves the entry of a name as it is or edits it, makes it when it announces
the name, or takes it away: when the result set ends, or when it is over and one too many is. -/
theorem news_cases (ha : a.IsNews) (n : String) :
    (c.act a).entries.get? n = c.entries.get? n ∨
    (∃ e e', c.entries.get? n = some e ∧ (c.act a).entries.get? n = some e' ∧
      e'.feed = e.feed ∧ e'.claimed = e.claimed) ∨
    ((∃ i, a = .hello i n) ∧ c.entries.get? n = none) ∨
    ((c.act a).entries.get? n = none ∧
      ((∃ i, a = .bye i ∧ c.byIndex.get? i = some n) ∨ n ∈ c.unclaimed)) := by
  -- only the result sets an action concerns change, apart from those that are forgotten
  by_cases hevicted : n ∈ c.evicted a
  · refine .inr (.inr (.inr ⟨get?_of_evicted hevicted, .inr ?_⟩))
    by_contra hkept
    exact notMem_evicted hkept a hevicted
  · by_cases hconcerns : c.Concerns a n
    · cases a with
      | hello j m =>
        obtain rfl : m = n := hconcerns
        rw [act]
        obtain heq | heq := c.hello_cases j m
        · exact .inl (by rw [heq])
        · rw [heq]
          obtain ⟨hold, -⟩ | ⟨hnone, -, -⟩ := c.entry_origin m
          · have hget := c.get?_setEntry_entry m { (c.entry m).1 with index := some j } m
            exact .inr (.inl ⟨_, _, hold, hget.trans (if_pos rfl), rfl, rfl⟩)
          · exact .inr (.inr (.inl ⟨⟨j, rfl⟩, hnone⟩))
      | piece j w bytes =>
        rw [act]
        obtain heq | ⟨m, e, partials, f, hs, heq⟩ := c.piece_cases j w bytes
        · exact .inl (by rw [heq])
        · rw [heq]
          obtain ⟨hj, he⟩ := streamed?_eq_some.1 hs
          obtain rfl : n = m := Option.some.inj (hconcerns.symm.trans hj)
          exact .inr (.inl ⟨e, _, he, (Dict.get?_insert _ _ n _).trans (if_pos rfl), rfl, rfl⟩)
      | bye j =>
        rw [act]
        obtain ⟨-, heq⟩ | ⟨m, e, f, hs, hend⟩ := c.bye_cases j
        · exact .inl (by rw [heq])
        · obtain ⟨hj, he⟩ := streamed?_eq_some.1 hs
          obtain rfl : n = m := Option.some.inj (hconcerns.symm.trans hj)
          obtain ⟨-, heq⟩ | ⟨-, heq⟩ := hend
          · refine .inr (.inr (.inr ⟨?_, .inl ⟨j, rfl, hj⟩⟩))
            rw [heq]
            exact (Dict.get?_erase _ _ n).trans (if_pos rfl)
          · -- it is kept as one that is over, unless the line is so short that it is forgotten
            cases hget : (c.bye j).entries.get? n with
            | none => exact .inr (.inr (.inr ⟨rfl, .inl ⟨j, rfl, hj⟩⟩))
            | some e' =>
              refine .inr (.inl ⟨e, e', he, rfl, ?_⟩)
              rw [heq, get?_evict] at hget
              split at hget
              · cases hget
              · rw [setEntry_entries, Dict.get?_insert, if_pos rfl] at hget
                cases hget
                exact ⟨rfl, rfl⟩
      | _ => exact ha.elim
    · exact .inl (c.get?_act hconcerns hevicted)

/-- The server does not claim result sets. -/
theorem claimed_origin (ha : a.IsNews) (he : (c.act a).entries.get? n = some e) :
    (∃ old, c.entries.get? n = some old ∧ e.claimed = old.claimed) ∨
      (∃ i, a = .hello i n) ∧ c.entries.get? n = none := by
  obtain hsame | ⟨old, e', hold, he', -, hclaimed⟩ | hmade | ⟨hgone, -⟩ := c.news_cases ha n
  · exact .inl ⟨e, hsame ▸ he, rfl⟩
  · rw [he'] at he
    cases he
    exact .inl ⟨old, hold, hclaimed⟩
  · exact .inr hmade
  · rw [hgone] at he
    cases he

/-- A result set that was claimed stays with its feed until it ends. -/
theorem InOrder.claimed_act {ended : List String} (hc : c.InOrder ended) (ha : a.IsNews)
    (he : c.entries.get? n = some e) (hclaimed : e.claimed = true)
    (hbye : ∀ i, a = .bye i → c.byIndex.get? i ≠ some n) :
    ∃ e', (c.act a).entries.get? n = some e' ∧ e'.feed = e.feed := by
  obtain hsame | ⟨old, e', hold, he', hfeed, -⟩ | ⟨-, hnone⟩ | ⟨-, ⟨i, hi, hj⟩ | hkept⟩ :=
    c.news_cases ha n
  · exact ⟨e, hsame.trans he, rfl⟩
  · rw [hold] at he
    cases he
    exact ⟨e', he', hfeed⟩
  · rw [hnone] at he
    cases he
  · exact absurd hj (hbye i hi)
  · -- those in line are over, and nobody has claimed them
    obtain ⟨d, hd, hover⟩ := isFinished_iff.1 ((hc.shelved.mem_unclaimed n).1 hkept)
    have hunclaimed := (hc.shelved.bare n d hd hover).2.1
    rw [he] at hd
    cases hd
    exact Bool.noConfusion (hclaimed.symm.trans hunclaimed)

/-- A consumer that gets a feed is the first to claim it. -/
theorem unclaimed_of_connect (h : c.connect m = .ok (id, c')) :
    (c.entry m).1.claimed = false := by
  rw [← Bool.not_eq_true]
  intro hclaimed
  simp only [connect, hclaimed, if_true, reduceCtorEq] at h

end Catalog

open Catalog (Schedule)

namespace Cursor

variable {s : Schedule} {catalog catalog' : Catalog} {a : Catalog.Action} {c c' : Cursor}
  {n : String}

/-- Whether the consumer has asked for the result set of a name and not left. -/
def IsBoundTo (c : Cursor) (n : String) : Prop :=
  c.name = some n ∧ c.state ≠ .closed

/-- Reading binds nobody. -/
theorem Reads.isBoundTo {x x' : Exchange} (h : c.Reads x c' x') (hbound : c'.IsBoundTo n) :
    c.IsBoundTo n := by
  refine ⟨h.name ▸ hbound.1, fun hclosed => hbound.2 ?_⟩
  rw [h.isOver (.inr (.inl hclosed)), hclosed]

/-- What a consumer that is bound to a name has: what there is under the name is claimed, and it is
what the consumer reads, unless that is over. -/
structure Holds (c : Cursor) (n : String) (s : Schedule) (catalog : Catalog) : Prop where
  claimed : ∀ e, catalog.entries.get? n = some e → e.claimed = true
  held : ¬ s.IsOver n → ∃ e, catalog.entries.get? n = some e ∧ c.feed = some e.feed

theorem Holds.of_get? (h : c.Holds n s catalog)
    (hget : catalog'.entries.get? n = catalog.entries.get? n) (hfeed : c'.feed = c.feed) :
    c'.Holds n s catalog' where
  claimed e he := h.claimed e (hget ▸ he)
  held hover := by
    rw [hget, hfeed]
    exact h.held hover

/-- The server takes nothing away but by ending it. -/
theorem Holds.news (h : c.Holds n s catalog) (hc : catalog.Follows s) (hs : s.Proper)
    (ha : a.IsNews) (hadmits : s.Admits a) : c.Holds n (s.after a) (catalog.act a) where
  claimed e he := by
    obtain ⟨old, hold, hsame⟩ | ⟨⟨i, rfl⟩, hnone⟩ := Catalog.claimed_origin ha he
    · rw [hsame]
      exact h.claimed old hold
    · -- it was not announced before, so it was there for its consumer
      obtain ⟨d, hd, -⟩ := h.held fun hover => hadmits.2 hover.1
      rw [hnone] at hd
      cases hd
  held hover := by
    obtain ⟨e, he, hfeed⟩ := h.held fun hover' => hover (hover'.after hadmits)
    obtain ⟨ended, hbooks⟩ := hc.inOrder
    have hbye : ∀ i, a = .bye i → catalog.byIndex.get? i ≠ some n := by
      rintro i rfl hi
      exact hover (hs.isOver_bye (hc.mem_streams hi))
    obtain ⟨e', he', hsame⟩ := hbooks.claimed_act ha he (h.claimed e he) hbye
    exact ⟨e', he', by rw [hfeed, hsame]⟩

/-- What is in the catalog after a consumer left, its feed apart, depends on its name. -/
theorem registry_leave (c : Cursor) (catalog : Catalog) :
    (c.leave catalog).registry = (c.name.elim catalog catalog.disconnect).registry := by
  unfold leave
  cases c.feed <;> rfl

theorem get?_leave_eq (c : Cursor) (catalog : Catalog) (n : String) :
    (c.leave catalog).entries.get? n =
      if c.name = some n then none else catalog.entries.get? n := by
  have hentries : (c.leave catalog).entries = (c.name.elim catalog catalog.disconnect).entries :=
    congrArg Prod.fst (c.registry_leave catalog)
  rw [hentries]
  cases c.name with
  | none => rfl
  | some m =>
    rw [Option.elim_some, Catalog.disconnect_entries, Dict.get?_erase]
    simp only [Option.some.injEq, eq_comm]

end Cursor

/-- The catalog follows what the server has said, and each consumer has what it is bound to, alone
unless that is over. -/
structure Hosts (s : Schedule) (catalog : Catalog) (cursors : List Cursor) : Prop where
  follows : catalog.Follows s
  proper : s.Proper
  holds : ∀ {k : Nat} {c : Cursor} {n : String}, cursors[k]? = some c → c.IsBoundTo n →
    c.Holds n s catalog
  alone : ∀ {j k : Nat} {d c : Cursor} {n : String}, cursors[j]? = some d →
    cursors[k]? = some c → d.IsBoundTo n → c.IsBoundTo n → ¬ s.IsOver n → j = k

namespace Hosts

variable {s : Schedule} {catalog catalog' : Catalog} {cursors : List Cursor} {a : Catalog.Action}
  {c c' : Cursor} {k : Nat} {n : String}

theorem start (limit : Nat) : Hosts {} (.ofLimit limit) [] where
  follows := .ofLimit limit
  proper := Schedule.proper_empty
  holds := nofun
  alone := nofun

/-- What is at a place of a list of which one place was changed. -/
private theorem getElem?_set_cases {j : Nat} {d : Cursor}
    (h : (cursors.set k c')[j]? = some d) :
    j = k ∧ d = c' ∨ j ≠ k ∧ cursors[j]? = some d := by
  rw [List.getElem?_set] at h
  split at h
  · rename_i hk
    split at h
    · cases h
      exact .inl ⟨hk.symm, rfl⟩
    · cases h
  · rename_i hk
    exact .inr ⟨fun heq => hk heq.symm, h⟩

/-- A consumer that comes is not bound to anything. -/
theorem openCursor (h : Hosts s catalog cursors) :
    Hosts s catalog (cursors ++ [({} : Cursor)]) := by
  have hold {j : Nat} {d : Cursor} {n : String} (hd : (cursors ++ [({} : Cursor)])[j]? = some d)
      (hbound : d.IsBoundTo n) : cursors[j]? = some d := by
    by_cases hj : j < cursors.length
    · rwa [List.getElem?_append_left hj] at hd
    · rw [List.getElem?_append_right (Nat.le_of_not_lt hj)] at hd
      obtain rfl := List.mem_singleton.1 (List.mem_of_getElem? hd)
      cases hbound.1
  exact {
    follows := h.follows
    proper := h.proper
    holds := fun hc hbound => h.holds (hold hc hbound) hbound
    alone := fun hd hc hbound hbound' => h.alone (hold hd hbound) (hold hc hbound') hbound hbound' }

/-- The server says something. -/
theorem news (h : Hosts s catalog cursors) (ha : a.IsNews) (hadmits : s.Admits a) :
    Hosts (s.after a) (catalog.act a) cursors where
  follows := by
    refine h.follows.act h.proper hadmits ?_
    cases a with
    | hello j m => exact h.follows.allowed_hello h.proper hadmits
    | piece j w bytes => trivial
    | bye j => trivial
    | _ => exact ha.elim
  proper := h.proper.after hadmits
  holds hc hbound := (h.holds hc hbound).news h.follows h.proper ha hadmits
  alone hd hc hbound hbound' hover :=
    h.alone hd hc hbound hbound' fun hover' => hover (hover'.after hadmits)

/-- A consumer reads. -/
theorem read (h : Hosts s catalog cursors) (hc : cursors[k]? = some c)
    (hregistry : catalog'.registry = catalog.registry) (hfeed : c'.feed = c.feed)
    (hbound : ∀ {n}, c'.IsBoundTo n → c.IsBoundTo n) :
    Hosts s catalog' (cursors.set k c') := by
  have hget : ∀ n, catalog'.entries.get? n = catalog.entries.get? n := by
    have hentries : catalog'.entries = catalog.entries := congrArg Prod.fst hregistry
    exact fun n => by rw [hentries]
  -- whoever is bound somewhere was so before, if only in another state
  have hold {j : Nat} {d : Cursor} {n : String} (hd : (cursors.set k c')[j]? = some d)
      (hd' : d.IsBoundTo n) :
      ∃ old, cursors[j]? = some old ∧ old.IsBoundTo n ∧ d.feed = old.feed := by
    obtain ⟨rfl, rfl⟩ | ⟨-, hsame⟩ := getElem?_set_cases hd
    · exact ⟨c, hc, hbound hd', hfeed⟩
    · exact ⟨d, hsame, hd', rfl⟩
  refine ⟨h.follows.of_registry hregistry, h.proper, fun {j d n} hd hd' => ?_,
    fun {i j d e n} hd he hd' he' hover => ?_⟩
  · obtain ⟨old, hj, hj', hsame⟩ := hold hd hd'
    exact (h.holds hj hj').of_get? (hget n) hsame
  · obtain ⟨oldd, hi, hi', -⟩ := hold hd hd'
    obtain ⟨olde, hj, hj', -⟩ := hold he he'
    exact h.alone hi hj hi' hj' hover

/-- A consumer asks for a result set. -/
theorem connect (h : Hosts s catalog cursors) {m : String} {id : FeedId}
    (hconnect : catalog.connect m = .ok (id, catalog')) (hname : c'.name = some m)
    (hfeed : c'.feed = some id) : Hosts s catalog' (cursors.set k c') := by
  obtain ⟨rfl, -, rfl⟩ := Catalog.connect_ok hconnect
  have hclaimed := Catalog.unclaimed_of_connect hconnect
  have hspares : ∀ n, n ≠ m →
      (catalog.act (.connect m)).entries.get? n = catalog.entries.get? n := fun n hn =>
    catalog.get?_act (a := .connect m) (fun heq => hn heq.symm) List.not_mem_nil
  -- another consumer that is bound to the name would have claimed the result set
  have hover {j : Nat} {d : Cursor} (hd : cursors[j]? = some d) (hbound : d.IsBoundTo m) :
      s.IsOver m := by
    by_contra hover
    have hheld := h.holds hd hbound
    obtain ⟨e, he, -⟩ := hheld.held hover
    have hentry : (catalog.entry m).1 = e := by simp only [Catalog.entry, he]
    rw [hentry, hheld.claimed e he] at hclaimed
    cases hclaimed
  have hnew : c'.Holds m s (catalog.act (.connect m)) := by
    cases hfinished : (catalog.entry m).1.finished with
    | true =>
      -- a result set that was kept is over, and is fetched
      rw [catalog.entry_finished] at hfinished
      have hgone : (catalog.act (.connect m)).entries.get? m = none := by
        rw [Catalog.connect_fetches hclaimed ((catalog.entry_finished m).trans hfinished)]
        exact (catalog.get?_eraseEntry_entry m m).trans (if_pos rfl)
      refine ⟨fun e he => ?_, fun hnot => absurd (h.follows.isOver hfinished) hnot⟩
      rw [hgone] at he
      cases he
    | false =>
      have hget : (catalog.act (.connect m)).entries.get? m =
          some { (catalog.entry m).1 with claimed := true } := by
        rw [Catalog.connect_claims hclaimed hfinished]
        exact (catalog.get?_setEntry_entry m _ m).trans (if_pos rfl)
      refine ⟨fun e he => ?_, fun _ => ⟨_, hget, hfeed⟩⟩
      rw [hget] at he
      cases he
      rfl
  have hname' {n : String} (hbound : c'.IsBoundTo n) : n = m :=
    Option.some.inj (hbound.1.symm.trans hname)
  refine ⟨h.follows.act_consumer h.proper rfl trivial trivial, h.proper,
    fun {j d n} hd hbound => ?_, fun {i j d e n} hd he hbound hbound' hnot => ?_⟩
  · obtain ⟨rfl, rfl⟩ | ⟨-, hsame⟩ := getElem?_set_cases hd
    · obtain rfl := hname' hbound
      exact hnew
    · by_cases hn : n = m
      · subst hn
        exact ⟨hnew.claimed, fun hnot => absurd (hover hsame hbound) hnot⟩
      · exact (h.holds hsame hbound).of_get? (hspares n hn) rfl
  · obtain ⟨rfl, rfl⟩ | ⟨-, holdd⟩ := getElem?_set_cases hd
    · obtain ⟨rfl, -⟩ | ⟨-, holde⟩ := getElem?_set_cases he
      · rfl
      · obtain rfl := hname' hbound
        exact absurd (hover holde hbound') hnot
    · obtain ⟨-, rfl⟩ | ⟨-, holde⟩ := getElem?_set_cases he
      · obtain rfl := hname' hbound'
        exact absurd (hover holdd hbound) hnot
      · exact h.alone holdd holde hbound hbound' hnot

/-- A consumer takes out of the books what it has claimed, or nothing. -/
private theorem follows_leave (h : Hosts s catalog cursors) (hc : cursors[k]? = some c)
    (hstate : c.state ≠ .closed) : (c.leave catalog).Follows s := by
  refine Catalog.Follows.of_registry ?_ (c.registry_leave catalog)
  cases hname : c.name with
  | none => exact h.follows
  | some m =>
    have hallowed : catalog.Allowed (.disconnect m) := (h.holds hc ⟨hname, hstate⟩).claimed
    exact h.follows.act_consumer (a := .disconnect m) h.proper rfl trivial hallowed

/-- A consumer leaves. -/
theorem leave (h : Hosts s catalog cursors) (hc : cursors[k]? = some c)
    (hstate : c.state ≠ .closed) (hclosed : c'.state = .closed) :
    Hosts s (c.leave catalog) (cursors.set k c') := by
  -- whoever is still bound is another one
  have hold {j : Nat} {d : Cursor} {n : String} (hd : (cursors.set k c')[j]? = some d)
      (hbound : d.IsBoundTo n) : j ≠ k ∧ cursors[j]? = some d := by
    obtain ⟨-, rfl⟩ | hother := getElem?_set_cases hd
    · exact absurd hclosed hbound.2
    · exact hother
  refine ⟨h.follows_leave hc hstate, h.proper, fun {j d n} hd hbound => ?_,
    fun {i j d e n} hd he hbound hbound' hnot => ?_⟩
  · -- what goes is the entry of the name, which no other consumer of it has but when it is over
    obtain ⟨hne, hsame⟩ := hold hd hbound
    have hget := c.get?_leave_eq catalog n
    by_cases hname : c.name = some n
    · rw [if_pos hname] at hget
      refine ⟨fun e he => ?_, fun hnot => ?_⟩
      · rw [hget] at he
        cases he
      · exact absurd (h.alone hsame hc hbound ⟨hname, hstate⟩ hnot) hne
    · rw [if_neg hname] at hget
      exact (h.holds hsame hbound).of_get? hget rfl
  · exact h.alone (hold hd hbound).2 (hold he hbound').2 hbound hbound' hnot

/-- A consumer that leaves before the end forsakes its result set. -/
theorem forsaken (h : Hosts s catalog cursors) (hc : cursors[k]? = some c)
    (hbound : c.IsBoundTo n) (hover : ¬ s.IsOver n) :
    (c.leave catalog).Forsaken n s := by
  obtain ⟨e, he, -⟩ := (h.holds hc hbound).held hover
  have hregistry := c.registry_leave catalog
  rw [hbound.1, Option.elim_some] at hregistry
  exact (h.follows.forsaken h.proper he hover).of_registry hregistry

end Hosts

namespace Cursor.Moves

variable {s : Schedule} {cursors : List Cursor} {x x' : Exchange} {c c' : Cursor} {k : Nat}
  {n : String} {step : Script.CursorStep}

/-- Whatever a consumer does with its cursor, each has what it is bound to. -/
theorem hosts (h : c.Moves x step c' x') (hc : cursors[k]? = some c)
    (hx : Hosts s x.catalog cursors) : Hosts s x'.catalog (cursors.set k c') := by
  cases h with
  | reads hstep hreads =>
    obtain ⟨catalog, parked, roused, hread, rfl⟩ := hreads.exchange
    exact hx.read hc hread.registry hreads.feed hreads.isBoundTo
  | connects hopen hconnect => exact hx.connect hconnect rfl rfl
  | stays hstate => exact hx.read hc rfl rfl id
  | leaves hstate => exact hx.leave hc hstate rfl

/-- A forsaken result set stays so unless a consumer asks for it. -/
theorem forsaken (h : c.Moves x step c' x') (hx : x.catalog.Follows s)
    (hforsaken : x.catalog.Forsaken n s) (hstep : step ≠ .connect n) :
    x'.catalog.Forsaken n s := by
  cases h with
  | reads hstep hreads =>
    obtain ⟨catalog, parked, roused, hread, rfl⟩ := hreads.exchange
    exact hforsaken.of_registry hread.registry
  | connects hopen hconnect =>
    rename_i m feed catalog
    have hact : catalog = x.catalog.act (.connect m) := by rw [Catalog.act, hconnect]
    have hne : Catalog.Action.connect m ≠ .connect n := by simpa using hstep
    rw [hact]
    exact hforsaken.act (a := .connect m) hx trivial hne (by simp)
  | stays hstate => exact hforsaken
  | leaves hstate =>
    refine Catalog.Forsaken.of_registry ?_ (c.registry_leave x.catalog)
    cases c.name with
    | none => exact hforsaken
    | some m => exact hforsaken.act (a := .disconnect m) hx trivial (by simp) (by simp)

end Cursor.Moves

end QueryLink
