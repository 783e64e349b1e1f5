import QueryLink.Proofs.DictLemmas
import QueryLink.ResultSet.Cursor

/-!
# What closing a cursor does to the catalog

A cursor leaves its result set by name. While the result set is streamed the name leads to its
own entry; once the result set has ended the entry is gone, and the name may by then stand for a
later result set.

## Key results

- `disconnect_registry_eq_iff`: leaving by name changes nothing exactly when the name has no entry
- `disconnect_of_entry`: else that one entry goes, with the index it is streamed under
- `close_ended_registry`: so closing a cursor whose result set ended spares the catalog exactly
  when nothing was announced or asked for under its name since; else the entry that goes is
  another result set's
-/

namespace QueryLink

namespace Catalog

/-- What a catalog knows about result sets, their feeds apart: the entries, the indices in use,
the names to be swallowed and the finished result sets nobody asked for. -/
def registry (c : Catalog) : Dict String Entry × Dict UInt16 String × List String × List String :=
  (c.entries, c.byIndex, c.discarded, c.unclaimed)

/-- Feeds are not part of the books. -/
@[simp] theorem registry_modifyFeed (c : Catalog) (id : FeedId) (f : Feed → Feed) :
    (c.modifyFeed id f).registry = c.registry := rfl

/-- A name without an entry is left without a trace. -/
theorem disconnect_of_absent {c : Catalog} {name : String} (h : c.entries.get? name = none) :
    c.disconnect name = c := by
  simp only [disconnect, h]

/-- Whatever happens besides, the entry of the name is gone. -/
theorem disconnect_entries (c : Catalog) (name : String) :
    (c.disconnect name).entries = c.entries.erase name := by
  cases he : c.entries.get? name with
  | none => rw [disconnect_of_absent he, Dict.erase_of_get?_none he]
  | some e =>
    simp only [disconnect, he, eraseEntry]
    -- a result set that has not started may leave a name to be swallowed
    split
    · rfl
    · split <;> rfl

/-- Leaving by name changes nothing exactly when the name has no entry. -/
theorem disconnect_registry_eq_iff (c : Catalog) (name : String) :
    (c.disconnect name).registry = c.registry ↔ c.entries.get? name = none := by
  constructor
  · intro h
    have hentries : (c.disconnect name).entries = c.entries := congrArg Prod.fst h
    rw [disconnect_entries] at hentries
    exact Dict.erase_eq_self_iff.1 hentries
  · intro h
    rw [disconnect_of_absent h]

/-- What leaving does to the books does not depend on the feeds. -/
theorem disconnect_modifyFeed (c : Catalog) (id : FeedId) (f : Feed → Feed) (name : String) :
    (c.modifyFeed id f).disconnect name = (c.disconnect name).modifyFeed id f := by
  have hget : (c.modifyFeed id f).entries.get? name = c.entries.get? name := rfl
  simp only [disconnect, hget]
  split
  · rfl
  · split
    · rfl
    · split <;> rfl

/-- With the entry goes the index it is streamed under; other names and other indices stay, and
so do the finished result sets nobody asked for. -/
theorem disconnect_of_entry {c : Catalog} {name : String} {e : Entry}
    (he : c.entries.get? name = some e) :
    (∀ other, (c.disconnect name).entries.get? other =
      if other = name then none else c.entries.get? other) ∧
    (∀ index, (c.disconnect name).byIndex.get? index =
      if e.index = some index then none else c.byIndex.get? index) ∧
    (c.disconnect name).unclaimed = c.unclaimed := by
  refine ⟨fun other => ?_, fun index => ?_, ?_⟩
  · rw [disconnect_entries, Dict.get?_erase]
  · simp only [disconnect, he, eraseEntry]
    cases hindex : e.index with
    | none => simp only [reduceCtorEq, if_false]; split <;> rfl
    | some own => simp only [Dict.get?_erase, Option.some.injEq, eq_comm]
  · simp only [disconnect, he, eraseEntry]
    split
    · rfl
    · split <;> rfl

/-- A feed that no result set adds to is not the feed of an entry. -/
theorem feed_ne_of_isFed_eq_false {c : Catalog} {id : FeedId} (h : c.isFed id = false)
    {name : String} {e : Entry} (he : c.entries.get? name = some e) : e.feed ≠ id := by
  intro hfeed
  have hany : c.isFed id = true :=
    List.any_eq_true.2 ⟨e, Dict.mem_values_iff.2 ⟨name, he⟩, by simp [hfeed]⟩
  rw [h] at hany
  cases hany

end Catalog

namespace Cursor

/-- A cursor that is closed already does nothing when it is closed. -/
theorem close_of_closed {c : Cursor} (h : c.state = .closed) (x : Exchange) :
    c.close x = (c, x) := by
  simp only [close, h]

/-- A cursor that has a name leaves the result set of that name. -/
theorem close_registry_of_named {c : Cursor} (hstate : c.state ≠ .closed) {name : String}
    (hname : c.name = some name) (x : Exchange) :
    (c.close x).2.catalog.registry = (x.catalog.disconnect name).registry := by
  have hwake : ∀ y : Exchange, y.wakeReader.catalog = y.catalog := by
    intro y
    simp only [Exchange.wakeReader]
    split <;> rfl
  unfold close
  split
  · exact absurd ‹c.state = .closed› hstate
  · simp only [hname, hwake]
    -- closing the feed as well does not touch the books
    cases c.feed with
    | none => rfl
    | some feed => rw [Catalog.disconnect_modifyFeed, Catalog.registry_modifyFeed]

/-- Closing the cursor of a result set that ended leaves the catalog as it was exactly when the
cursor is closed already or its name has no entry. If there is one it belongs to another result
set, announced or asked for under the same name since, and that one loses its entry and its
index; all others stay. -/
theorem close_ended_registry (c : Cursor) (x : Exchange) {name : String}
    (hname : c.name = some name)
    (hended : ∀ feed, c.feed = some feed → x.catalog.isFed feed = false) :
    ((c.close x).2.catalog.registry = x.catalog.registry ↔
      c.state = .closed ∨ x.catalog.entries.get? name = none) ∧
    (c.state ≠ .closed → ∀ e, x.catalog.entries.get? name = some e →
      c.feed ≠ some e.feed ∧
      (∀ other, (c.close x).2.catalog.entries.get? other =
        if other = name then none else x.catalog.entries.get? other) ∧
      (∀ index, (c.close x).2.catalog.byIndex.get? index =
        if e.index = some index then none else x.catalog.byIndex.get? index) ∧
      (c.close x).2.catalog.unclaimed = x.catalog.unclaimed) := by
  refine ⟨?_, fun hstate e he => ?_⟩
  · by_cases hstate : c.state = .closed
    · rw [close_of_closed hstate]
      exact iff_of_true rfl (Or.inl hstate)
    · rw [close_registry_of_named hstate hname, Catalog.disconnect_registry_eq_iff]
      simp only [hstate, false_or]
  · -- the cursor leaves by its name, so the books are those after leaving
    have hbooks := close_registry_of_named hstate hname x
    simp only [Catalog.registry, Prod.mk.injEq] at hbooks
    obtain ⟨hentries, hindex, -, hunclaimed⟩ := hbooks
    rw [hentries, hindex, hunclaimed]
    -- the cursor is not fed any more, but each entry feeds its own feed
    refine ⟨fun hfeed => ?_, Catalog.disconnect_of_entry he⟩
    exact Catalog.feed_ne_of_isFed_eq_false (hended e.feed hfeed) he rfl

/-- The exchange after a reply was routed; a reply that makes no sense changes nothing. -/
def afterReply (x : Exchange) (r : Reply) : Exchange :=
  match x.route r with
  | .ok (_, x) => x
  | .error _ => x

/-- A cursor whose result set ended before the server announced another one by its name, and the
exchange at that point. -/
def outlived : Cursor × Exchange :=
  let connected := ({} : Cursor).connect (.ofSettings ({} : Environment).settings) "rs"
  let hello (index : UInt16) : Reply := .plain .resultSetHello index (Utf8.encode "rs")
  (connected.2.1,
    [hello 1, .plain .resultSetBye 1 [], hello 2].foldl afterReply connected.2.2)

/-- `close_ended_registry` at a cursor that is outlived by its name: the entry it finds there has
another feed. -/
theorem close_ended_registry_outlived :
    outlived.1.name = some "rs" ∧
    (∀ feed, outlived.1.feed = some feed → outlived.2.catalog.isFed feed = false) ∧
    ((outlived.1.close outlived.2).2.catalog.registry = outlived.2.catalog.registry ↔
      outlived.1.state = .closed ∨ outlived.2.catalog.entries.get? "rs" = none) := by
  have hended : ∀ feed, outlived.1.feed = some feed → outlived.2.catalog.isFed feed = false := by
    intro feed hfeed
    have hzero : outlived.1.feed = some 0 := by decide
    rw [hzero, Option.some.injEq] at hfeed
    subst hfeed
    decide
  exact ⟨by decide, hended, (close_ended_registry outlived.1 outlived.2 (by decide) hended).1⟩

/-- Closing the outlived cursor takes the later result set out of the catalog. -/
theorem close_outlived_registry_ne :
    (∀ feed ∈ outlived.1.feed, outlived.2.catalog.isFed feed = false) ∧
    (outlived.1.close outlived.2).2.catalog.registry ≠ outlived.2.catalog.registry := by
  refine ⟨by decide, fun h => ?_⟩
  have hentry := congrArg (fun books => (books.1.get? "rs").isSome) h
  revert hentry
  decide

end Cursor

end QueryLink
