import QueryLink.Dict

/-!
# Dictionary lemmas

Facts about `Dict` beyond the `get?` view of its operations: when removing a key leaves the
dictionary as it is, and what `values` and `contains` say about `get?`.

## Key results

- `erase_eq_self_iff`: only the removal of an absent key changes nothing
- `mem_values_iff`: the values are the answers of `get?`
-/

namespace QueryLink.Dict

variable {κ α : Type} [DecidableEq κ]

/-- A key without a value occurs in no pair. -/
theorem notMem_of_get?_none {d : Dict κ α} {k : κ} (h : d.get? k = none) {p : κ × α}
    (hp : p ∈ d.pairs) : p.1 ≠ k := by
  intro hk
  have hmem : (k, p.2) ∈ d.pairs := hk ▸ hp
  rw [mem_iff, h] at hmem
  cases hmem

/-- Removing a key that has no value changes nothing. -/
theorem erase_of_get?_none {d : Dict κ α} {k : κ} (h : d.get? k = none) : d.erase k = d := by
  obtain ⟨pairs, nodup⟩ := d
  simp only [erase, mk.injEq, List.filter_eq_self]
  intro p hp
  exact decide_eq_true (notMem_of_get?_none h hp)

/-- Removing a key changes nothing exactly when it has no value. -/
theorem erase_eq_self_iff {d : Dict κ α} {k : κ} : d.erase k = d ↔ d.get? k = none := by
  constructor
  · intro h
    have herased := get?_erase d k k
    rwa [h, if_pos rfl] at herased
  · exact erase_of_get?_none

/-- The values are those that some key has. -/
theorem mem_values_iff {d : Dict κ α} {a : α} : a ∈ d.values ↔ ∃ k, d.get? k = some a := by
  simp only [values, List.mem_map]
  constructor
  · rintro ⟨⟨k, b⟩, hp, rfl⟩
    exact ⟨k, mem_iff.1 hp⟩
  · rintro ⟨k, hk⟩
    exact ⟨(k, a), mem_iff.2 hk, rfl⟩

end QueryLink.Dict
