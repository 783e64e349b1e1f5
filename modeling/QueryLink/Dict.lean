/-! # Dictionaries

A dictionary is a list of pairs in which no key occurs twice. It is read through `get?`, and the
lemmas say what each operation does to that view:

* `get?_insert`, `get?_erase`   writing and removing a key
* `mem_iff`                     the pairs of the list are the answers of `get?` -/

namespace QueryLink

/-- A finite map, its pairs in no particular order. -/
structure Dict (κ α : Type) where
  pairs : List (κ × α)
  nodup : (pairs.map Prod.fst).Nodup

namespace Dict

variable {κ α : Type} [DecidableEq κ]

/-- The dictionary without keys. -/
def empty : Dict κ α := ⟨[], List.nodup_nil⟩

instance : Inhabited (Dict κ α) := ⟨empty⟩

/-- The value of a key. -/
def get? (d : Dict κ α) (k : κ) : Option α :=
  (d.pairs.find? fun p => p.1 = k).map Prod.snd

/-- Whether a key has a value. -/
def contains (d : Dict κ α) (k : κ) : Bool :=
  (d.get? k).isSome

/-- The dictionary without a key. -/
def erase (d : Dict κ α) (k : κ) : Dict κ α :=
  ⟨d.pairs.filter fun p => p.1 ≠ k, d.nodup.sublist (List.filter_sublist.map _)⟩

/-- The dictionary with a value for a key, in place of the one it had. -/
def insert (d : Dict κ α) (k : κ) (a : α) : Dict κ α :=
  ⟨(k, a) :: (d.erase k).pairs, by
    refine List.nodup_cons.2 ⟨?_, (d.erase k).nodup⟩
    simp [erase]⟩

/-- The keys that have a value. -/
def keys (d : Dict κ α) : List κ := d.pairs.map Prod.fst

/-- The values. -/
def values (d : Dict κ α) : List α := d.pairs.map Prod.snd

theorem mem_iff {d : Dict κ α} {k : κ} {a : α} : (k, a) ∈ d.pairs ↔ d.get? k = some a := by
  obtain ⟨pairs, nodup⟩ := d
  induction pairs with
  | nil => simp [get?]
  | cons p ps ih =>
    obtain ⟨fresh, rest⟩ := List.nodup_cons.1 nodup
    have tail := ih rest
    simp only [get?] at tail ⊢
    by_cases h : p.1 = k
    · have absent : (k, a) ∉ ps := fun mem => fresh (h ▸ List.mem_map_of_mem mem)
      simp [h, absent, Prod.ext_iff, eq_comm]
    · have differ : (k, a) ≠ p := fun e => h (e ▸ rfl)
      simp [h, differ, tail]

@[simp] theorem get?_empty (k : κ) : (empty : Dict κ α).get? k = none := rfl

theorem get?_erase (d : Dict κ α) (k k' : κ) :
    (d.erase k).get? k' = if k' = k then none else d.get? k' := by
  apply Option.ext
  intro a
  rw [← mem_iff]
  split
  · simp [erase, *]
  · rw [← mem_iff]
    simp [erase, *]

theorem get?_insert (d : Dict κ α) (k k' : κ) (a : α) :
    (d.insert k a).get? k' = if k' = k then some a else d.get? k' := by
  by_cases h : k' = k
  · simp [get?, insert, h]
  · have erased := get?_erase d k k'
    simp only [get?, h, if_false] at erased
    simp [get?, insert, h, Ne.symm h, erased]

end Dict

end QueryLink
