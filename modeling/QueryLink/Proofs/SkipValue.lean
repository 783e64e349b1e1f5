import QueryLink.Proofs.ReaderProgress

/-!
# Stepping over a value and reading it

`skip` walks over entries and keeps one count of those that are left; `value` reads rows and arrays
level by level. `Follows` relates the two: a reader that takes some of the entries left answers as
the walk does, whatever the bytes are. Elements are read one after the other, so the walk that has
passed the entries of one of them is where the next one is read, with the same count left.

## Key results

- `passes_of_entry`: one step of the walk, whatever its fuel
- `Follows.bind`: readers that follow the walk one after the other
- `follows_elements`, `follows_whole`: so elements follow it, and values do
- `skip_agrees_value`: so stepping over a value and reading it agree on every input
-/

namespace QueryLink.Reader

variable {α β : Type} {bs rest : Bytes} {k : Kind} {e : ValueError} {n left : Nat}

/-! ## The walk -/

/-- An entry that holds no others is stepped over by reading it. -/
theorem skipEntry_of_ne (hrow : k ≠ .row) (harray : k ≠ .array) :
    skipEntry k = nested 0 >>= fun _ => pure 0 := by
  cases k with
  | row => exact absurd rfl hrow
  | array => exact absurd rfl harray
  | _ => rfl

/-- Stepping over an entry costs a byte or more. -/
theorem skipEntry_length (hpeek : peekKind bs = (.ok k, bs)) (hend : k ≠ .endOfContents)
    (h : skipEntry k bs = (.ok n, rest)) : rest.length < bs.length := by
  by_cases hrow : k = .row
  · subst hrow
    have hcost := advances_rowBegin.costs bs n rest h
    omega
  by_cases harray : k = .array
  · subst harray
    have hcost := advances_arrayBegin.costs bs n rest h
    omega
  obtain ⟨r, hr, -, hentry⟩ := scalar_of_ne hend hrow harray
  rw [skipEntry_of_ne hrow harray] at h
  have hread : nested 0 bs = r bs := hentry _ _ bs hpeek
  rcases hfirst : r bs with ⟨answer, middle⟩
  rw [hfirst] at hread
  cases answer with
  | error e =>
    rw [bind_of_error hread] at h
    cases h
  | ok v =>
    rw [bind_of_ok hread] at h
    cases h
    have hcost := hr.costs bs v rest hfirst
    omega

/-- The walk stops at a tag that means nothing. -/
theorem skipEntries_of_error (hpeek : peekKind bs = (.error e, bs)) (deep : Bool)
    (fuel left : Nat) : skipEntries deep (fuel + 1) (left + 1) bs = (.error e, bs) := by
  rw [skipEntries]
  exact bind_of_error hpeek

/-- The walk stops where contents end. -/
theorem skipEntries_of_end (hpeek : peekKind bs = (.ok .endOfContents, bs)) (deep : Bool)
    (fuel left : Nat) : skipEntries deep (fuel + 1) (left + 1) bs = (.ok false, bs) := by
  rw [skipEntries]
  exact bind_of_ok hpeek

/-- The walk stops at an entry that can not be read. -/
theorem skipEntries_of_entry_error (hpeek : peekKind bs = (.ok k, bs))
    (hend : k ≠ .endOfContents) (hskip : skipEntry k bs = (.error e, rest)) (deep : Bool)
    (fuel left : Nat) : skipEntries deep (fuel + 1) (left + 1) bs = (.error e, rest) := by
  rw [skipEntries, bind_of_ok hpeek]
  split
  · exact absurd rfl hend
  · exact bind_of_error hskip

/-- The walk passes an entry; what it holds is left as well, if the count still fits a word. -/
theorem skipEntries_of_entry (hpeek : peekKind bs = (.ok k, bs))
    (hend : k ≠ .endOfContents) (hskip : skipEntry k bs = (.ok n, rest)) (deep : Bool)
    (fuel left : Nat) :
    skipEntries deep (fuel + 1) (left + 1) bs =
      if UInt64.size ≤ (if deep then left + n else left) then (.error (.overflow .length), rest)
      else skipEntries deep fuel (if deep then left + n else left) rest := by
  rw [skipEntries, bind_of_ok hpeek]
  split
  · exact absurd rfl hend
  · exact (bind_of_ok hskip).trans (apply_ite (fun r : Reader Bool => r rest) _ _ _)

/-- One entry more costs a byte more, so fuel beyond the bytes there are changes nothing. -/
theorem skipEntries_fuel (deep : Bool) {fuel fuel' : Nat} (h : bs.length < fuel)
    (h' : bs.length < fuel') : skipEntries deep fuel left bs = skipEntries deep fuel' left bs := by
  induction fuel generalizing fuel' left bs with
  | zero => omega
  | succ fuel ih =>
    obtain ⟨fuel', rfl⟩ : ∃ m, fuel' = m + 1 := ⟨fuel' - 1, by omega⟩
    cases left with
    | zero => rfl
    | succ left =>
      obtain ⟨e, hpeek⟩ | ⟨k, hpeek⟩ := peekKind_cases bs
      · rw [skipEntries_of_error hpeek, skipEntries_of_error hpeek]
      by_cases hend : k = .endOfContents
      · subst hend
        rw [skipEntries_of_end hpeek, skipEntries_of_end hpeek]
      rcases hskip : skipEntry k bs with ⟨e | n, rest⟩
      · rw [skipEntries_of_entry_error hpeek hend hskip,
          skipEntries_of_entry_error hpeek hend hskip]
      · have hlt := skipEntry_length hpeek hend hskip
        have hfuel : rest.length < fuel := by omega
        have hfuel' : rest.length < fuel' := by omega
        rw [skipEntries_of_entry hpeek hend hskip, skipEntries_of_entry hpeek hend hskip,
          ih hfuel hfuel']

/-- The walk over `left` entries with all they hold, as far as the bytes go. -/
def passes (left : Nat) : Reader Bool := fun bs => skipEntries true (bs.length + 1) left bs

/-- Once no entries are left the walk is over. -/
theorem passes_zero (bs : Bytes) : passes 0 bs = (.ok true, bs) := rfl

/-- An entry that is passed leaves the walk with one entry less, and with those it holds. -/
theorem passes_of_entry (hpeek : peekKind bs = (.ok k, bs)) (hend : k ≠ .endOfContents)
    (hskip : skipEntry k bs = (.ok n, rest)) (left : Nat) :
    passes (left + 1) bs =
      if UInt64.size ≤ left + n then (.error (.overflow .length), rest)
      else passes (left + n) rest := by
  have hlt := skipEntry_length hpeek hend hskip
  unfold passes
  rw [skipEntries_of_entry hpeek hend hskip, if_pos rfl,
    skipEntries_fuel true hlt (Nat.lt_succ_self _)]

/-- Where contents end the walk stops. -/
theorem passes_of_end (hpeek : peekKind bs = (.ok .endOfContents, bs)) (left : Nat) :
    passes (left + 1) bs = (.ok false, bs) :=
  skipEntries_of_end hpeek true bs.length left

/-- An entry that can not be read stops the walk. -/
theorem passes_of_entry_error (hpeek : peekKind bs = (.ok k, bs)) (hend : k ≠ .endOfContents)
    (hskip : skipEntry k bs = (.error e, rest)) (left : Nat) :
    passes (left + 1) bs = (.error e, rest) :=
  skipEntries_of_entry_error hpeek hend hskip true bs.length left

/-! ## Reading along the walk -/

/-- A reader takes `n` entries where `left` others come after them, and its answer is `a`: after
it the walk is where the reader left off, or both failed. The walk alone fails for a count that
does not fit a word, and reading alone for rows and arrays that are nested too deep. -/
inductive Follows (n left : Nat) (bs : Bytes) : Except ValueError α × Bytes → Prop
  | read (a : α) (rest : Bytes) (cost : n + rest.length ≤ bs.length)
      (h : passes (left + n) bs = passes left rest ∨
        (passes (left + n) bs).1 = .error (.overflow .length) ∧
          UInt64.size ≤ left + (bs.length - rest.length)) :
      Follows n left bs (.ok a, rest)
  | tooDeep (rest : Bytes) : Follows n left bs (.error (.overflow .nestingDepth), rest)
  | failed (e : ValueError) (rest : Bytes)
      (h : (passes (left + n) bs).1 = .error e ∨
        (e = .brokenEncoding ∧ (passes (left + n) bs).1 = .ok false) ∨
        (passes (left + n) bs).1 = .error (.overflow .length)) :
      Follows n left bs (.error e, rest)

/-- Taking some entries and then others. -/
theorem Follows.bind {r : Reader α} {f : α → Reader β} {m : Nat}
    (hr : Follows m (left + n) bs (r bs))
    (hf : ∀ a rest, r bs = (.ok a, rest) → Follows n left rest (f a rest)) :
    Follows (m + n) left bs ((r >>= f) bs) := by
  have hcount : left + (m + n) = left + n + m := by omega
  rcases hfirst : r bs with ⟨answer, middle⟩
  rw [hfirst] at hr
  cases hr with
  | tooDeep =>
    rw [bind_of_error hfirst]
    exact .tooDeep middle
  | failed e _ h =>
    rw [bind_of_error hfirst]
    rw [← hcount] at h
    exact .failed e middle h
  | read a _ cost h =>
    rw [bind_of_ok hfirst]
    rw [← hcount] at h
    have hnext := hf a middle hfirst
    rcases hsecond : f a middle with ⟨answer, rest⟩
    rw [hsecond] at hnext
    cases hnext with
    | tooDeep => exact .tooDeep rest
    | failed e _ h' =>
      refine .failed e rest ?_
      obtain hwalk | ⟨hover, -⟩ := h
      · rwa [hwalk]
      · exact .inr (.inr hover)
    | read b _ cost' h' =>
      refine .read b rest (by omega) ?_
      obtain hwalk | ⟨hover, hsize⟩ := h
      · rw [hwalk]
        obtain hwalk' | ⟨hover', hsize'⟩ := h'
        · exact .inl hwalk'
        · exact .inr ⟨hover', by omega⟩
      · -- the entries that come after cost their bytes, so the count is small for the bytes
        exact .inr ⟨hover, by omega⟩

/-- Changing the answer changes nothing else. -/
theorem Follows.map {r : Reader α} (hr : Follows n left bs (r bs)) (g : α → β) :
    Follows n left bs ((r >>= fun a => pure (g a)) bs) :=
  Follows.bind (n := 0) hr fun a rest _ => .read (g a) rest (by omega) (.inl rfl)

/-- A value that has to be there. -/
def whole (levels : Nat) : Reader Value := do
  match ← nested levels with
  | some v => return v
  | none => fail .brokenEncoding

/-- Elements are whole values. -/
theorem elements_succ (levels n : Nat) (sofar : List Value) :
    elements (nested levels) (n + 1) sofar =
      whole levels >>= fun v => elements (nested levels) n (v :: sofar) := by
  rw [whole, bind_assoc]
  refine congrArg (nested levels >>= ·) (funext fun v => ?_)
  cases v <;> rfl

/-- If values follow the walk then elements do. -/
theorem follows_elements {levels : Nat}
    (hwhole : ∀ left bs, Follows 1 left bs (whole levels bs)) (n left : Nat) (bs : Bytes)
    (sofar : List Value) : Follows n left bs (elements (nested levels) n sofar bs) := by
  induction n generalizing bs sofar with
  | zero => exact .read _ bs (by omega) (.inl rfl)
  | succ n ih =>
    rw [elements_succ, Nat.add_comm]
    exact (hwhole (left + n) bs).bind fun v rest _ => ih rest (v :: sofar)

/-- A row or an array follows the walk if its elements do: the walk passes the header, and then
the elements are left as well. -/
private theorem follows_holder {header : Reader Nat} (hheader : header.Advances)
    (hskip : skipEntry k = header) (hend : k ≠ .endOfContents)
    (hpeek : peekKind bs = (.ok k, bs)) {body : Nat → Reader (List Value)}
    (hbody : ∀ n rest, Follows n left rest (body n rest)) :
    Follows 1 left bs ((header >>= body) bs) := by
  rcases hfirst : header bs with ⟨answer, middle⟩
  have hentry : skipEntry k bs = (answer, middle) := by rw [hskip, hfirst]
  cases answer with
  | error e =>
    rw [bind_of_error hfirst]
    exact .failed e middle
      (.inl (congrArg Prod.fst (skipEntries_of_entry_error hpeek hend hentry _ _ _)))
  | ok n =>
    have hcost := hheader.costs bs n middle hfirst
    have hwalk := passes_of_entry hpeek hend hentry left
    have hnext := hbody n middle
    rw [bind_of_ok hfirst]
    rcases hsecond : body n middle with ⟨answer, rest⟩
    rw [hsecond] at hnext
    cases hnext with
    | tooDeep => exact .tooDeep rest
    | failed e _ h =>
      refine .failed e rest ?_
      rw [hwalk]
      split
      · exact .inr (.inr rfl)
      · exact h
    | read vs _ cost h =>
      refine .read vs rest (by omega) ?_
      rw [hwalk]
      split
      · -- all elements are there, so their bytes are as many as the count
        exact .inr ⟨rfl, by omega⟩
      · obtain hsame | ⟨hover, hsize⟩ := h
        · exact .inl hsame
        · exact .inr ⟨hover, by omega⟩

/-- What follows the walk as an optional value follows it as a value that is there. -/
private theorem follows_whole_of_map {levels : Nat} {r : Reader (List Value)}
    {g : List Value → Value} (hread : nested levels bs = (r >>= fun vs => pure (some (g vs))) bs)
    (hr : Follows n left bs (r bs)) : Follows n left bs (whole levels bs) := by
  have hwhole : whole levels bs = (r >>= fun vs => pure (g vs)) bs := by
    unfold whole
    rcases hfirst : r bs with ⟨answer, rest⟩
    cases answer with
    | error e =>
      rw [bind_of_error hfirst] at hread ⊢
      exact bind_of_error hread
    | ok vs =>
      rw [bind_of_ok hfirst] at hread ⊢
      exact bind_of_ok hread
  rw [hwhole]
  exact hr.map g

/-- A scalar entry follows the walk: the walk reads it. -/
private theorem follows_scalar (hpeek : peekKind bs = (.ok k, bs)) (hend : k ≠ .endOfContents)
    (hrow : k ≠ .row) (harray : k ≠ .array) (levels left : Nat) :
    Follows 1 left bs (whole levels bs) := by
  obtain ⟨r, hr, hsome, hentry⟩ := scalar_of_ne hend hrow harray
  have hread : ∀ levels, nested levels bs = r bs := by
    intro levels
    cases levels <;> exact hentry _ _ bs hpeek
  unfold whole
  rcases hfirst : r bs with ⟨answer, rest⟩
  have hnested : nested levels bs = (answer, rest) := by rw [hread, hfirst]
  have hzero : nested 0 bs = (answer, rest) := by rw [hread, hfirst]
  cases answer with
  | error e =>
    rw [bind_of_error hnested]
    have hskip : skipEntry k bs = (.error e, rest) := by
      rw [skipEntry_of_ne hrow harray]
      exact bind_of_error hzero
    exact .failed e rest
      (.inl (congrArg Prod.fst (skipEntries_of_entry_error hpeek hend hskip _ _ _)))
  | ok v =>
    have hcost := hr.costs bs v rest hfirst
    have hskip : skipEntry k bs = (.ok 0, rest) := by
      rw [skipEntry_of_ne hrow harray]
      exact bind_of_ok hzero
    rw [bind_of_ok hnested]
    cases v with
    | none => exact absurd rfl (hsome bs none rest hfirst)
    | some v =>
      refine .read v rest (by omega) ?_
      rw [passes_of_entry hpeek hend hskip]
      split
      · exact .inr ⟨rfl, by omega⟩
      · exact .inl rfl

/-- The end of contents is no value. -/
private theorem nested_of_end (hpeek : peekKind bs = (.ok .endOfContents, bs)) (levels : Nat) :
    ∃ rest, nested levels bs = (.ok none, rest) := by
  have hend : ∃ rest, endOfContents bs = (.ok (), rest) := by
    cases bs with
    | nil => exact ⟨[], rfl⟩
    | cons tag tail =>
      simp only [peekKind] at hpeek
      split at hpeek
      · rename_i kind hkind
        cases hpeek
        refine ⟨tail, bind_of_ok (a := tag) ?_⟩
        simp only [header, hkind, if_true]
      · cases hpeek
  obtain ⟨rest, hend⟩ := hend
  refine ⟨rest, ?_⟩
  cases levels <;> exact (bind_of_ok hpeek).trans (bind_of_ok hend)

/-- An entry follows the walk if rows and arrays do. -/
private theorem follows_nested {levels : Nat}
    (hholder : ∀ k, k = .row ∨ k = .array → peekKind bs = (.ok k, bs) →
      Follows 1 left bs (whole levels bs)) : Follows 1 left bs (whole levels bs) := by
  obtain ⟨e, hpeek⟩ | ⟨k, hpeek⟩ := peekKind_cases bs
  · -- a tag that means nothing stops both
    have hnested : nested levels bs = (.error e, bs) := by
      cases levels <;> exact bind_of_error hpeek
    rw [whole, bind_of_error hnested]
    exact .failed e bs (.inl (congrArg Prod.fst (skipEntries_of_error hpeek _ _ _)))
  by_cases hend : k = .endOfContents
  · -- where contents end no value can be read
    subst hend
    obtain ⟨rest, hnested⟩ := nested_of_end hpeek levels
    rw [whole, bind_of_ok hnested]
    exact .failed _ rest
      (.inr (.inl ⟨rfl, congrArg Prod.fst (skipEntries_of_end hpeek _ _ _)⟩))
  by_cases hrow : k = .row
  · exact hholder k (.inl hrow) hpeek
  by_cases harray : k = .array
  · exact hholder k (.inr harray) hpeek
  exact follows_scalar hpeek hend hrow harray levels left

/-- Every value follows the walk, down to the last level. -/
theorem follows_whole (levels left : Nat) (bs : Bytes) :
    Follows 1 left bs (whole levels bs) := by
  induction levels generalizing left bs with
  | zero =>
    -- on the last level a row or an array is refused
    refine follows_nested fun k hk hpeek => ?_
    have hnested : nested 0 bs = (.error (.overflow .nestingDepth), bs) := by
      obtain rfl | rfl := hk <;> exact bind_of_ok hpeek
    rw [whole, bind_of_error hnested]
    exact .tooDeep bs
  | succ levels ih =>
    refine follows_nested fun k hk hpeek => ?_
    have helements : ∀ n rest, Follows n left rest (elements (nested levels) n [] rest) :=
      fun n rest => follows_elements ih n left rest []
    obtain rfl | rfl := hk
    · refine follows_whole_of_map (g := .row) (bind_of_ok hpeek) ?_
      exact follows_holder advances_rowBegin rfl (by simp) hpeek helements
    · refine follows_whole_of_map (g := .array) (bind_of_ok hpeek) ?_
      exact follows_holder advances_arrayBegin rfl (by simp) hpeek helements

/-! ## Stepping over a value -/

/-- Reading a value and finding none, or failing. -/
private theorem whole_cases (levels : Nat) (bs : Bytes) :
    (∃ v rest, nested levels bs = (.ok (some v), rest) ∧ whole levels bs = (.ok v, rest)) ∨
    (∃ rest, nested levels bs = (.ok none, rest) ∧
      whole levels bs = (.error .brokenEncoding, rest)) ∨
    ∃ e rest, nested levels bs = (.error e, rest) ∧ whole levels bs = (.error e, rest) := by
  rcases h : nested levels bs with ⟨e | _ | v, rest⟩
  · exact .inr (.inr ⟨e, rest, rfl, bind_of_error h⟩)
  · exact .inr (.inl ⟨rest, rfl, bind_of_ok h⟩)
  · exact .inl ⟨v, rest, rfl, bind_of_ok h⟩

/-- Stepping over a value is the walk over one entry. -/
theorem skip_eq (bs : Bytes) :
    skip true bs =
      match passes 1 bs with
      | (.ok true, rest) => (.ok true, rest)
      | (.ok false, _) => (.ok false, bs)
      | (.error .brokenEncoding, _) => (.ok false, bs)
      | (.error e, _) => (.error e, bs) := rfl

/-- Only a walk that passes the entry takes bytes. -/
theorem skip_cases (bs : Bytes) :
    (∃ rest, passes 1 bs = (.ok true, rest) ∧ skip true bs = (.ok true, rest)) ∨
    (((passes 1 bs).1 = .ok false ∨ (passes 1 bs).1 = .error .brokenEncoding) ∧
      skip true bs = (.ok false, bs)) ∨
    ∃ e, (passes 1 bs).1 = .error e ∧ skip true bs = (.error e, bs) := by
  rw [skip_eq]
  rcases passes 1 bs with ⟨e | _ | _, rest⟩
  · cases e with
    | brokenEncoding => exact .inr (.inl ⟨.inr rfl, rfl⟩)
    | _ => exact .inr (.inr ⟨_, rfl, rfl⟩)
  · exact .inr (.inl ⟨.inl rfl, rfl⟩)
  · exact .inl ⟨rest, rfl, rfl⟩

/-- Reading a value answers as reading an entry does, and takes nothing if that fails. -/
theorem value_of_nested_error (h : nested maxDepth bs = (.error e, rest)) :
    value bs = (.error e, bs) := by
  simp only [value, attempt, h]

private theorem value_of_nested_ok {v : Option Value}
    (h : nested maxDepth bs = (.ok v, rest)) : value bs = (.ok v, rest) := by
  simp only [value, attempt, h]

/-- A reader that fails where the walk goes through was refused for its depth. -/
private theorem Follows.eq_of_passed {o : Except ValueError α × Bytes}
    (h : Follows 1 0 bs o) (hpass : passes 1 bs = (.ok true, rest)) :
    (∃ a, o = (.ok a, rest)) ∨ o.1 = .error (.overflow .nestingDepth) := by
  cases h with
  | tooDeep => exact .inr rfl
  | read a middle cost h =>
    rw [Nat.zero_add, hpass, passes_zero] at h
    obtain heq | ⟨hover, -⟩ := h
    · cases heq
      exact .inl ⟨a, rfl⟩
    · cases hover
  | failed e middle h =>
    rw [Nat.zero_add, hpass] at h
    obtain hfail | ⟨-, hfail⟩ | hfail := h <;> cases hfail

/-- A reader whose walk finds no whole value fails because the bytes end, or for its depth. -/
private theorem Follows.error_of_not_passed {o : Except ValueError α × Bytes}
    (h : Follows 1 0 bs o)
    (hstop : (passes 1 bs).1 = .ok false ∨ (passes 1 bs).1 = .error .brokenEncoding) :
    o.1 = .error .brokenEncoding ∨ o.1 = .error (.overflow .nestingDepth) := by
  cases h with
  | tooDeep => exact .inr rfl
  | read a middle cost h =>
    rw [Nat.zero_add] at h
    obtain heq | ⟨hover, -⟩ := h
    · rw [heq, passes_zero] at hstop
      obtain hstop | hstop := hstop <;> cases hstop
    · rw [hover] at hstop
      obtain hstop | hstop := hstop <;> cases hstop
  | failed e middle h =>
    rw [Nat.zero_add] at h
    left
    obtain hfail | ⟨rfl, -⟩ | hover := h
    · rw [hfail] at hstop
      obtain hstop | hstop := hstop
      · cases hstop
      · rw [Except.error.injEq] at hstop
        rw [hstop]
    · rfl
    · rw [hover] at hstop
      obtain hstop | hstop := hstop <;> cases hstop

/-- What can be read can be stepped over. -/
theorem skip_of_value {v : Value} (hfits : bs.length < UInt64.size)
    (h : value bs = (.ok (some v), rest)) : skip true bs = (.ok true, rest) := by
  have hfollows := follows_whole maxDepth 0 bs
  rcases whole_cases maxDepth bs with ⟨v', rest', hnested, hwhole⟩ | ⟨rest', hnested, -⟩ |
    ⟨e, rest', hnested, -⟩
  · rw [value_of_nested_ok hnested] at h
    cases h
    rw [hwhole] at hfollows
    cases hfollows with
    | read _ _ cost hpass =>
      rw [Nat.zero_add] at hpass
      obtain hpass | ⟨-, hbig⟩ := hpass
      · rw [skip_eq, hpass, passes_zero]
      · -- the count never exceeds the bytes of the value
        omega
  · rw [value_of_nested_ok hnested] at h
    cases h
  · rw [value_of_nested_error hnested] at h
    cases h

/-- What can be stepped over can be read, or is nested too deep. -/
theorem value_of_skip (h : skip true bs = (.ok true, rest)) :
    (∃ v, value bs = (.ok (some v), rest)) ∨ (value bs).1 = .error (.overflow .nestingDepth) := by
  have hpass : passes 1 bs = (.ok true, rest) := by
    rcases skip_cases bs with ⟨rest', hpass, hskip⟩ | ⟨-, hskip⟩ | ⟨e, -, hskip⟩
    · rw [hskip] at h
      cases h
      exact hpass
    · rw [hskip] at h
      cases h
    · rw [hskip] at h
      cases h
  have hread := (follows_whole maxDepth 0 bs).eq_of_passed hpass
  rcases whole_cases maxDepth bs with ⟨v, rest', hnested, hwhole⟩ | ⟨rest', -, hwhole⟩ |
    ⟨e, rest', hnested, hwhole⟩
  · rw [hwhole] at hread
    obtain ⟨v', heq⟩ | hdeep := hread
    · cases heq
      exact .inl ⟨v, value_of_nested_ok hnested⟩
    · cases hdeep
  · rw [hwhole] at hread
    obtain ⟨v', heq⟩ | hdeep := hread
    · cases heq
    · cases hdeep
  · rw [hwhole] at hread
    obtain ⟨v', heq⟩ | hdeep := hread
    · cases heq
    · cases hdeep
      exact .inr (congrArg Prod.fst (value_of_nested_error hnested))

/-- Where no whole value is found none can be read. -/
theorem value_of_not_skip (h : (skip true bs).1 = .ok false) :
    (value bs).1 = .ok none ∨ (value bs).1 = .error .brokenEncoding ∨
      (value bs).1 = .error (.overflow .nestingDepth) := by
  have hstop : (passes 1 bs).1 = .ok false ∨ (passes 1 bs).1 = .error .brokenEncoding := by
    rcases skip_cases bs with ⟨rest, -, hskip⟩ | ⟨hstop, -⟩ | ⟨e, -, hskip⟩
    · rw [hskip] at h
      cases h
    · exact hstop
    · rw [hskip] at h
      cases h
  have hread := (follows_whole maxDepth 0 bs).error_of_not_passed hstop
  rcases whole_cases maxDepth bs with ⟨v, rest, -, hwhole⟩ | ⟨rest, hnested, -⟩ |
    ⟨e, rest, hnested, hwhole⟩
  · rw [hwhole] at hread
    obtain hread | hread := hread <;> cases hread
  · exact .inl (by rw [value_of_nested_ok hnested])
  · rw [hwhole] at hread
    rw [value_of_nested_error hnested]
    obtain hbroken | hdeep := hread
    · cases hbroken
      exact .inr (.inl rfl)
    · cases hdeep
      exact .inr (.inr rfl)

/-- Stepping takes nothing unless a value is passed. -/
theorem skip_keeps (h : (skip true bs).1 ≠ .ok true) : (skip true bs).2 = bs := by
  rcases skip_cases bs with ⟨rest, -, hskip⟩ | ⟨-, hskip⟩ | ⟨e, -, hskip⟩
  · rw [hskip] at h
    exact absurd rfl h
  · rw [hskip]
  · rw [hskip]

/-- What stepping over a value and reading it have to do with each other. -/
structure Agree (bs : Bytes) : Prop where
  /-- What can be read can be stepped over, to the same place; the bytes have a length of 64 bits
  as the count of entries does. -/
  skip_of_value : bs.length < UInt64.size → ∀ v rest, value bs = (.ok (some v), rest) →
    skip true bs = (.ok true, rest)
  /-- What can be stepped over can be read, to the same place, unless it is nested too deep. -/
  value_of_skip : ∀ rest, skip true bs = (.ok true, rest) →
    (∃ v, value bs = (.ok (some v), rest)) ∨ (value bs).1 = .error (.overflow .nestingDepth)
  /-- Where no whole value is found none can be read. -/
  value_of_not_skip : (skip true bs).1 = .ok false →
    (value bs).1 = .ok none ∨ (value bs).1 = .error .brokenEncoding ∨
      (value bs).1 = .error (.overflow .nestingDepth)
  /-- Nothing is taken unless a value is passed. -/
  skip_keeps : (skip true bs).1 ≠ .ok true → (skip true bs).2 = bs
  /-- A value that can not be read stays. -/
  value_keeps : ∀ e, (value bs).1 = .error e → (value bs).2 = bs

/-- Stepping over a value and reading it agree on all bytes. -/
theorem skip_agrees_value (bs : Bytes) : Agree bs where
  skip_of_value hfits _ _ h := skip_of_value hfits h
  value_of_skip _ h := value_of_skip h
  value_of_not_skip h := value_of_not_skip h
  skip_keeps h := skip_keeps h
  value_keeps e h := by
    rcases hnested : nested maxDepth bs with ⟨e' | v, rest⟩
    · rw [value_of_nested_error hnested]
    · rw [value_of_nested_ok hnested] at h
      cases h

/-- `skip_agrees_value` at a row of a text and an array, with a null after it. -/
theorem skip_agrees_value_row :
    let bs : Bytes := [0x81, 0x40, 0x61, 0xa0, 0x05, 0xe8]
    bs.length < UInt64.size ∧
      value bs = (.ok (some (.row [.character "a", .array [.int 5]])), [0xe8]) ∧
      skip true bs = (.ok true, [0xe8]) := by
  intro bs
  have hfits : bs.length < UInt64.size := by decide
  have hvalue : value bs = (.ok (some (.row [.character "a", .array [.int 5]])), [0xe8]) := by
    rfl
  exact ⟨hfits, hvalue, (skip_agrees_value bs).skip_of_value hfits _ _ hvalue⟩

end QueryLink.Reader
