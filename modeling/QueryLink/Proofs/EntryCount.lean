import QueryLink.Proofs.CheckedReader
import QueryLink.Proofs.SkipValue

/-!
# Entries cost bytes

Rows and arrays announce how many elements follow, and a few bytes announce a great many. That
many are not looked at: every entry that is a value has cost a byte, and what is no value is the
last entry that is looked at. So reading a value and stepping over one look at no more entries than
there are bytes, and one more.

`Pays` says so of a checked reader and goes through rows and arrays level by level. Stepping over
keeps a count of the entries left instead; it neither falls below zero nor leaves the word.

## Key results

- `Pays.bind`: a value that was taken pays for what is looked at next
- `pays_entry`, `pays_elements`, `pays_nested`: an entry pays for itself, at any depth
- `skipRounds_runs`: the rounds of stepping over a value
- `value_runs`, `skip_runs`: neither stops, and both look at one entry for each byte, and one more
-/

namespace QueryLink

variable {α β : Type}

namespace Checked

/-! ## Definitions -/

/-- Looks at an entry and counts it. -/
def counted (c : Checked α) : Checked α := do
  inspect
  c

/-- Takes `n` entries, each of them a value; `sofar` holds the ones before, last first. -/
def elements (entry : Checked (Option Value)) : (n : Nat) → (sofar : List Value) →
    Checked (List Value)
  | 0, sofar => return sofar.reverse
  | n + 1, sofar => do
    match ← entry with
    | some v => elements entry n (v :: sofar)
    | none => fail .brokenEncoding

/-- Takes an entry, `none` at the end of contents. What a row or an array holds is taken by
`rowElements` and `arrayElements`, header included. -/
def entry (rowElements arrayElements : Checked (List Value)) : Checked (Option Value) := do
  match ← peekKind with
  | .endOfContents => endOfContents; return none
  | .null => null; return some .null
  | .int => return some (.int (← int))
  | .float4 => return some (.float4 (← float4))
  | .float8 => return some (.float8 (← float8))
  | .decimal => return some (.decimal (← decimal))
  | .character => return some (.character (← character))
  | .octet => return some (.octet (← octet))
  | .bit => return some (.bit (← bit))
  | .date => return some (.date (← date))
  | .timeOfDay => return some (.timeOfDay (← timeOfDay))
  | .timePoint => return some (.timePoint (← timePoint))
  | .zonedTimeOfDay => return some (.zonedTimeOfDay (← zonedTimeOfDay))
  | .zonedTimePoint => return some (.zonedTimePoint (← zonedTimePoint))
  | .interval => return some (.interval (← interval))
  | .row => return some (.row (← rowElements))
  | .array => return some (.array (← arrayElements))

/-- Refuses to go one level deeper. -/
def tooDeep : Checked α := fail (.overflow .nestingDepth)

/-- Takes an entry whose rows and arrays nest at most `levels` deep. Its elements are counted. -/
def nested : (levels : Nat) → Checked (Option Value)
  | 0 => entry tooDeep tooDeep
  | levels + 1 =>
    entry (do elements (counted (nested levels)) (← rowBegin) [])
      (do elements (counted (nested levels)) (← arrayBegin) [])

/-- Takes the next value with all it holds, `none` at the end of contents. -/
def value : Checked (Option Value) :=
  attempt (counted (nested Reader.maxDepth))

/-- How many entries are left when `n` more are announced, which count only if `deep` is set. The
sum has to fit a word. -/
def announce (deep : Bool) (left n : Nat) : Checked Nat :=
  if deep then
    if UInt64.size ≤ left + n then fail (.overflow .length) else pure (left + n)
  else pure left

/-- Steps over entries, one a round, until none of `left` are; it stops when it is out of rounds. -/
def skipRounds (deep : Bool) : (rounds left : Nat) → Checked Bool
  | 0, left => if left = 0 then return true else stop
  | rounds + 1, left =>
    if left = 0 then return true
    else do
      inspect
      let left ← minus left 1
      match ← peekKind with
      | .endOfContents => return false
      | .row => skipRounds deep rounds (← announce deep left (← rowBegin))
      | .array => skipRounds deep rounds (← announce deep left (← arrayBegin))
      | _ =>
        let _ ← nested Reader.maxDepth
        skipRounds deep rounds left

/-- Steps over the next value, or over its header alone unless `deep` is set, in as many rounds as
there are bytes and one more. -/
def skip (deep : Bool) : Checked Bool := fun m =>
  match skipRounds deep (m.left.length + 1) 1 m with
  | some (.ok true, after) => some (.ok true, after)
  | some (.ok false, after) => some (.ok false, { after with left := m.left })
  | some (.error .brokenEncoding, after) => some (.ok false, { after with left := m.left })
  | some (.error e, after) => some (.error e, { after with left := m.left })
  | none => none

/-! ## Paying for entries -/

/-- From these bytes on the checked reader does not stop and answers as the reader does. The
entries it looks at and the bytes that are left come to no more than the bytes there were and the
debt; and to less if the answer is `whole`. -/
def Pays (whole : α → Prop) (debt : Nat) (bs : Bytes) (c : Checked α) (r : Reader α) : Prop :=
  ∃ looks, (∀ n, c ⟨bs, n⟩ = some ((r bs).1, ⟨(r bs).2, n + looks⟩)) ∧
    (r bs).2 <:+ bs ∧ looks + (r bs).2.length ≤ bs.length + debt ∧
    ∀ a, (r bs).1 = .ok a → whole a → looks + (r bs).2.length < bs.length + debt

variable {c c' : Checked α} {r r' : Reader α} {whole : α → Prop} {debt : Nat} {bs : Bytes}

theorem Pays.congr (h : Pays whole debt bs c r) (hc : ∀ n, c' ⟨bs, n⟩ = c ⟨bs, n⟩)
    (hr : r' bs = r bs) : Pays whole debt bs c' r' := by
  unfold Pays at h ⊢
  simp only [hc, hr]
  exact h

/-- A reader that gives up where it is looks at nothing. -/
theorem pays_fail (e : ValueError) (whole : α → Prop) (debt : Nat) (bs : Bytes) :
    Pays whole debt bs (fail e) (Reader.fail e) :=
  ⟨0, fun _ => rfl, List.suffix_refl bs, by rw [Nat.zero_add]; exact Nat.le_add_right .., nofun⟩

/-- An answer that is there already costs nothing, so one that is whole leaves the debt. -/
theorem pays_pure {a : α} (h : whole a → 0 < debt) (bs : Bytes) :
    Pays whole debt bs (pure a) (pure a) := by
  refine ⟨0, fun _ => rfl, List.suffix_refl bs, ?_, fun b hb hw => ?_⟩
  · rw [Nat.zero_add]
    exact Nat.le_add_right ..
  · cases hb
    rw [Nat.zero_add]
    exact Nat.lt_add_of_pos_right (h hw)

/-- A reader of one entry looks at no others. -/
theorem pays_lift (hr : r.Sheds)
    (h : ∀ a rest, r bs = (.ok a, rest) → whole a → rest.length < bs.length) :
    Pays whole 0 bs (lift r) r := by
  have hleft := hr bs
  refine ⟨0, fun n => rfl, hleft, ?_, fun a ha hw => ?_⟩
  · rw [Nat.zero_add]
    exact hleft.length_le
  · rw [Nat.zero_add]
    exact h a (r bs).2 (Prod.ext ha rfl) hw

theorem pays_of_advances (hr : r.Advances) (whole : α → Prop) (bs : Bytes) :
    Pays whole 0 bs (lift r) r :=
  pays_lift hr.sheds fun a rest h _ => by
    have hcost := hr.costs bs a rest h
    omega

/-- An entry that is counted has that much more to pay for. -/
theorem Pays.counted (h : Pays whole debt bs c r) : Pays whole (debt + 1) bs (counted c) r := by
  obtain ⟨looks, hruns, hleft, hmost, hwhole⟩ := h
  refine ⟨looks + 1, fun n => ?_, hleft, by omega, fun a ha hw => ?_⟩
  · have hinspect : inspect ⟨bs, n⟩ = some (.ok (), ⟨bs, n + 1⟩) := rfl
    rw [Checked.counted, bind_of_ok hinspect, hruns]
    congr 3
    omega
  · have hless := hwhole a ha hw
    omega

/-- A whole answer has a byte to spare, which pays for what is looked at next. -/
theorem Pays.bind {whole' : β → Prop} {d : α → Checked β} {f : α → Reader β}
    (hc : Pays whole debt bs c r)
    (hwhole : ∀ a rest, whole a → Pays whole' 1 rest (d a) (f a))
    (hother : ∀ a rest, ¬ whole a → Pays whole' 0 rest (d a) (f a)) :
    Pays whole' debt bs (c >>= d) (r >>= f) := by
  obtain ⟨looks, hruns, hleft, hmost, hspare⟩ := hc
  rcases hr : r bs with ⟨answer, middle⟩
  simp only [hr] at hruns hleft hmost hspare
  cases answer with
  | error e =>
    -- nothing is looked at after a failure
    refine ⟨looks, fun n => ?_, ?_⟩
    · rw [bind_of_error (hruns n), Reader.bind_of_error hr]
    · rw [Reader.bind_of_error hr]
      exact ⟨hleft, hmost, nofun⟩
  | ok a =>
    -- what is looked at next may owe the byte that a whole answer spares
    obtain ⟨owed, hnext, hbyte⟩ : ∃ owed, Pays whole' owed middle (d a) (f a) ∧
        looks + middle.length + owed ≤ bs.length + debt := by
      by_cases hw : whole a
      · exact ⟨1, hwhole a middle hw, hspare a rfl hw⟩
      · exact ⟨0, hother a middle hw, hmost⟩
    obtain ⟨more, hruns', hleft', hmost', hspare'⟩ := hnext
    refine ⟨looks + more, fun n => ?_, ?_⟩
    · rw [bind_of_ok (hruns n), hruns', Reader.bind_of_ok hr, Nat.add_assoc]
    · rw [Reader.bind_of_ok hr]
      refine ⟨hleft'.trans hleft, by omega, fun b hb hw => ?_⟩
      have hless := hspare' b hb hw
      omega

/-- An answer that is whole may be changed. -/
theorem Pays.map (h : Pays (fun _ => True) debt bs c r) (whole' : β → Prop) (g : α → β) :
    Pays whole' debt bs (c >>= fun a => pure (g a)) (r >>= fun a => pure (g a)) :=
  h.bind (fun _ rest _ => pays_pure (fun _ => Nat.one_pos) rest) fun _ _ hw => absurd trivial hw

/-! ## Entries of any kind -/

section Kinds

variable {k : Kind} {rows arrays : Checked (List Value)} {rows' arrays' : Reader (List Value)}

/-- Looking at the kind of the next entry and then reading accordingly. -/
theorem bind_peekKind (hpeek : Reader.peekKind bs = (.ok k, bs)) (n : Nat) (d : Kind → Checked β) :
    (peekKind >>= d) ⟨bs, n⟩ = d k ⟨bs, n⟩ := by
  rw [peekKind_eq, bind_of_ok]
  rw [lift, hpeek]

/-- Entries of a kind with a reader of its own are read by it. -/
private theorem entry_of_map (hc : c = lift r) (g : α → Value) (n : Nat)
    (hentry : entry rows arrays ⟨bs, n⟩ = (c >>= fun a => pure (some (g a))) ⟨bs, n⟩)
    (hread : Reader.entry rows' arrays' bs = (r >>= fun a => pure (some (g a))) bs) :
    entry rows arrays ⟨bs, n⟩ = lift (Reader.entry rows' arrays') ⟨bs, n⟩ := by
  have hmap : c >>= (fun a => pure (some (g a))) = lift (r >>= fun a => pure (some (g a))) :=
    bind_eq hc fun _ _ => rfl
  rw [hentry, hmap, lift, lift, hread]

/-- An entry that holds no others is read without looking at any. -/
theorem entry_of_scalar (hend : k ≠ .endOfContents) (hrow : k ≠ .row) (harray : k ≠ .array)
    (hpeek : Reader.peekKind bs = (.ok k, bs)) (n : Nat) :
    entry rows arrays ⟨bs, n⟩ = lift (Reader.entry rows' arrays') ⟨bs, n⟩ := by
  have hentry := fun d => bind_peekKind (β := Option Value) (d := d) hpeek n
  have hread := fun f => Reader.bind_of_ok (β := Option Value) (f := f) hpeek
  cases k with
  | endOfContents => exact absurd rfl hend
  | row => exact absurd rfl hrow
  | array => exact absurd rfl harray
  | null => exact entry_of_map null_eq (fun _ => .null) n (hentry _) (hread _)
  | int => exact entry_of_map int_eq .int n (hentry _) (hread _)
  | float4 => exact entry_of_map float4_eq .float4 n (hentry _) (hread _)
  | float8 => exact entry_of_map float8_eq .float8 n (hentry _) (hread _)
  | decimal => exact entry_of_map decimal_eq .decimal n (hentry _) (hread _)
  | character => exact entry_of_map character_eq .character n (hentry _) (hread _)
  | octet => exact entry_of_map octet_eq .octet n (hentry _) (hread _)
  | bit => exact entry_of_map bit_eq .bit n (hentry _) (hread _)
  | date => exact entry_of_map date_eq .date n (hentry _) (hread _)
  | timeOfDay => exact entry_of_map timeOfDay_eq .timeOfDay n (hentry _) (hread _)
  | timePoint => exact entry_of_map timePoint_eq .timePoint n (hentry _) (hread _)
  | zonedTimeOfDay => exact entry_of_map zonedTimeOfDay_eq .zonedTimeOfDay n (hentry _) (hread _)
  | zonedTimePoint => exact entry_of_map zonedTimePoint_eq .zonedTimePoint n (hentry _) (hread _)
  | interval => exact entry_of_map interval_eq .interval n (hentry _) (hread _)

/-- The end of contents is no value. -/
theorem pays_end (bs : Bytes) :
    Pays (· ≠ (none : Option Value)) 0 bs (endOfContents >>= fun _ => pure none)
      (Reader.endOfContents >>= fun _ => pure none) := by
  have hend : Pays (fun _ => False) 0 bs endOfContents Reader.endOfContents := by
    rw [endOfContents_eq]
    exact pays_lift Reader.sheds_endOfContents fun _ _ _ => False.elim
  exact hend.bind (fun _ _ => False.elim) fun _ rest _ => pays_pure (fun h => (h rfl).elim) rest

/-- An entry pays for itself if rows and arrays do. -/
theorem pays_entry (hrows : Pays (fun _ => True) 0 bs rows rows')
    (harrays : Pays (fun _ => True) 0 bs arrays arrays') :
    Pays (· ≠ none) 0 bs (entry rows arrays) (Reader.entry rows' arrays') := by
  obtain ⟨e, hpeek⟩ | ⟨k, hpeek⟩ := Reader.peekKind_cases bs
  · -- a tag that means nothing
    refine (pays_fail e _ 0 bs).congr (fun n => bind_of_error ?_) (Reader.bind_of_error hpeek)
    rw [peekKind_eq, lift, hpeek]
  have hentry := fun n d => bind_peekKind (β := Option Value) hpeek n d
  have hread := fun f => Reader.bind_of_ok (β := Option Value) (f := f) hpeek
  by_cases hend : k = .endOfContents
  · subst hend
    exact (pays_end bs).congr (fun n => hentry n _) (hread _)
  by_cases hrow : k = .row
  · subst hrow
    exact (hrows.map _ (some <| .row ·)).congr (fun n => hentry n _) (hread _)
  by_cases harray : k = .array
  · subst harray
    exact (harrays.map _ (some <| .array ·)).congr (fun n => hentry n _) (hread _)
  · obtain ⟨r, hr, -, hscalar⟩ := Reader.scalar_of_ne hend hrow harray
    refine (pays_of_advances hr _ bs).congr (fun n => ?_) (hscalar _ _ bs hpeek)
    have hlift : entry rows arrays ⟨bs, n⟩ = lift (Reader.entry rows' arrays') ⟨bs, n⟩ :=
      entry_of_scalar hend hrow harray hpeek n
    rw [hlift, lift, lift, hscalar _ _ bs hpeek]

end Kinds

/-- Elements pay for themselves, but for the last one if it is no value. -/
theorem pays_elements {c : Checked (Option Value)} {r : Reader (Option Value)}
    (h : ∀ bs, Pays (· ≠ none) 1 bs c r) (n : Nat) (sofar : List Value) (bs : Bytes) :
    Pays (fun _ => True) 1 bs (elements c n sofar) (Reader.elements r n sofar) := by
  induction n generalizing sofar bs with
  | zero => exact pays_pure (fun _ => Nat.one_pos) bs
  | succ n ih =>
    refine (h bs).bind (fun v rest hv => ?_) fun v rest hv => ?_
    · obtain ⟨v, rfl⟩ := Option.ne_none_iff_exists'.1 hv
      exact ih (v :: sofar) rest
    · obtain rfl := Classical.not_not.1 hv
      exact pays_fail _ _ 0 rest

/-- The tag of a row or an array pays for the last of its elements. -/
theorem pays_holder {header : Reader Nat} (hheader : header.Advances)
    {c : Checked (Option Value)} {r : Reader (Option Value)} (h : ∀ bs, Pays (· ≠ none) 1 bs c r)
    (bs : Bytes) :
    Pays (fun _ => True) 0 bs (lift header >>= fun n => elements c n [])
      (header >>= fun n => Reader.elements r n []) :=
  (pays_of_advances hheader (fun _ => True) bs).bind (fun n rest _ => pays_elements h n [] rest)
    fun _ _ hw => absurd trivial hw

/-- An entry pays for all that it holds, at any depth. -/
theorem pays_nested (levels : Nat) (bs : Bytes) :
    Pays (· ≠ none) 0 bs (nested levels) (Reader.nested levels) := by
  induction levels generalizing bs with
  | zero => exact pays_entry (pays_fail _ _ 0 bs) (pays_fail _ _ 0 bs)
  | succ levels ih =>
    have hcounted := fun bs => (ih bs).counted
    rw [nested, rowBegin_eq, arrayBegin_eq]
    exact pays_entry (pays_holder Reader.advances_rowBegin hcounted bs)
      (pays_holder Reader.advances_arrayBegin hcounted bs)

/-! ## Reading a value and stepping over one -/

/-- From these bytes on the checked reader does not stop and answers as the reader does. It looks
at one entry for each byte at most, and one more. -/
def Runs (bs : Bytes) (c : Checked α) (r : Reader α) : Prop :=
  ∃ looks ≤ bs.length + 1, ∀ n, c ⟨bs, n⟩ = some ((r bs).1, ⟨(r bs).2, n + looks⟩)

/-- A reader that is lifted looks at no entries. -/
theorem runs_of_eq (h : c = lift r) (bs : Bytes) : Runs bs c r :=
  ⟨0, Nat.zero_le _, fun _ => by rw [h]; rfl⟩

theorem value_runs (bs : Bytes) : Runs bs value Reader.value := by
  obtain ⟨looks, hruns, -, hmost, -⟩ := (pays_nested Reader.maxDepth bs).counted
  refine ⟨looks, by omega, fun n => ?_⟩
  rw [value, attempt, hruns, Reader.value, Reader.attempt]
  rcases Reader.nested Reader.maxDepth bs with ⟨_ | v, rest⟩ <;> rfl

section Rounds

variable {k : Kind} {e : ValueError} {deep : Bool} {rounds left : Nat}

/-- A count that fits a word fails only by what is announced. -/
theorem announce_eq (hleft : left < UInt64.size) (deep : Bool) (n : Nat) :
    announce deep left n =
      if UInt64.size ≤ (if deep then left + n else left) then fail (.overflow .length)
      else pure (if deep then left + n else left) := by
  cases deep with
  | false => exact (if_neg (Nat.not_le.2 hleft)).symm
  | true => rfl

/-- A round counts an entry and looks at its kind; there is one left to be counted off. -/
theorem skipRounds_succ (deep : Bool) (rounds left : Nat) (bs : Bytes) (n : Nat) :
    skipRounds deep (rounds + 1) (left + 1) ⟨bs, n⟩ = (do
      match ← peekKind with
      | .endOfContents => return false
      | .row => skipRounds deep rounds (← announce deep left (← rowBegin))
      | .array => skipRounds deep rounds (← announce deep left (← arrayBegin))
      | _ =>
        let _ ← nested Reader.maxDepth
        skipRounds deep rounds left : Checked Bool) ⟨bs, n + 1⟩ := by
  rw [skipRounds, if_neg (Nat.succ_ne_zero left), minus_of_le (Nat.le_add_left 1 left)]
  rfl

/-- An entry that holds no others is stepped over by reading it, at any depth. -/
theorem nested_of_scalar (hend : k ≠ .endOfContents) (hrow : k ≠ .row) (harray : k ≠ .array)
    (hpeek : Reader.peekKind bs = (.ok k, bs)) (levels n : Nat) :
    nested levels ⟨bs, n⟩ = lift (Reader.nested 0) ⟨bs, n⟩ := by
  cases levels <;> exact entry_of_scalar hend hrow harray hpeek n

/-- A round steps over an entry, and what that announces is left as well. -/
theorem round_of_entry (hpeek : Reader.peekKind bs = (.ok k, bs)) (hend : k ≠ .endOfContents)
    (hleft : left < UInt64.size) (n : Nat) :
    skipRounds deep (rounds + 1) (left + 1) ⟨bs, n⟩ =
      (lift (Reader.skipEntry k) >>= fun count =>
        announce deep left count >>= skipRounds deep rounds) ⟨bs, n + 1⟩ := by
  rw [skipRounds_succ, bind_peekKind hpeek]
  by_cases hrow : k = .row
  · subst hrow
    rw [rowBegin_eq]
    rfl
  by_cases harray : k = .array
  · subst harray
    rw [arrayBegin_eq]
    rfl
  -- nothing is announced
  have hsame : announce deep left 0 = pure left := by
    rw [announce_eq hleft, Nat.add_zero, ite_self, if_neg (Nat.not_le.2 hleft)]
  have hread := nested_of_scalar hend hrow harray hpeek Reader.maxDepth (n + 1)
  rw [Reader.skipEntry_of_ne hrow harray]
  split
  · exact absurd rfl hend
  · exact absurd rfl hrow
  · exact absurd rfl harray
  · rcases h : Reader.nested 0 bs with ⟨e | v, rest⟩
    · rw [lift, h] at hread
      rw [bind_of_error hread, bind_of_error (by rw [lift, Reader.bind_of_error h])]
    · rw [lift, h] at hread
      rw [bind_of_ok hread, bind_of_ok (by rw [lift, Reader.bind_of_ok h]; rfl), hsame]
      rfl

/-- The rounds are as many as it takes, and the count of what is left neither falls below zero nor
leaves the word. -/
theorem skipRounds_runs (hrounds : bs.length < rounds) (hleft : left < UInt64.size) :
    Runs bs (skipRounds deep rounds left) (Reader.skipEntries deep rounds left) := by
  -- every round takes a byte, so the bytes run out before the rounds do
  induction rounds generalizing bs left with
  | zero => exact absurd hrounds (Nat.not_lt_zero _)
  | succ rounds ih =>
    cases left with
    | zero => exact ⟨0, Nat.zero_le _, fun n => by rw [skipRounds, if_pos rfl]; rfl⟩
    | succ left =>
      have hless : left < UInt64.size := Nat.lt_of_succ_lt hleft
      obtain ⟨e, hpeek⟩ | ⟨k, hpeek⟩ := Reader.peekKind_cases bs
      · refine ⟨1, Nat.le_add_left .., fun n => ?_⟩
        rw [skipRounds_succ, Reader.skipEntries_of_error hpeek]
        exact bind_of_error (by rw [peekKind_eq, lift, hpeek])
      by_cases hend : k = .endOfContents
      · subst hend
        refine ⟨1, Nat.le_add_left .., fun n => ?_⟩
        rw [skipRounds_succ, Reader.skipEntries_of_end hpeek, bind_peekKind hpeek]
        rfl
      rcases hskip : Reader.skipEntry k bs with ⟨e | count, rest⟩
      · refine ⟨1, Nat.le_add_left .., fun n => ?_⟩
        rw [round_of_entry hpeek hend hless, Reader.skipEntries_of_entry_error hpeek hend hskip]
        exact bind_of_error (by rw [lift, hskip])
      · have hlt := Reader.skipEntry_length hpeek hend hskip
        have hround : ∀ n, skipRounds deep (rounds + 1) (left + 1) ⟨bs, n⟩ =
            (announce deep left count >>= skipRounds deep rounds) ⟨rest, n + 1⟩ := by
          intro n
          rw [round_of_entry hpeek hend hless]
          exact bind_of_ok (by rw [lift, hskip])
        have hread := Reader.skipEntries_of_entry hpeek hend hskip deep rounds left
        rw [announce_eq hless] at hround
        generalize (if deep then left + count else left) = total at hround hread
        -- the walk ends where the count leaves the word, else the next round is shorter by a byte
        by_cases hover : UInt64.size ≤ total
        · rw [if_pos hover] at hround hread
          refine ⟨1, Nat.le_add_left .., fun n => ?_⟩
          rw [hround, hread]
          rfl
        · rw [if_neg hover] at hround hread
          have hshort : rest.length < rounds := by omega
          obtain ⟨looks, hmost, hruns⟩ := ih hshort (Nat.not_le.1 hover)
          refine ⟨looks + 1, by omega, fun n => ?_⟩
          rw [hround, hread, Nat.add_comm looks, ← Nat.add_assoc]
          exact hruns (n + 1)

end Rounds

theorem skip_runs (deep : Bool) (bs : Bytes) : Runs bs (skip deep) (Reader.skip deep) := by
  have hrounds : Runs bs (skipRounds deep (bs.length + 1) 1)
      (Reader.skipEntries deep (bs.length + 1) 1) :=
    skipRounds_runs (Nat.lt_succ_self bs.length) (by decide)
  obtain ⟨looks, hmost, hruns⟩ := hrounds
  refine ⟨looks, hmost, fun n => ?_⟩
  rw [skip, hruns, Reader.skip]
  rcases Reader.skipEntries deep (bs.length + 1) 1 bs with ⟨e | whole, rest⟩
  · cases e <;> rfl
  · cases whole <;> rfl

end Checked

end QueryLink
