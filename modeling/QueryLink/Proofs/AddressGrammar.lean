import QueryLink.Proofs.TextPositions
import QueryLink.Settings

/-!
# The grammar of addresses

An address is `tcp://host:port`, with a host that is not empty and has no colon, and a port in
decimal digits. `Address.parse` accepts these texts and no others, and of the reasons to refuse any
other text it gives the first that applies.

`parse` works on characters. The same can be done in place, on the bytes of the text: a mark is
found at a byte, and the pieces are cut out there. A cut that is out of range or within a character
stops the reading, but no text leads to one.

## Key results

- `Numeral.parse?_eq_some_iff`: what is read as a number
- `splitAtMark?_eq_some_iff`, `splitAtMark?_eq_none_iff`: where a text is split
- `spells_or_refused`: every text is an address or there is a reason to refuse it
- `parse_eq_ok_iff`, `parse_eq_error_iff`: which texts are read, and why the others are not
- `parseSteps_eq`: reading in place never stops
- `address_grammar`: these, for settings as well as addresses
-/

namespace QueryLink

/-! ## Numerals -/

namespace Numeral

/-- A numeral denotes a number: digits, at least one, perhaps with a plus sign before them. -/
def Denotes (cs : List Char) (n : Nat) : Prop :=
  ∃ digits : List Char, (cs = digits ∨ cs = '+' :: digits) ∧ digits ≠ [] ∧
    (∀ c ∈ digits, c.isDigit = true) ∧ Nat.ofDigitChars 10 digits 0 = n

theorem digit?_eq (c : Char) :
    digit? c = if c.isDigit then some (c.toNat - '0'.toNat) else none := by
  have hdigit : ('0' ≤ c ∧ c ≤ '9') ↔ c.isDigit = true := by
    rw [Char.isDigit, Bool.and_eq_true, decide_eq_true_eq, decide_eq_true_eq]
    rfl
  simp only [digit?, hdigit]

theorem digitsFrom?_eq_some_iff (n m : Nat) (cs : List Char) :
    digitsFrom? n cs = some m ↔
      (∀ c ∈ cs, c.isDigit = true) ∧ Nat.ofDigitChars 10 cs n = m := by
  induction cs generalizing n with
  | nil => simp [digitsFrom?]
  | cons c cs ih =>
    rw [digitsFrom?, digit?_eq, List.forall_mem_cons, Nat.ofDigitChars_cons]
    by_cases hdigit : c.isDigit = true
    · rw [if_pos hdigit, and_assoc, and_iff_right hdigit]
      exact ih _
    · rw [if_neg hdigit]
      exact iff_of_false nofun fun hand => hdigit hand.1.1

theorem digits?_eq_some_iff (m : Nat) (cs : List Char) :
    digits? cs = some m ↔
      cs ≠ [] ∧ (∀ c ∈ cs, c.isDigit = true) ∧ Nat.ofDigitChars 10 cs 0 = m := by
  rw [digits?]
  cases cs with
  | nil => simp
  | cons c cs => simp [digitsFrom?_eq_some_iff]

theorem parse?_plus (bound : Nat) (digits : List Char) :
    parse? bound ('+' :: digits) = (digits? digits).filter (· < bound) := by
  rw [parse?]
  cases digits? digits <;> simp [Option.filter_some]

theorem parse?_of_ne {cs : List Char} (h : ∀ digits, cs ≠ '+' :: digits) (bound : Nat) :
    parse? bound cs = (digits? cs).filter (· < bound) := by
  rw [parse?]
  · cases digits? cs <;> simp [Option.filter_some]
  · exact h

/-- A number is read from a numeral that denotes it, if it is below the bound. -/
theorem parse?_eq_some_iff (bound n : Nat) (cs : List Char) :
    parse? bound cs = some n ↔ Denotes cs n ∧ n < bound := by
  by_cases hplus : ∃ digits, cs = '+' :: digits
  · obtain ⟨digits, rfl⟩ := hplus
    rw [parse?_plus, Option.filter_eq_some_iff, digits?_eq_some_iff, decide_eq_true_eq]
    refine and_congr_left fun _ => ⟨fun hdigits => ⟨digits, .inr rfl, hdigits⟩, ?_⟩
    rintro ⟨digits', rfl | heq, hdigits⟩
    · -- the sign is no digit
      have hsign := hdigits.2.1 _ List.mem_cons_self
      exact absurd hsign (by decide)
    · cases heq
      exact hdigits
  · have hnone (digits : List Char) : cs ≠ '+' :: digits := fun heq => hplus ⟨digits, heq⟩
    rw [parse?_of_ne hnone, Option.filter_eq_some_iff, digits?_eq_some_iff, decide_eq_true_eq]
    refine and_congr_left fun _ => ⟨fun hdigits => ⟨cs, .inl rfl, hdigits⟩, ?_⟩
    rintro ⟨digits, rfl | heq, hdigits⟩
    · exact hdigits
    · exact absurd heq (hnone digits)

end Numeral

/-! ## Marks -/

/-- The first `mark` in a text stands between two parts of it. -/
structure First (mark text before after : String) : Prop where
  split : text = before ++ mark ++ after
  first : ∀ b a, text = b ++ mark ++ a → before.length ≤ b.length

theorem eq_of_splitAtMark? {mark cs before after : List Char}
    (h : splitAtMark? mark cs = some (before, after)) : cs = before ++ mark ++ after := by
  induction cs generalizing before with
  | nil =>
    rw [splitAtMark?] at h
    split at h
    · rename_i hmark
      cases h
      rw [List.isEmpty_iff.1 hmark]
      rfl
    · cases h
  | cons c cs ih =>
    rw [splitAtMark?] at h
    split at h
    · rename_i hmark
      cases h
      exact (List.prefix_iff_eq_append.1 (List.isPrefixOf_iff_prefix.1 hmark)).symm
    · obtain ⟨⟨b, a⟩, hrest, heq⟩ := Option.map_eq_some_iff.1 h
      cases heq
      rw [ih hrest]
      rfl

/-- A mark that is there is found, no later than there. -/
theorem exists_splitAtMark? (mark b a : List Char) :
    ∃ before after, splitAtMark? mark (b ++ mark ++ a) = some (before, after) ∧
      before.length ≤ b.length := by
  induction b with
  | nil =>
    rw [List.nil_append]
    cases h : mark ++ a with
    | nil =>
      rw [List.append_eq_nil_iff] at h
      exact ⟨[], [], by rw [splitAtMark?, h.1]; rfl, Nat.le_refl 0⟩
    | cons c cs =>
      have hmark : mark.isPrefixOf (c :: cs) = true :=
        List.isPrefixOf_iff_prefix.2 (h ▸ List.prefix_append mark a)
      exact ⟨[], _, by rw [splitAtMark?, if_pos hmark], Nat.le_refl 0⟩
  | cons c b ih =>
    obtain ⟨before, after, hfound, hle⟩ := ih
    rw [List.cons_append, List.cons_append, splitAtMark?]
    split
    · exact ⟨[], _, rfl, Nat.zero_le _⟩
    · exact ⟨c :: before, after, by rw [hfound]; rfl, Nat.succ_le_succ hle⟩

theorem splitAtMark?_eq_some_iff {mark text before after : String} :
    splitAtMark? mark.toList text.toList = some (before.toList, after.toList) ↔
      First mark text before after := by
  constructor
  · intro h
    refine ⟨?_, fun b a heq => ?_⟩
    · rw [← String.toList_inj, String.toList_append, String.toList_append]
      exact eq_of_splitAtMark? h
    · obtain ⟨before', after', hfound, hle⟩ :=
        exists_splitAtMark? mark.toList b.toList a.toList
      rw [heq, String.toList_append, String.toList_append, hfound] at h
      cases h
      rwa [String.length_toList, String.length_toList] at hle
  · rintro ⟨hsplit, hfirst⟩
    obtain ⟨before', after', hfound, hle⟩ :=
      exists_splitAtMark? mark.toList before.toList after.toList
    rw [← String.toList_append, ← String.toList_append, ← hsplit] at hfound
    have heq := eq_of_splitAtMark? hfound
    -- what is found is as long as what stands before the mark, so it is the same
    have hle' := hfirst (String.ofList before') (String.ofList after') (by
      rw [← String.toList_inj, heq]
      simp)
    rw [String.length_ofList] at hle'
    rw [String.length_toList] at hle
    rw [hsplit, String.toList_append, String.toList_append, List.append_assoc,
      List.append_assoc] at heq
    obtain ⟨hbefore, hrest⟩ := List.append_inj heq (by
      rw [String.length_toList]
      omega)
    rw [hfound, hbefore, List.append_cancel_left hrest]

theorem splitAtMark?_eq_none_iff {mark text : String} :
    splitAtMark? mark.toList text.toList = none ↔
      ∀ before after, text ≠ before ++ mark ++ after := by
  constructor
  · rintro h before after rfl
    obtain ⟨before', after', hfound, -⟩ :=
      exists_splitAtMark? mark.toList before.toList after.toList
    rw [String.toList_append, String.toList_append, hfound] at h
    cases h
  · intro h
    cases hfound : splitAtMark? mark.toList text.toList with
    | none => rfl
    | some found =>
      refine absurd ?_ (h (String.ofList found.1) (String.ofList found.2))
      rw [← String.toList_inj, eq_of_splitAtMark? hfound]
      simp

/-- A mark is the first one if its first character does not stand before it. -/
theorem first_of_not_mem {mark before : String} {m : Char} {more : List Char}
    (hmark : mark.toList = m :: more) (h : m ∉ before.toList) (after : String) :
    First mark (before ++ mark ++ after) before after := by
  refine ⟨rfl, fun b a heq => Nat.not_lt.1 fun hlt => h ?_⟩
  -- an earlier mark would start within `before`
  have hlists : before.toList ++ (m :: (more ++ after.toList)) =
      b.toList ++ (m :: (more ++ a.toList)) := by
    simpa [hmark] using congrArg String.toList heq
  have hb : b.toList.length < before.toList.length := by
    rwa [String.length_toList, String.length_toList]
  have hat := congrArg (fun cs => cs[b.toList.length]?) hlists
  simp only [List.getElem?_append_left hb, List.getElem?_append_right (Nat.le_refl _),
    Nat.sub_self, List.getElem?_cons_zero] at hat
  exact List.mem_of_getElem? hat

theorem first_colon_iff {text host port : String} :
    First ":" text host port ↔ text = host ++ ":" ++ port ∧ ':' ∉ host.toList := by
  constructor
  · rintro ⟨hsplit, hfirst⟩
    refine ⟨hsplit, fun hmem => ?_⟩
    -- a colon in the host would be an earlier one
    obtain ⟨front, more, hhost⟩ := List.append_of_mem hmem
    have hle := hfirst (String.ofList front) (String.ofList (more ++ ':' :: port.toList)) (by
      rw [hsplit, ← String.toList_inj]
      simp [hhost])
    rw [← String.length_toList, hhost, String.length_ofList, List.length_append,
      List.length_cons] at hle
    omega
  · rintro ⟨rfl, h⟩
    exact first_of_not_mem rfl h port

theorem colon_not_mem_iff {text : String} :
    ':' ∉ text.toList ↔ ∀ host port, text ≠ host ++ ":" ++ port := by
  constructor
  · rintro h host port rfl
    exact h (by simp)
  · intro h hmem
    obtain ⟨host, port, htext⟩ := List.append_of_mem hmem
    refine h (String.ofList host) (String.ofList port) ?_
    rw [← String.toList_inj, htext]
    simp

/-- A mark does not stand in a text, or there is a first one. -/
theorem absent_or_first (mark text : String) :
    (∀ before after, text ≠ before ++ mark ++ after) ∨
      ∃ before after, First mark text before after := by
  cases hfound : splitAtMark? mark.toList text.toList with
  | none => exact .inl (splitAtMark?_eq_none_iff.1 hfound)
  | some found =>
    refine .inr ⟨String.ofList found.1, String.ofList found.2, splitAtMark?_eq_some_iff.1 ?_⟩
    rw [String.toList_ofList, String.toList_ofList, hfound]

/-! ## Addresses -/

namespace Address

/-- A text spells an address. -/
def Spells (url : String) (a : Address) : Prop :=
  ∃ port : String, url = "tcp://" ++ a.host ++ ":" ++ port ∧ a.host ≠ "" ∧
    ':' ∉ a.host.toList ∧ Numeral.Denotes port.toList a.port.toNat

/-- Why a text is refused. Each reason applies only where those before it do not. -/
inductive Refused (url : String) : (reason : String) → Prop where
  | unmarked (h : ∀ before after, url ≠ before ++ "://" ++ after) : Refused url "host missing"
  | portless {scheme rest : String} (h : First "://" url scheme rest) (hrest : ':' ∉ rest.toList) :
      Refused url "port missing"
  | unsupported {scheme rest : String} (h : First "://" url scheme rest)
      (hrest : ':' ∈ rest.toList) (hscheme : scheme ≠ "tcp") :
      Refused url ("unsupported scheme `" ++ scheme ++ "`")
  | hostless {port : String} (h : url = "tcp://" ++ ":" ++ port) : Refused url "host missing"
  | unreadable {host port : String} (h : url = "tcp://" ++ host ++ ":" ++ port)
      (hne : host ≠ "") (hhost : ':' ∉ host.toList)
      (hport : ∀ n < 65536, ¬Numeral.Denotes port.toList n) : Refused url "invalid port"

section

variable {url scheme rest host port : String}

theorem tcp_append (host port : String) :
    "tcp" ++ "://" ++ (host ++ ":" ++ port) = "tcp://" ++ host ++ ":" ++ port := by
  rw [← String.toList_inj]
  simp

theorem first_of_tcp (host port : String) :
    First "://" ("tcp://" ++ host ++ ":" ++ port) "tcp" (host ++ ":" ++ port) := by
  rw [← tcp_append]
  exact first_of_not_mem rfl (by decide) _

/-- A host and a port spell an address, unless one of them is no good. -/
theorem spells_or_refused_of_tcp (h : url = "tcp://" ++ host ++ ":" ++ port)
    (hhost : ':' ∉ host.toList) : (∃ a, Spells url a) ∨ ∃ reason, Refused url reason := by
  by_cases hempty : host = ""
  · rw [hempty, String.append_empty] at h
    exact .inr ⟨_, .hostless h⟩
  · by_cases hport : ∃ n < 65536, Numeral.Denotes port.toList n
    · obtain ⟨n, hn, hport⟩ := hport
      refine .inl ⟨⟨host, UInt16.ofNat n⟩, port, h, hempty, hhost, ?_⟩
      rwa [UInt16.toNat_ofNat_of_lt' hn]
    · exact .inr ⟨_, .unreadable h hempty hhost fun n hn hdenotes => hport ⟨n, hn, hdenotes⟩⟩

/-- Every text spells an address or is refused. -/
theorem spells_or_refused (url : String) :
    (∃ a, Spells url a) ∨ ∃ reason, Refused url reason := by
  obtain habsent | ⟨scheme, rest, hfirst⟩ := absent_or_first "://" url
  · exact .inr ⟨_, .unmarked habsent⟩
  obtain habsent | ⟨host, port, hfirst'⟩ := absent_or_first ":" rest
  · exact .inr ⟨_, .portless hfirst (colon_not_mem_iff.2 habsent)⟩
  obtain ⟨hrest, hhost⟩ := first_colon_iff.1 hfirst'
  by_cases hscheme : scheme = "tcp"
  · have hurl := hfirst.split
    rw [hscheme, hrest, tcp_append] at hurl
    exact spells_or_refused_of_tcp hurl hhost
  · have hcolon : ':' ∈ rest.toList := by
      rw [hrest]
      simp
    exact .inr ⟨_, .unsupported hfirst hcolon hscheme⟩

/-- What is made of the pieces of a text: they are looked at once they are all cut. -/
def ofPieces (scheme host port : String) : Except AddressError Address :=
  if scheme ≠ "tcp" then .error (.unsupportedScheme scheme)
  else if host = "" then .error .hostMissing
  else match Numeral.parse? UInt16.size port.toList with
    | none => .error .invalidPort
    | some n => .ok ⟨host, UInt16.ofNat n⟩

theorem parse_of_unmarked (h : ∀ before after, url ≠ before ++ "://" ++ after) :
    parse url = .error .hostMissing := by
  have hscheme : splitAtMark? [':', '/', '/'] url.toList = none := splitAtMark?_eq_none_iff.2 h
  rw [parse, hscheme]

theorem parse_of_portless (h : First "://" url scheme rest) (hrest : ':' ∉ rest.toList) :
    parse url = .error .portMissing := by
  have hscheme : splitAtMark? [':', '/', '/'] url.toList = some (scheme.toList, rest.toList) :=
    splitAtMark?_eq_some_iff.2 h
  have hhost : splitAtMark? [':'] rest.toList = none :=
    splitAtMark?_eq_none_iff.2 (colon_not_mem_iff.1 hrest)
  rw [parse, hscheme]
  dsimp only
  rw [hhost]

theorem parse_of_first (h : First "://" url scheme rest) (hrest : First ":" rest host port) :
    parse url = ofPieces scheme host port := by
  have hscheme : splitAtMark? [':', '/', '/'] url.toList = some (scheme.toList, rest.toList) :=
    splitAtMark?_eq_some_iff.2 h
  have hhost : splitAtMark? [':'] rest.toList = some (host.toList, port.toList) :=
    splitAtMark?_eq_some_iff.2 hrest
  have hsame : scheme.toList = "tcp".toList ↔ scheme = "tcp" := String.toList_inj
  have htcp : scheme.toList ≠ ['t', 'c', 'p'] ↔ scheme ≠ "tcp" := not_congr hsame
  have hempty : host.toList.isEmpty = true ↔ host = "" := by
    rw [List.isEmpty_iff, String.toList_eq_nil_iff]
  rw [parse, hscheme]
  dsimp only
  rw [hhost]
  simp only [htcp, hempty, String.ofList_toList]
  rfl

theorem parse_of_tcp (port : String) (hhost : ':' ∉ host.toList) :
    parse ("tcp://" ++ host ++ ":" ++ port) = ofPieces "tcp" host port :=
  parse_of_first (first_of_tcp host port) (first_colon_iff.2 ⟨rfl, hhost⟩)

theorem parse_of_spells {a : Address} (h : Spells url a) : parse url = .ok a := by
  obtain ⟨port, rfl, hne, hhost, hport⟩ := h
  rw [parse_of_tcp port hhost, ofPieces, if_neg (not_not_intro rfl), if_neg hne,
    (Numeral.parse?_eq_some_iff _ _ _).2 ⟨hport, a.port.toNat_lt⟩]
  dsimp only
  rw [UInt16.ofNat_toNat]

theorem parse_of_refused {reason : String} (h : Refused url reason) :
    ∃ e, parse url = .error e ∧ e.reason = reason := by
  cases h with
  | unmarked h => exact ⟨_, parse_of_unmarked h, rfl⟩
  | portless h hrest => exact ⟨_, parse_of_portless h hrest, rfl⟩
  | @unsupported scheme rest h hrest hscheme =>
    obtain habsent | ⟨host, port, hfirst⟩ := absent_or_first ":" rest
    · exact absurd hrest (colon_not_mem_iff.2 habsent)
    · refine ⟨.unsupportedScheme scheme, ?_, rfl⟩
      rw [parse_of_first h hfirst, ofPieces, if_pos hscheme]
  | @hostless port h =>
    refine ⟨.hostMissing, ?_, rfl⟩
    have hcolon : ':' ∉ "".toList := List.not_mem_nil
    have hparse := parse_of_tcp port hcolon
    rw [String.append_empty] at hparse
    rw [h, hparse, ofPieces, if_neg (not_not_intro rfl), if_pos rfl]
  | @unreadable host port h hne hhost hport =>
    refine ⟨.invalidPort, ?_, rfl⟩
    have hnone : Numeral.parse? UInt16.size port.toList = none :=
      Option.eq_none_iff_forall_ne_some.2 fun n hn =>
        have hread := (Numeral.parse?_eq_some_iff _ _ _).1 hn
        hport n hread.2 hread.1
    rw [h, parse_of_tcp port hhost, ofPieces, if_neg (not_not_intro rfl), if_neg hne, hnone]

theorem parse_eq_ok_iff {a : Address} : parse url = .ok a ↔ Spells url a := by
  refine ⟨fun h => ?_, parse_of_spells⟩
  obtain ⟨a', hspells⟩ | ⟨reason, hrefused⟩ := spells_or_refused url
  · rw [parse_of_spells hspells, Except.ok.injEq] at h
    exact h ▸ hspells
  · obtain ⟨e, herror, -⟩ := parse_of_refused hrefused
    rw [herror] at h
    cases h

theorem parse_eq_error_iff {reason : String} :
    (∃ e, parse url = .error e ∧ e.reason = reason) ↔ Refused url reason := by
  refine ⟨?_, parse_of_refused⟩
  rintro ⟨e, herror, rfl⟩
  obtain ⟨a, hspells⟩ | ⟨reason, hrefused⟩ := spells_or_refused url
  · rw [parse_of_spells hspells] at herror
    cases herror
  · obtain ⟨e', herror', rfl⟩ := parse_of_refused hrefused
    rw [herror', Except.error.injEq] at herror
    exact herror ▸ hrefused

end

/-! ## Reading in place -/

/-- What is left of a text: it starts at this byte. -/
structure Unread where
  start : Nat
  text : String

/-- Takes what stands before the first `mark` off the text that is left, as a part of `url`. The
outer `none` stops the reading: a cut was not possible. -/
def eatSteps (url mark : String) (missing : AddressError) (left : Unread) :
    Option (Except AddressError (String × Unread)) :=
  match Utf8.position? (Utf8.encode mark) (Utf8.encode left.text) with
  | none => some (.error missing)
  | some i => do
    let part ← Utf8.slice? left.text 0 i
    let rest ← Utf8.slice? left.text (i + mark.utf8ByteSize) left.text.utf8ByteSize
    let piece ← Utf8.slice? url left.start (left.start + part.utf8ByteSize)
    some (.ok (piece, ⟨left.start + (i + mark.utf8ByteSize), rest⟩))

/-- Reads an address in place. -/
def parseSteps (url : String) : Option (Except AddressError Address) := do
  match ← eatSteps url "://" .hostMissing ⟨0, url⟩ with
  | .error e => some (.error e)
  | .ok (scheme, left) =>
    match ← eatSteps url ":" .portMissing left with
    | .error e => some (.error e)
    | .ok (host, left) =>
      let port ← Utf8.slice? url left.start (left.start + left.text.utf8ByteSize)
      some (ofPieces scheme host port)

section

variable {url front text before after mark : String} {m : Char} {more : List Char}

/-- In the bytes of a text a mark is where it is among the characters, if it is there. -/
theorem position?_encode (hmark : mark.toList = m :: more)
    (hascii : ∀ c ∈ m :: more, c.toNat < 128) :
    Utf8.position? (Utf8.encode mark) (Utf8.encode text) =
      (splitAtMark? mark.toList text.toList).map fun (before, _) =>
        (String.ofList before).utf8ByteSize := by
  rw [Utf8.encode_eq_bytes mark, Utf8.encode_eq_bytes text, hmark, Utf8.position?_bytes hascii]
  simp only [← Utf8.length_encode, Utf8.encode_eq_bytes, String.toList_ofList]

/-- A mark that is not there is missing. -/
theorem eatSteps_of_none (hmark : mark.toList = m :: more)
    (hascii : ∀ c ∈ m :: more, c.toNat < 128) (missing : AddressError)
    (h : ∀ before after, text ≠ before ++ mark ++ after) (start : Nat) :
    eatSteps url mark missing ⟨start, text⟩ = some (.error missing) := by
  rw [eatSteps, position?_encode hmark hascii, splitAtMark?_eq_none_iff.2 h]
  rfl

/-- A text is cut before and after the first mark in it; what is left still ends the address. -/
theorem eatSteps_of_first (hmark : mark.toList = m :: more)
    (hascii : ∀ c ∈ m :: more, c.toNat < 128) (missing : AddressError)
    (hurl : url = front ++ text) (h : First mark text before after) :
    eatSteps url mark missing ⟨front.utf8ByteSize, text⟩ =
      some (.ok (before, ⟨(front ++ before ++ mark).utf8ByteSize, after⟩)) := by
  have hpart : Utf8.slice? text 0 before.utf8ByteSize = some before := by
    have hcut := Utf8.slice?_append "" before (mark ++ after)
    rwa [String.empty_append, ← String.append_assoc, ← h.split, String.utf8ByteSize_empty,
      Nat.zero_add] at hcut
  have hrest : Utf8.slice? text (before.utf8ByteSize + mark.utf8ByteSize) text.utf8ByteSize =
      some after := by
    have hcut := Utf8.slice?_append (before ++ mark) after ""
    rwa [String.append_empty, ← String.utf8ByteSize_append, ← h.split,
      String.utf8ByteSize_append] at hcut
  have hpiece : Utf8.slice? url front.utf8ByteSize (front.utf8ByteSize + before.utf8ByteSize) =
      some before := by
    have hwhole : front ++ before ++ (mark ++ after) = url := by
      rw [hurl, h.split]
      simp only [String.append_assoc]
    rw [← hwhole, Utf8.slice?_append]
  rw [eatSteps, position?_encode hmark hascii, splitAtMark?_eq_some_iff.2 h, Option.map_some]
  simp only [String.ofList_toList, hpart, hrest, hpiece, Option.bind_eq_bind, Option.bind_some,
    String.utf8ByteSize_append, Nat.add_assoc]

/-- No cut is out of range or within a character: reading in place goes through on every text, and
reads the same. -/
theorem parseSteps_eq (url : String) : parseSteps url = some (parse url) := by
  have hscheme : ∀ c ∈ [':', '/', '/'], c.toNat < 128 := by simp
  have hhost : ∀ c ∈ [':'], c.toNat < 128 := by simp
  obtain habsent | ⟨scheme, rest, hfirst⟩ := absent_or_first "://" url
  · rw [parseSteps, eatSteps_of_none rfl hscheme _ habsent, parse_of_unmarked habsent]
    rfl
  -- after each mark, what was read and what is left still make up the address
  have hrest : url = "" ++ scheme ++ "://" ++ rest := by
    rw [String.empty_append]
    exact hfirst.split
  have heat : eatSteps url "://" .hostMissing ⟨0, url⟩ =
      some (.ok (scheme, ⟨("" ++ scheme ++ "://").utf8ByteSize, rest⟩)) :=
    eatSteps_of_first rfl hscheme _ String.empty_append.symm hfirst
  rw [parseSteps, heat]
  obtain habsent | ⟨host, port, hfirst'⟩ := absent_or_first ":" rest
  · rw [parse_of_portless hfirst (colon_not_mem_iff.2 habsent)]
    simp only [Option.bind_eq_bind, Option.bind_some, eatSteps_of_none rfl hhost _ habsent]
  have hport : url = "" ++ scheme ++ "://" ++ host ++ ":" ++ port ++ "" := by
    rw [hrest, hfirst'.split, String.append_empty]
    simp only [String.append_assoc]
  have hcut := Utf8.slice?_append ("" ++ scheme ++ "://" ++ host ++ ":") port ""
  rw [← hport] at hcut
  rw [parse_of_first hfirst hfirst']
  simp only [Option.bind_eq_bind, Option.bind_some, hcut,
    eatSteps_of_first rfl hhost .portMissing hrest hfirst']

end

/-! ## The grammar -/

/-- Which texts are addresses, what is read from them, and why the others are refused. -/
structure Grammar (url : String) : Prop where
  address : ∀ a, parse url = .ok a ↔ Spells url a
  settings : ∀ s, Settings.ofUrl url = .ok s ↔
    ∃ a, Spells url a ∧ s = ({} : Settings).withAddress a
  refused : ∀ reason, (∃ e, Settings.ofUrl url = .error e ∧ e.reason = reason) ↔
    Refused url reason
  inPlace : parseSteps url = some (parse url)

/-- Every text is read by the grammar of addresses, in place too. -/
theorem address_grammar (url : String) : Grammar url where
  address _ := parse_eq_ok_iff
  settings s := by
    simp only [← parse_eq_ok_iff, Settings.ofUrl]
    cases parse url with
    | error e => simp [Except.map]
    | ok a => simp [Except.map, eq_comm]
  refused reason := by
    rw [← parse_eq_error_iff, Settings.ofUrl]
    cases parse url <;> simp [Except.map]
  inPlace := parseSteps_eq url

example : (parse "tcp://häuser:+007").toOption = some ⟨"häuser", 7⟩ := by decide

end Address

end QueryLink
