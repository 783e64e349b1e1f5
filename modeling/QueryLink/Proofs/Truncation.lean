import QueryLink.Proofs.SkipValue
import QueryLink.Proofs.ValueRoundTrip

/-!
# Cut values

The bytes of a value say how many they are: of a value that is cut anywhere, in a number, in the
middle of a character, behind a header or between two elements, a reader can tell that bytes are
missing, and finds nothing else wrong with it.

`r.Needs bs` says so of a reader and its bytes; it goes through readers as they are built, next to
`Reads`, which says where the first of two readers leaves off. At the end of the bytes an entry is
no failure but the end of contents, so of entries only `NeedsRest` holds: once begun, they have to
be whole. `whole`, which has to find a value, needs all of it again, and elements are such.

## Key results

- `Needs.bind`: a cut falls into what is read first or into what is read then
- `needsRest_scalar`, `needs_whole`: an entry that is cut can not be read, however deep the cut is
- `stops_cut`: neither can the walk of `skip` get past it
- `value_encode_cut`: so a cut value is recognised by reading and by stepping over it
-/

namespace QueryLink

variable {α β : Type} {bs part more : Bytes}

/-- Two strings that are cut as one are cut inside the first one, or inside the second one. -/
private theorem cut_append {front back : Bytes} (h : front ++ back = part ++ more) :
    (∃ rest, rest ≠ [] ∧ front = part ++ rest) ∨
      ∃ rest, part = front ++ rest ∧ back = rest ++ more := by
  obtain ⟨rest, hpart, hback⟩ | ⟨rest, hfront, hmore⟩ := List.append_eq_append_iff.1 h
  · exact .inr ⟨rest, hpart, hback⟩
  · by_cases hrest : rest = []
    · -- the cut is where the second string starts
      subst hrest
      exact .inr ⟨[], by simpa using hfront.symm, by simpa using hmore.symm⟩
    · exact .inl ⟨rest, hrest, hfront⟩

namespace Varint

/-- The groups of a number that is cut make no number. -/
theorem decodeGroups_cut {k n : Nat} (h : encodeGroups k n = part ++ more) (hmore : more ≠ []) :
    decodeGroups k part = none := by
  induction k generalizing n part with
  | zero =>
    cases part with
    | nil => rfl
    | cons b tail =>
      -- a single byte leaves nothing behind the cut
      simp [encodeGroups, hmore] at h
  | succ k ih =>
    cases part with
    | nil => rfl
    | cons b tail =>
      rw [encodeGroups] at h
      split at h
      · simp [hmore] at h
      · rw [List.cons_append, List.cons.injEq] at h
        obtain ⟨rfl, htail⟩ := h
        -- the byte announces more, and that is cut
        have hbyte : (UInt8.ofNat (n % 128 + 128)).toNat = n % 128 + 128 := by
          rw [UInt8.toNat_ofNat']
          omega
        have hcontinued : ¬n % 128 + 128 < 128 := by omega
        simp only [decodeGroups, hbyte, hcontinued, if_false, ih htail, Option.map_none]

theorem decode?_cut {n : UInt64} (h : encode n = part ++ more) (hmore : more ≠ []) :
    decode? part = none := by
  simp only [decode?, decodeGroups_cut h hmore, Option.map_none]

theorem decodeSigned?_cut {n : Int64} (h : encodeSigned n = part ++ more) (hmore : more ≠ []) :
    decodeSigned? part = none := by
  simp only [decodeSigned?, decode?_cut h hmore, Option.map_none]

end Varint

namespace Reader

/-- A part of the bytes is not enough: the reader finds that they end too soon. -/
def Needs (r : Reader α) (bs : Bytes) : Prop :=
  ∀ part more, bs = part ++ more → more ≠ [] → (r part).1 = .error .brokenEncoding

/-- The reader needs all of the bytes once there are any. -/
def NeedsRest (r : Reader α) (bs : Bytes) : Prop :=
  ∀ part more, bs = part ++ more → more ≠ [] → part ≠ [] → (r part).1 = .error .brokenEncoding

/-! ## Building readers -/

/-- No bytes can not be cut. -/
theorem needs_nil (r : Reader α) : r.Needs [] := by
  intro part more h hmore
  exact absurd (List.append_eq_nil_iff.1 h.symm).2 hmore

theorem Needs.needsRest {r : Reader α} (h : r.Needs bs) : r.NeedsRest bs :=
  fun part more heq hmore _ => h part more heq hmore

/-- What can not be read keeps what comes after it from being read. -/
private theorem bind_broken {r : Reader α} {f : α → Reader β}
    (h : (r part).1 = .error .brokenEncoding) : ((r >>= f) part).1 = .error .brokenEncoding := by
  rcases hread : r part with ⟨answer, rest⟩
  rw [hread] at h
  obtain rfl : answer = .error .brokenEncoding := h
  rw [bind_of_error hread]

/-- Reading one thing and then another: the first one is cut, or the second one is. -/
theorem Needs.bind {r : Reader α} {f : α → Reader β} {front back : Bytes} {a : α}
    (hn : r.Needs front) (hr : r.Reads front a) (hf : (f a).Needs back) :
    (r >>= f).Needs (front ++ back) := by
  intro part more h hmore
  obtain ⟨rest, hrest, hfront⟩ | ⟨rest, rfl, hback⟩ := cut_append h
  · exact bind_broken (hn part rest hfront hrest)
  · rw [bind_of_ok (hr rest)]
    exact hf rest more hback hmore

/-- A reader that takes all its bytes and then answers from what it has. -/
theorem Needs.last {r : Reader α} {f : α → Reader β} (hn : r.Needs bs) : (r >>= f).Needs bs :=
  fun part more h hmore => bind_broken (hn part more h hmore)

theorem NeedsRest.last {r : Reader α} {f : α → Reader β} (hn : r.NeedsRest bs) :
    (r >>= f).NeedsRest bs :=
  fun part more h hmore hpart => bind_broken (hn part more h hmore hpart)

/-- An attempt fails as the reader does. -/
theorem Needs.attempt {r : Reader α} (hn : r.Needs bs) : r.attempt.Needs bs := by
  intro part more h hmore
  have hbroken := hn part more h hmore
  unfold Reader.attempt
  rcases hread : r part with ⟨answer, rest⟩
  rw [hread] at hbroken
  obtain rfl : answer = .error .brokenEncoding := hbroken
  rfl

/-! ## Tags and pieces -/

/-- A string with a tag in front starts with it also when it is cut behind the tag. -/
theorem Leads.of_append {k : Kind} (h : Leads (part ++ more) k) (hpart : part ≠ []) :
    Leads part k := by
  obtain ⟨tag, tail, heq, htag⟩ := h
  cases part with
  | nil => exact absurd rfl hpart
  | cons b rest =>
    rw [List.cons_append, List.cons.injEq] at heq
    exact ⟨b, rest, rfl, heq.1 ▸ htag⟩

/-- Looking at the next kind and then reading accordingly: once there is a tag, all is needed. -/
theorem Leads.needsRest {k : Kind} (h : Leads bs k) {f : Kind → Reader α} (hf : (f k).Needs bs) :
    (Reader.peekKind >>= f).NeedsRest bs := by
  rintro part more rfl hmore hpart
  have hpeek := (h.of_append hpart).peekKind []
  rw [List.append_nil] at hpeek
  rw [bind_of_ok hpeek]
  exact hf part more rfl hmore

theorem needs_header (k : Kind) (tag : UInt8) : (header k).Needs [tag] := by
  intro part more h hmore
  cases part with
  | nil => rfl
  | cons b tail => simp [hmore] at h

/-- A reader that takes a tag and goes on. -/
theorem Needs.tagged {k : Kind} {tag : UInt8} (h : Kind.ofTag? tag = some k)
    {f : UInt8 → Reader α} {back : Bytes} (hf : (f tag).Needs back) :
    (header k >>= f).Needs (tag :: back) :=
  (needs_header k tag).bind (reads_header h) hf

theorem needs_take {n : Nat} (h : bs.length = n) : (take n).Needs bs := by
  rintro part more rfl hmore
  have hpos := List.length_pos_iff.2 hmore
  rw [List.length_append] at h
  have hshort : Bytes.cut? n part = none := by
    rw [Bytes.cut?_eq, if_pos (by omega)]
  simp only [take, hshort]

theorem needs_unsigned (n : UInt64) : unsigned.Needs (Varint.encode n) := by
  intro part more h hmore
  simp only [unsigned, Varint.decode?_cut h hmore]

theorem needs_signed (n : Int64) : signed.Needs (Varint.encodeSigned n) := by
  intro part more h hmore
  simp only [signed, Varint.decodeSigned?_cut h hmore]

theorem needs_short (what : Quantity) (n : Int32) : (short what).Needs (Encode.short n) :=
  (needs_signed _).last

/-- A count is needed with its tag, be it folded into it or not. -/
theorem needs_count {c : Counted} {k : Kind} (h : c.Tells k) (n : Nat) :
    (header k >>= fun tag => countBody c tag).Needs (Encode.count c n) := by
  unfold Encode.count
  split
  · exact (needs_header k _).last
  · apply Needs.tagged h.full
    rw [countBody, if_pos rfl]
    exact (needs_unsigned _).attempt.last

/-- Reading a count and then as much as it says. -/
theorem Needs.counted {c : Counted} {k : Kind} (h : c.Tells k) {n : Nat} (hn : n < 2 ^ 64)
    {f : Nat → Reader α} {back : Bytes} (hf : (f n).Needs back) :
    (header k >>= fun tag => countBody c tag >>= f).Needs (Encode.count c n ++ back) := by
  rw [← bind_assoc]
  exact (needs_count h n).bind (reads_count h hn) hf

/-! ## Entries that hold no others -/

theorem needs_int (n : Int64) : int.Needs (Encode.int n) := by
  rcases int_forms n with ⟨-, -, h⟩ | ⟨-, -, h⟩ | h
  · exact h ▸ (needs_header .int _).last
  · exact h ▸ (needs_header .int _).last
  · rw [h]
    apply Needs.tagged (by decide)
    exact (needs_signed n).attempt

theorem needs_pointBody (p : TimePoint) : pointBody.Needs (Encode.pointBody p) :=
  (needs_signed p.seconds).bind (reads_signed p.seconds) (needs_unsigned _).last

/-- Both forms of a decimal need all their bytes, the wide one those of the coefficient too. -/
theorem needsRest_decimal {d : Decimal} (h : d.toInt64? = none) :
    decimal.NeedsRest (Encode.decimal d) := by
  refine (leads_decimal h).needsRest ?_
  simp only [Encode.decimal, h]
  split
  · apply Needs.tagged (by decide)
    apply Needs.attempt
    apply (needs_short _ _).bind (reads_short _ _)
    rw [if_pos rfl]
    exact (needs_signed _).last
  · apply Needs.tagged (by decide)
    apply Needs.attempt
    rw [List.append_assoc]
    apply (needs_short _ _).bind (reads_short _ _)
    rw [if_neg (by decide)]
    apply (needs_unsigned _).bind (reads_unsigned _)
    -- the count of the coefficient is not refused, since it was written
    have hlength := (signedOfBytes_shortestSigned d.reduce.coefficient).2
    have hword : (UInt64.ofNat (Encode.shortestSigned d.reduce.coefficient).length).toNat =
        (Encode.shortestSigned d.reduce.coefficient).length := by
      rw [UInt64.toNat_ofNat']
      omega
    simp only [hword, if_neg (Nat.not_lt.2 hlength)]
    exact (needs_take rfl).last

theorem needs_decimal {d : Decimal} (h : d.toInt64? = none) :
    decimal.Needs (Encode.decimal d) := by
  intro part more heq hmore
  by_cases hpart : part = []
  · rw [hpart]
    rfl
  · exact needsRest_decimal h part more heq hmore hpart

/-- A decimal is needed whole, as an integer or in one of its own forms. -/
theorem needsRest_entry_decimal (rows arrays : Reader (List Value)) (d : Decimal) :
    (entry rows arrays).NeedsRest (Encode.decimal d) := by
  cases h : d.toInt64? with
  | some n =>
    have hbytes : Encode.decimal d = Encode.int n := by simp only [Encode.decimal, h]
    rw [hbytes]
    exact (leads_int n).needsRest (needs_int n).last
  | none => exact (leads_decimal h).needsRest (needs_decimal h).last

/-- An entry that holds no other is needed whole. -/
theorem needsRest_scalar (rows arrays : Reader (List Value)) {v : Value} (hdepth : v.depth = 0)
    (hport : v.Portable) : (entry rows arrays).NeedsRest v.encode := by
  -- the entry leads with the tag of its kind, so the reader of that kind goes on
  have hleads := leads_encode v
  cases v with
  | null => exact hleads.needsRest (needs_header _ _).last.last
  | int n => exact hleads.needsRest (needs_int n).last
  | float4 bits =>
    apply hleads.needsRest
    exact (Needs.tagged (by decide) (needs_take (Bytes.length_bigEndian _ _)).last).last
  | float8 bits =>
    apply hleads.needsRest
    exact (Needs.tagged (by decide) (needs_take (Bytes.length_bigEndian _ _)).last).last
  | decimal d => exact needsRest_entry_decimal rows arrays d
  | character s =>
    apply hleads.needsRest
    exact (Needs.counted Counted.tells_character hport (needs_take rfl).last).last
  | octet bytes =>
    apply hleads.needsRest
    exact (Needs.counted Counted.tells_octet hport (needs_take rfl)).last
  | bit bits =>
    apply hleads.needsRest
    exact (Needs.counted Counted.tells_bit hport (needs_take bits.size_data).last).last
  | date day =>
    apply hleads.needsRest
    exact (Needs.tagged (by decide) (needs_signed day).attempt).last
  | timeOfDay nanos =>
    apply hleads.needsRest
    exact (Needs.tagged (by decide) (needs_unsigned nanos).attempt).last
  | timePoint p =>
    apply hleads.needsRest
    exact (Needs.tagged (by decide) (needs_pointBody p).attempt).last
  | zonedTimeOfDay t =>
    apply hleads.needsRest
    apply Needs.last
    apply Needs.tagged (by decide)
    apply Needs.attempt
    exact (needs_unsigned t.nanos).bind (reads_unsigned t.nanos) (needs_short _ _).last
  | zonedTimePoint p =>
    apply hleads.needsRest
    apply Needs.last
    apply Needs.tagged (by decide)
    apply Needs.attempt
    exact (needs_pointBody p.point).bind (reads_pointBody hport) (needs_short _ _).last
  | interval span =>
    apply hleads.needsRest
    apply Needs.last
    apply Needs.tagged (by decide)
    apply Needs.attempt
    rw [List.append_assoc, List.append_assoc]
    apply (needs_short _ _).bind (reads_short .intervalYear span.year)
    apply (needs_short _ _).bind (reads_short .intervalMonth span.month)
    apply (needs_short _ _).bind (reads_short .intervalDay span.day)
    exact (needs_signed span.nanos).last
  | row elements => cases hdepth
  | array elements => cases hdepth

/-! ## Rows and arrays -/

/-- A value that has to be there can not be cut at all. -/
theorem NeedsRest.whole {levels : Nat} (h : (nested levels).NeedsRest bs) :
    (whole levels).Needs bs := by
  intro part more heq hmore
  by_cases hpart : part = []
  · -- where nothing comes contents end, and that is no value
    subst hpart
    cases levels <;> rfl
  · exact bind_broken (h part more heq hmore hpart)

/-- A value that has to be there is read back. -/
theorem reads_whole {v : Value} {levels : Nat} (hdepth : v.depth ≤ levels) (hport : v.Portable) :
    (whole levels).Reads v.encode v.canon :=
  (reads_nested v levels hdepth hport).last (reads_pure v.canon)

mutual

/-- A value that is cut can not be read where there are levels enough for it. -/
theorem needsRest_nested : (v : Value) → (levels : Nat) → v.depth ≤ levels → v.Portable →
    (nested levels).NeedsRest v.encode
  | .row elements, levels + 1, hdepth, hport => by
    have hvs := needs_elements elements levels (Nat.le_of_succ_le_succ hdepth) hport.2 []
    apply (leads_encode (.row elements)).needsRest
    exact ((needs_count Counted.tells_row _).bind (reads_count Counted.tells_row hport.1) hvs).last
  | .array elements, levels + 1, hdepth, hport => by
    have hvs := needs_elements elements levels (Nat.le_of_succ_le_succ hdepth) hport.2 []
    apply (leads_encode (.array elements)).needsRest
    exact ((needs_count Counted.tells_array _).bind
      (reads_count Counted.tells_array hport.1) hvs).last
  | .null, levels, _, hport | .int _, levels, _, hport | .float4 _, levels, _, hport
  | .float8 _, levels, _, hport | .decimal _, levels, _, hport | .character _, levels, _, hport
  | .octet _, levels, _, hport | .bit _, levels, _, hport | .date _, levels, _, hport
  | .timeOfDay _, levels, _, hport | .timePoint _, levels, _, hport
  | .zonedTimeOfDay _, levels, _, hport | .zonedTimePoint _, levels, _, hport
  | .interval _, levels, _, hport => by
    obtain ⟨rows, arrays, h⟩ := exists_nested_eq_entry levels
    exact h ▸ needsRest_scalar rows arrays rfl hport

/-- Neither can elements: the cut is in one of them, or between two, where the next one is
missing. -/
theorem needs_elements : (vs : List Value) → (levels : Nat) → Value.depthAll vs ≤ levels →
    Value.PortableAll vs → (sofar : List Value) →
    (elements (nested levels) vs.length sofar).Needs (Value.encodeAll vs)
  | [], _, _, _, _ => needs_nil _
  | v :: vs, levels, hdepth, hport, sofar => by
    have hmax : max v.depth (Value.depthAll vs) ≤ levels := hdepth
    have hfirst := (needsRest_nested v levels (by omega) hport.1).whole
    have hothers := needs_elements vs levels (by omega) hport.2 (v.canon :: sofar)
    rw [List.length_cons, elements_succ]
    exact hfirst.bind (reads_whole (by omega) hport.1) hothers

end

/-! ## The walk over a cut value

The walk counts entries and not levels, so its induction goes over the count that is left. -/

/-- The walk over `left` entries finds that the bytes end too soon. -/
def Stops (left : Nat) (bs : Bytes) : Prop :=
  (passes left bs).1 = .ok false ∨ (passes left bs).1 = .error .brokenEncoding

/-- The walk passes a value and goes on behind it, if the count fits a word. -/
theorem passes_encode {v : Value} {left : Nat} (hport : v.Portable)
    (hfits : left + v.encode.length < UInt64.size) (rest : Bytes) :
    passes (left + 1) (v.encode ++ rest) = passes left rest := by
  have hfollows := follows_whole v.depth left (v.encode ++ rest)
  rw [reads_whole (Nat.le_refl _) hport rest] at hfollows
  cases hfollows with
  | read _ _ cost h =>
    obtain heq | ⟨-, hbig⟩ := h
    · exact heq
    · rw [List.length_append] at hbig
      omega

/-- Each value is a byte or more. -/
theorem length_le_encodeAll (vs : List Value) : vs.length ≤ (Value.encodeAll vs).length := by
  induction vs with
  | nil => simp
  | cons v vs ih =>
    obtain ⟨tag, tail, h, -⟩ := leads_encode v
    simp only [Value.encodeAll, List.length_append, List.length_cons, h]
    omega

/-- The walk stops in an entry that is cut. -/
theorem NeedsRest.stops {k : Kind} (hleads : Leads bs k) (hend : k ≠ .endOfContents)
    (h : (skipEntry k).NeedsRest bs) (heq : bs = part ++ more) (hmore : more ≠ []) (left : Nat) :
    Stops (left + 1) part := by
  by_cases hpart : part = []
  · subst hpart
    exact .inl (congrArg Prod.fst (passes_of_end rfl left))
  · have hpeek := ((heq ▸ hleads).of_append hpart).peekKind []
    rw [List.append_nil] at hpeek
    have hbroken := h part more heq hmore hpart
    rcases hskip : skipEntry k part with ⟨answer, rest⟩
    rw [hskip] at hbroken
    obtain rfl : answer = .error .brokenEncoding := hbroken
    exact .inr (congrArg Prod.fst (passes_of_entry_error hpeek hend hskip left))

/-- The walk stops in an entry that holds no other. -/
private theorem stops_scalar {v : Value} (hdepth : v.depth = 0) (hport : v.Portable)
    (h : v.encode = part ++ more) (hmore : more ≠ []) (left : Nat) : Stops (left + 1) part := by
  have hkind : v.canon.kind ≠ .endOfContents ∧ v.canon.kind ≠ .row ∧ v.canon.kind ≠ .array := by
    cases v with
    | decimal d => cases hint : d.toInt64? <;> simp [Value.canon, Value.kind, hint]
    | row elements => cases hdepth
    | array elements => cases hdepth
    | _ => simp [Value.canon, Value.kind]
  have hneeds : (skipEntry v.canon.kind).NeedsRest v.encode := by
    rw [skipEntry_of_ne hkind.2.1 hkind.2.2]
    exact (needsRest_scalar tooDeep tooDeep hdepth hport).last
  exact hneeds.stops (leads_encode v) hkind.1 h hmore left

/-- The walk stops in a row or an array that is cut in its header or in its elements. -/
private theorem stops_holder {c : Counted} {k : Kind} (hc : c.Tells k)
    (hskip : skipEntry k = header k >>= fun tag => countBody c tag) (hend : k ≠ .endOfContents)
    {vs : List Value} {left : Nat} (hcount : vs.length < 2 ^ 64)
    (hfits : left + (Value.encodeAll vs).length < UInt64.size)
    (hvs : ∀ part, Value.encodeAll vs = part ++ more → Stops (left + vs.length) part)
    (h : Encode.count c vs.length ++ Value.encodeAll vs = part ++ more) :
    Stops (left + 1) part := by
  have hleads := leads_count hc vs.length
  obtain ⟨rest, hrest, hheader⟩ | ⟨rest, rfl, hbody⟩ := cut_append h
  · have hneeds := (needs_count hc vs.length).needsRest
    rw [← hskip] at hneeds
    exact hneeds.stops hleads hend hheader hrest left
  · -- behind the header the elements are left as well, and their count fits
    have hpass := passes_of_entry (hleads.peekKind rest) hend
      (by rw [hskip]; exact reads_count hc hcount rest) left
    have hlength := length_le_encodeAll vs
    rw [if_neg (by omega)] at hpass
    unfold Stops
    rw [hpass]
    exact hvs rest hbody

mutual

/-- The walk over a value that is cut stops, whatever entries come after the value. -/
theorem stops_cut : (v : Value) → (left : Nat) → left + v.encode.length < UInt64.size →
    v.Portable → ∀ part more, v.encode = part ++ more → more ≠ [] → Stops (left + 1) part
  | .row elements, left, hfits, hport => by
    intro part more h hmore
    simp only [Value.encode, List.length_append] at hfits
    have hvs := stops_cutAll elements left (by omega) hport.2
    exact stops_holder Counted.tells_row rfl (by simp) hport.1 (by omega)
      (fun part h => hvs part more h hmore) h
  | .array elements, left, hfits, hport => by
    intro part more h hmore
    simp only [Value.encode, List.length_append] at hfits
    have hvs := stops_cutAll elements left (by omega) hport.2
    exact stops_holder Counted.tells_array rfl (by simp) hport.1 (by omega)
      (fun part h => hvs part more h hmore) h
  | .null, left, _, hport | .int _, left, _, hport | .float4 _, left, _, hport
  | .float8 _, left, _, hport | .decimal _, left, _, hport | .character _, left, _, hport
  | .octet _, left, _, hport | .bit _, left, _, hport | .date _, left, _, hport
  | .timeOfDay _, left, _, hport | .timePoint _, left, _, hport
  | .zonedTimeOfDay _, left, _, hport | .zonedTimePoint _, left, _, hport
  | .interval _, left, _, hport => fun _ _ h hmore => stops_scalar rfl hport h hmore left

/-- So does the walk over values of which one is cut. -/
theorem stops_cutAll : (vs : List Value) → (left : Nat) →
    left + (Value.encodeAll vs).length < UInt64.size → Value.PortableAll vs →
    ∀ part more, Value.encodeAll vs = part ++ more → more ≠ [] → Stops (left + vs.length) part
  | [], _, _, _ => by
    intro part more h hmore
    exact absurd (List.append_eq_nil_iff.1 h.symm).2 hmore
  | v :: vs, left, hfits, hport => by
    intro part more h hmore
    simp only [Value.encodeAll, List.length_append] at hfits h
    have hlength := length_le_encodeAll vs
    rw [List.length_cons, ← Nat.add_assoc]
    obtain ⟨rest, hrest, hfirst⟩ | ⟨rest, rfl, hothers⟩ := cut_append h
    · exact stops_cut v (left + vs.length) (by omega) hport.1 part rest hfirst hrest
    · -- the first value is whole, so the walk passes it
      unfold Stops
      rw [passes_encode hport.1 (by omega)]
      exact stops_cutAll vs left (by omega) hport.2 rest more hothers hmore

end

/-- Where the walk finds that the bytes end nothing is stepped over. -/
theorem Stops.skip (h : Stops 1 bs) : skip true bs = (.ok false, bs) := by
  rw [skip_eq]
  rcases hpass : passes 1 bs with ⟨answer, rest⟩
  simp only [Stops, hpass] at h
  obtain rfl | rfl := h
  · rfl
  · rfl

/-! ## Cut values -/

/-- A value that is cut is recognised as cut, wherever that is: it can neither be stepped over nor
read, nothing is taken of it, and nothing is found but that bytes are missing. Of no bytes at all
there is nothing to be read. Stepping keeps a count of entries in a word of 64 bits, and the bytes
that were cut have a length that fits one. -/
theorem value_encode_cut (v : Value) (hdepth : v.depth ≤ maxDepth) (hport : v.Portable)
    (part : Bytes) (hpart : part <+: v.encode) (hcut : part ≠ v.encode) :
    (v.encode.length < UInt64.size → skip true part = (.ok false, part)) ∧
      value part = (if part = [] then .ok none else .error .brokenEncoding, part) := by
  obtain ⟨more, heq⟩ := hpart
  have hmore : more ≠ [] := by
    rintro rfl
    exact hcut (by simpa using heq)
  constructor
  · intro hfits
    exact (stops_cut v 0 (by omega) hport part more heq.symm hmore).skip
  · split
    · subst part
      rfl
    · rename_i hsome
      have hbroken := needsRest_nested v maxDepth hdepth hport part more heq.symm hmore hsome
      rcases hread : nested maxDepth part with ⟨answer, rest⟩
      rw [hread] at hbroken
      obtain rfl : answer = .error .brokenEncoding := hbroken
      exact value_of_nested_error hread

/-- `value_encode_cut` at a row of an array and a text that is cut in the middle of a character, and
between the elements of the array. -/
theorem value_encode_cut_row :
    let v : Value := .row [.array [.int 7, .null], .character "né"]
    v.depth ≤ maxDepth ∧ v.Portable ∧
      v.encode = [0x81, 0xa1, 0x07, 0xe8, 0x42, 0x6e, 0xc3, 0xa9] ∧
      ∀ part ∈ [[0x81, 0xa1, 0x07, 0xe8, 0x42, 0x6e, 0xc3], [0x81, 0xa1, 0x07]],
        part <+: v.encode ∧ part ≠ v.encode ∧
          skip true part = (.ok false, part) ∧ value part = (.error .brokenEncoding, part) := by
  intro v
  have hbytes : v.encode = [0x81, 0xa1, 0x07, 0xe8, 0x42, 0x6e, 0xc3, 0xa9] := by decide
  have hdepth : v.depth ≤ maxDepth := by decide
  have htext : (Utf8.encode "né").length < 2 ^ 64 := by decide
  have hport : v.Portable := ⟨by decide, ⟨by decide, trivial, trivial, trivial⟩, htext, trivial⟩
  have hfits : v.encode.length < UInt64.size := by
    rw [hbytes]
    decide
  have hcut : ∀ part, part ≠ [] → part <+: v.encode → part ≠ v.encode →
      skip true part = (.ok false, part) ∧ value part = (.error .brokenEncoding, part) := by
    intro part hsome hpart hne
    have h := value_encode_cut v hdepth hport part hpart hne
    rw [if_neg hsome] at h
    exact ⟨h.1 hfits, h.2⟩
  rw [hbytes] at hcut ⊢
  refine ⟨hdepth, hport, rfl, fun part hpart => ?_⟩
  simp only [List.mem_cons, List.not_mem_nil, or_false] at hpart
  obtain rfl | rfl := hpart
  · exact ⟨by decide, by decide, hcut _ (by decide) (by decide) (by decide)⟩
  · exact ⟨by decide, by decide, hcut _ (by decide) (by decide) (by decide)⟩

end Reader

end QueryLink
