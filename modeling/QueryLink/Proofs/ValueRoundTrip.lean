import QueryLink.Proofs.CanonicalValue

/-!
# Values are read back in canonical form

Writing a value and reading it gives its canonical form, for every value whose rows and arrays
are not nested too deep. The levels of `nested` go down with the depth of the value, and the
elements of a row are read one after the other as they were written.

## Key results

- `reads_scalar`: an entry that holds no other is read back
- `Reads.elements`: so are the elements of a row or an array
- `reads_nested`: so is every value that is not too deep for the levels left
- `value_encode_append`: so `value` undoes `Value.encode` up to `canon`
-/

namespace QueryLink

namespace Reader

/-! ## Nulls, integers and floats -/

/-- A null is its tag. -/
theorem reads_null : null.Reads [Tag.null] () :=
  (reads_header (k := .null) (by decide)).map fun _ => ()

/-- The tags that stand for an integer of their own. -/
private theorem ofTag?_small_int :
    (∀ i < 64, Kind.ofTag? (UInt8.ofNat i) = some .int ∧ (UInt8.ofNat i).toNat = i) ∧
    ∀ i < 16, Kind.ofTag? (Tag.negativeInts + UInt8.ofNat i) = some .int ∧
      (Tag.negativeInts + UInt8.ofNat i).toNat = 192 + i := by
  decide

/-- The three forms of an integer. -/
theorem int_forms (n : Int64) :
    (0 ≤ n.toInt ∧ n.toInt < 64 ∧ Encode.int n = [UInt8.ofNat n.toInt.toNat]) ∨
    (-16 ≤ n.toInt ∧ n.toInt < 0 ∧
      Encode.int n = [Tag.negativeInts + UInt8.ofNat (n.toInt - -16).toNat]) ∨
    Encode.int n = Tag.int :: Varint.encodeSigned n := by
  by_cases hsmall : 0 ≤ n.toInt ∧ n.toInt < 64
  · exact Or.inl ⟨hsmall.1, hsmall.2, if_pos hsmall⟩
  · by_cases hneg : -16 ≤ n.toInt ∧ n.toInt < 0
    · exact Or.inr (Or.inl ⟨hneg.1, hneg.2, (if_neg hsmall).trans (if_pos hneg)⟩)
    · exact Or.inr (Or.inr ((if_neg hsmall).trans (if_neg hneg)))

/-- Each form of an integer starts with a tag of integers. -/
theorem leads_int (n : Int64) : Leads (Encode.int n) .int := by
  rcases int_forms n with ⟨hlow, hhigh, h⟩ | ⟨hlow, hhigh, h⟩ | h
  · exact h ▸ leads_cons (ofTag?_small_int.1 _ (by omega)).1 []
  · exact h ▸ leads_cons (ofTag?_small_int.2 _ (by omega)).1 []
  · exact h ▸ leads_cons (by decide) _

/-- An integer is read back in each of its forms. -/
theorem reads_int (n : Int64) : int.Reads (Encode.int n) n := by
  rcases int_forms n with ⟨hlow, hhigh, h⟩ | ⟨hlow, hhigh, h⟩ | h
  · -- from 0 to 63 the tag is the integer
    rw [h]
    obtain ⟨hkind, hvalue⟩ := ofTag?_small_int.1 n.toInt.toNat (by omega)
    have hback : ((n.toInt.toNat : Nat) : Int) = n.toInt := Int.toNat_of_nonneg hlow
    refine (reads_header hkind).cons ?_
    rw [intBody, hvalue, if_pos (by simp only [Tag.smallInts]; omega), hback, Int64.ofInt_toInt]
    exact reads_pure n
  · -- from -16 to -1 the tag stands that far above the lowest one
    rw [h]
    obtain ⟨hkind, hvalue⟩ := ofTag?_small_int.2 (n.toInt - -16).toNat (by omega)
    refine (reads_header hkind).cons ?_
    generalize Tag.negativeInts + UInt8.ofNat (n.toInt - -16).toNat = tag at hkind hvalue
    have hrange : (Tag.negativeInts ≤ tag && tag < Counted.octet.base) = true := by
      rw [Bool.and_eq_true, decide_eq_true_eq, decide_eq_true_eq, UInt8.le_iff_toNat_le,
        UInt8.lt_iff_toNat_lt, hvalue]
      show 192 ≤ _ ∧ _ < 208
      omega
    have hback : (tag.toNat : Int) - Tag.negativeInts.toNat + Tag.lowestInt = n.toInt := by
      rw [hvalue]
      show (((192 + (n.toInt - -16).toNat : Nat) : Int) - (192 : Nat) + -16) = n.toInt
      omega
    rw [intBody, if_neg (by simp only [Tag.smallInts]; omega), if_pos hrange, hback,
      Int64.ofInt_toInt]
    exact reads_pure n
  · -- all others follow a tag of their own
    rw [h]
    refine (reads_header (by decide)).cons ?_
    exact (reads_signed n).attempt

/-- The bits of a float of 32 bits are read back. -/
theorem reads_float4 (bits : UInt32) :
    float4.Reads (Tag.float4 :: Bytes.bigEndian 4 bits.toNat) bits := by
  have hlt : bits.toNat < 256 ^ 4 := bits.toNat_lt
  have hbits : UInt32.ofNat (Bytes.ofBigEndian (Bytes.bigEndian 4 bits.toNat)) = bits := by
    rw [Bytes.toNat_bigEndian, Nat.mod_eq_of_lt hlt, UInt32.ofNat_toNat]
  have hread := (reads_take (Bytes.length_bigEndian 4 bits.toNat)).map
    fun bs => UInt32.ofNat (Bytes.ofBigEndian bs)
  rw [hbits] at hread
  exact (reads_header (by decide)).cons hread

/-- The bits of a float of 64 bits are read back. -/
theorem reads_float8 (bits : UInt64) :
    float8.Reads (Tag.float8 :: Bytes.bigEndian 8 bits.toNat) bits := by
  have hlt : bits.toNat < 256 ^ 8 := bits.toNat_lt
  have hbits : UInt64.ofNat (Bytes.ofBigEndian (Bytes.bigEndian 8 bits.toNat)) = bits := by
    rw [Bytes.toNat_bigEndian, Nat.mod_eq_of_lt hlt, UInt64.ofNat_toNat]
  have hread := (reads_take (Bytes.length_bigEndian 8 bits.toNat)).map
    fun bs => UInt64.ofNat (Bytes.ofBigEndian bs)
  rw [hbits] at hread
  exact (reads_header (by decide)).cons hread

/-! ## Strings -/

/-- A text is read back. -/
theorem reads_character {s : String} (h : (Utf8.encode s).length < 2 ^ 64) :
    character.Reads (Encode.count .character (Utf8.encode s).length ++ Utf8.encode s) s := by
  refine Reads.counted Counted.tells_character h ?_
  refine (reads_take rfl).last ?_
  rw [Utf8.decode_encode]
  exact reads_pure s

/-- A string of bytes is read back. -/
theorem reads_octet {bytes : Bytes} (h : bytes.length < 2 ^ 64) :
    octet.Reads (Encode.count .octet bytes.length ++ bytes) bytes :=
  Reads.counted Counted.tells_octet h (reads_take rfl)

/-- A bit string is read back with its padding. -/
theorem reads_bit {bits : BitString} (h : bits.length < 2 ^ 64) :
    bit.Reads (Encode.count .bit bits.length ++ bits.data) bits := by
  refine Reads.counted Counted.tells_bit h ?_
  have hdata : BitString.ofData? bits.length bits.data = some bits := dif_pos bits.size_data
  refine (reads_take bits.size_data).last ?_
  rw [hdata]
  exact reads_pure bits

/-! ## Dates and times -/

/-- A date is read back. -/
theorem reads_date (day : Int64) : date.Reads (Tag.date :: Varint.encodeSigned day) day :=
  (reads_header (by decide)).cons (reads_signed day).attempt

/-- A time of day is read back. -/
theorem reads_timeOfDay (nanos : UInt64) :
    timeOfDay.Reads (Tag.timeOfDay :: Varint.encode nanos) nanos :=
  (reads_header (by decide)).cons (reads_unsigned nanos).attempt

/-- A point in time is read back when its nanoseconds stay below one second. -/
theorem reads_pointBody {p : TimePoint} (h : p.nanos.toNat < 1000000000) :
    pointBody.Reads (Encode.pointBody p) p := by
  have hword : (UInt64.ofNat p.nanos.toNat).toNat = p.nanos.toNat := by
    rw [UInt64.toNat_ofNat']
    omega
  refine (reads_signed p.seconds).bind ((reads_unsigned _).last ?_)
  rw [hword, if_pos h, UInt32.ofNat_toNat]
  exact reads_pure p

/-- A point in time is read back under its tag. -/
theorem reads_timePoint {p : TimePoint} (h : p.nanos.toNat < 1000000000) :
    timePoint.Reads (Tag.timePoint :: Encode.pointBody p) p :=
  (reads_header (by decide)).cons (reads_pointBody h).attempt

/-- A time of day with a zone is read back. -/
theorem reads_zonedTimeOfDay (t : ZonedTimeOfDay) :
    zonedTimeOfDay.Reads
      (Tag.zonedTimeOfDay :: (Varint.encode t.nanos ++ Encode.short t.offset)) t :=
  (reads_header (by decide)).cons
    ((reads_unsigned t.nanos).bind
      ((reads_short .zoneOffset t.offset).map (ZonedTimeOfDay.mk t.nanos))).attempt

/-- A point in time with a zone is read back. -/
theorem reads_zonedTimePoint {p : ZonedTimePoint} (h : p.point.nanos.toNat < 1000000000) :
    zonedTimePoint.Reads
      (Tag.zonedTimePoint :: (Encode.pointBody p.point ++ Encode.short p.offset)) p :=
  (reads_header (by decide)).cons
    ((reads_pointBody h).bind
      ((reads_short .zoneOffset p.offset).map (ZonedTimePoint.mk p.point))).attempt

/-- An interval is read back. -/
theorem reads_interval (span : Interval) :
    interval.Reads
      (Tag.interval :: (Encode.short span.year ++ Encode.short span.month ++ Encode.short span.day
        ++ Varint.encodeSigned span.nanos)) span := by
  refine (reads_header (by decide)).cons (Reads.attempt ?_)
  rw [List.append_assoc, List.append_assoc]
  exact (reads_short .intervalYear span.year).bind
    ((reads_short .intervalMonth span.month).bind
      ((reads_short .intervalDay span.day).bind
        ((reads_signed span.nanos).map (Interval.mk span.year span.month span.day))))

/-! ## Entries -/

/-- A decimal is read back as its canonical form, an integer or a reduced decimal. -/
theorem reads_entry_decimal (rows arrays : Reader (List Value)) (d : Decimal) :
    (entry rows arrays).Reads (Encode.decimal d) (some (Value.decimal d).canon) := by
  cases h : d.toInt64? with
  | some n =>
    have hbytes : Encode.decimal d = Encode.int n := by simp only [Encode.decimal, h]
    simp only [Value.canon, h, hbytes]
    refine (leads_int n).reads ?_
    exact (reads_int n).map fun n => some (Value.int n)
  | none =>
    simp only [Value.canon, h]
    refine (leads_decimal h).reads ?_
    exact (reads_decimal h).map fun d => some (Value.decimal d)

/-- An entry that holds no other is read back in canonical form. -/
theorem reads_scalar (rows arrays : Reader (List Value)) {v : Value} (hdepth : v.depth = 0)
    (hport : v.Portable) : (entry rows arrays).Reads v.encode (some v.canon) := by
  cases v with
  | null =>
    refine (leads_cons (k := .null) (by decide) []).reads ?_
    exact reads_null.map fun _ => some Value.null
  | int n => exact (leads_int n).reads ((reads_int n).map fun n => some (Value.int n))
  | float4 bits =>
    refine (leads_cons (k := .float4) (by decide) _).reads ?_
    exact (reads_float4 bits).map fun bits => some (Value.float4 bits)
  | float8 bits =>
    refine (leads_cons (k := .float8) (by decide) _).reads ?_
    exact (reads_float8 bits).map fun bits => some (Value.float8 bits)
  | decimal d => exact reads_entry_decimal rows arrays d
  | character s =>
    refine ((leads_count Counted.tells_character _).append _).reads ?_
    exact (reads_character hport).map fun s => some (Value.character s)
  | octet bytes =>
    refine ((leads_count Counted.tells_octet _).append _).reads ?_
    exact (reads_octet hport).map fun bytes => some (Value.octet bytes)
  | bit bits =>
    refine ((leads_count Counted.tells_bit _).append _).reads ?_
    exact (reads_bit hport).map fun bits => some (Value.bit bits)
  | date day =>
    refine (leads_cons (k := .date) (by decide) _).reads ?_
    exact (reads_date day).map fun day => some (Value.date day)
  | timeOfDay nanos =>
    refine (leads_cons (k := .timeOfDay) (by decide) _).reads ?_
    exact (reads_timeOfDay nanos).map fun nanos => some (Value.timeOfDay nanos)
  | timePoint p =>
    refine (leads_cons (k := .timePoint) (by decide) _).reads ?_
    exact (reads_timePoint hport).map fun p => some (Value.timePoint p)
  | zonedTimeOfDay t =>
    refine (leads_cons (k := .zonedTimeOfDay) (by decide) _).reads ?_
    exact (reads_zonedTimeOfDay t).map fun t => some (Value.zonedTimeOfDay t)
  | zonedTimePoint p =>
    refine (leads_cons (k := .zonedTimePoint) (by decide) _).reads ?_
    exact (reads_zonedTimePoint hport).map fun p => some (Value.zonedTimePoint p)
  | interval span =>
    refine (leads_cons (k := .interval) (by decide) _).reads ?_
    exact (reads_interval span).map fun span => some (Value.interval span)
  | row elements => cases hdepth
  | array elements => cases hdepth

/-- Elements are read back one after the other, behind the ones read before. -/
theorem Reads.elements {entry : Reader (Option Value)} (vs : List Value)
    (h : ∀ v ∈ vs, entry.Reads v.encode (some v.canon)) (sofar : List Value) :
    (elements entry vs.length sofar).Reads (Value.encodeAll vs)
      (sofar.reverse ++ Value.canonAll vs) := by
  induction vs generalizing sofar with
  | nil =>
    rw [Value.canonAll, List.append_nil]
    exact reads_pure _
  | cons v vs ih =>
    have hrest := ih (fun w hw => h w (List.mem_cons_of_mem v hw)) (v.canon :: sofar)
    rw [List.reverse_cons, List.append_assoc, List.singleton_append] at hrest
    exact (h v List.mem_cons_self).bind hrest

/-- Whatever the levels, an entry is read by its kind. -/
theorem exists_nested_eq_entry (levels : Nat) :
    ∃ rows arrays, nested levels = entry rows arrays := by
  cases levels with
  | zero => exact ⟨_, _, rfl⟩
  | succ levels => exact ⟨_, _, rfl⟩

mutual

/-- A value is read back where there are levels enough for its depth. -/
theorem reads_nested : (v : Value) → (levels : Nat) → v.depth ≤ levels → v.Portable →
    (nested levels).Reads v.encode (some v.canon)
  | .row elements, levels + 1, hdepth, hport => by
    have hvs := reads_nestedAll elements levels (Nat.le_of_succ_le_succ hdepth) hport.2
    refine ((leads_count Counted.tells_row _).append _).reads ?_
    exact ((reads_count Counted.tells_row hport.1).bind (Reads.elements elements hvs [])).map
      fun vs => some (Value.row vs)
  | .array elements, levels + 1, hdepth, hport => by
    have hvs := reads_nestedAll elements levels (Nat.le_of_succ_le_succ hdepth) hport.2
    refine ((leads_count Counted.tells_array _).append _).reads ?_
    exact ((reads_count Counted.tells_array hport.1).bind (Reads.elements elements hvs [])).map
      fun vs => some (Value.array vs)
  | .null, levels, _, hport | .int _, levels, _, hport | .float4 _, levels, _, hport
  | .float8 _, levels, _, hport | .decimal _, levels, _, hport | .character _, levels, _, hport
  | .octet _, levels, _, hport | .bit _, levels, _, hport | .date _, levels, _, hport
  | .timeOfDay _, levels, _, hport | .timePoint _, levels, _, hport
  | .zonedTimeOfDay _, levels, _, hport | .zonedTimePoint _, levels, _, hport
  | .interval _, levels, _, hport => by
    obtain ⟨rows, arrays, h⟩ := exists_nested_eq_entry levels
    exact h ▸ reads_scalar rows arrays rfl hport

/-- So is each of some values. -/
theorem reads_nestedAll : (vs : List Value) → (levels : Nat) → Value.depthAll vs ≤ levels →
    Value.PortableAll vs → ∀ v ∈ vs, (nested levels).Reads v.encode (some v.canon)
  | [], _, _, _ => List.forall_mem_nil _
  | v :: vs, levels, hdepth, hport => by
    have hmax : max v.depth (Value.depthAll vs) ≤ levels := hdepth
    exact List.forall_mem_cons.2
      ⟨reads_nested v levels (by omega) hport.1, reads_nestedAll vs levels (by omega) hport.2⟩

end

/-- The bytes of a value start with a tag of the kind of its canonical form. -/
theorem leads_encode (v : Value) : Leads v.encode v.canon.kind := by
  cases v with
  | int n => exact leads_int n
  | decimal d =>
    cases h : d.toInt64? with
    | some n =>
      simp only [Value.canon, h, Value.kind, Value.encode, Encode.decimal]
      exact leads_int n
    | none =>
      simp only [Value.canon, h, Value.kind, Value.encode]
      exact leads_decimal h
  | character s => exact (leads_count Counted.tells_character _).append _
  | octet bytes => exact (leads_count Counted.tells_octet _).append _
  | bit bits => exact (leads_count Counted.tells_bit _).append _
  | row elements => exact (leads_count Counted.tells_row _).append _
  | array elements => exact (leads_count Counted.tells_array _).append _
  | null | float4 _ | float8 _ | date _ | timeOfDay _ | timePoint _ | zonedTimeOfDay _
  | zonedTimePoint _ | interval _ => exact leads_cons rfl _

/-- Reading undoes writing up to the canonical form, whatever follows the value: its bytes are
taken and no others, its kind can be told before, and the canonical form has the same bytes. -/
theorem value_encode_append (v : Value) (hdepth : v.depth ≤ maxDepth) (hport : v.Portable)
    (rest : Bytes) :
    value (v.encode ++ rest) = (.ok (some v.canon), rest) ∧
    peekKind (v.encode ++ rest) = (.ok v.canon.kind, v.encode ++ rest) ∧
    v.canon.encode = v.encode :=
  ⟨(reads_nested v maxDepth hdepth hport).attempt rest, (leads_encode v).peekKind rest,
    Value.encode_canon v⟩

/-- `value_encode_append` at a row that holds a decimal with places to strip and an array. -/
theorem value_encode_append_row :
    let v : Value := .row [.decimal ⟨1200, -2⟩, .array [.timePoint ⟨-1, 999999999⟩, .null]]
    let c : Value := .row [.int 12, .array [.timePoint ⟨-1, 999999999⟩, .null]]
    v.depth ≤ maxDepth ∧ v.Portable ∧
      value (v.encode ++ [0xff]) = (.ok (some c), [0xff]) ∧
      peekKind (v.encode ++ [0xff]) = (.ok .row, v.encode ++ [0xff]) ∧ c.encode = v.encode := by
  intro v c
  have hdepth : v.depth ≤ maxDepth := by decide
  have hport : v.Portable := by simp [v, Value.Portable, Value.PortableAll]
  have hcanon : v.canon = c := rfl
  have h := value_encode_append v hdepth hport [0xff]
  rw [hcanon] at h
  exact ⟨hdepth, hport, h⟩

end Reader

end QueryLink
