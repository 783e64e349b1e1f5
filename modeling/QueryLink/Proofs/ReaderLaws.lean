import QueryLink.Proofs.VarintCodec
import QueryLink.Value.Decode
import QueryLink.Value.Encode

/-!
# What a reader reads

`r.Reads bs a` says that `r` takes `bs` from the front of its input, whatever follows, and answers
`a`. Readers are built from smaller ones by `bind`, and so are the strings they read.

## Key results

- `Reads.bind`: reading one thing and then another reads their strings one after the other
- `reads_unsigned`, `reads_signed`, `reads_short`: numbers of variable length
- `reads_count`: a count, folded into the tag or behind it
-/

namespace QueryLink

variable {α β : Type}

namespace Reader

/-- The reader takes exactly these bytes, whatever follows them, and answers `a`. -/
def Reads (r : Reader α) (bs : Bytes) (a : α) : Prop :=
  ∀ rest, r (bs ++ rest) = (.ok a, rest)

/-- What was read is handed on, with the rest of the input. -/
theorem bind_of_ok {r : Reader α} {f : α → Reader β} {bs rest : Bytes} {a : α}
    (h : r bs = (.ok a, rest)) : (r >>= f) bs = f a rest := by
  simp only [bind, h]

/-- After an error nothing more is read. -/
theorem bind_of_error {r : Reader α} {f : α → Reader β} {bs rest : Bytes} {e : ValueError}
    (h : r bs = (.error e, rest)) : (r >>= f) bs = (.error e, rest) := by
  simp only [bind, h]

/-- How three readers are grouped does not matter, also when one of them fails. -/
theorem bind_assoc {γ : Type} (r : Reader α) (f : α → Reader β) (g : β → Reader γ) :
    (r >>= f) >>= g = r >>= fun a => f a >>= g := by
  funext bs
  rcases h : r bs with ⟨answer, rest⟩
  cases answer with
  | error e => rw [bind_of_error (bind_of_error h), bind_of_error h]
  | ok a =>
    rcases hf : f a rest with ⟨answer, rest'⟩
    cases answer with
    | error e => rw [bind_of_ok h, bind_of_error hf, bind_of_error ((bind_of_ok h).trans hf)]
    | ok b => rw [bind_of_ok h, bind_of_ok hf, bind_of_ok ((bind_of_ok h).trans hf)]

/-! ## Building readers -/

theorem reads_pure (a : α) : (pure a : Reader α).Reads [] a := fun _ => rfl

/-- Reading one thing and then another reads their bytes one after the other. -/
theorem Reads.bind {r : Reader α} {f : α → Reader β} {front s : Bytes} {a : α} {b : β}
    (hr : r.Reads front a) (hf : (f a).Reads s b) : (r >>= f).Reads (front ++ s) b := by
  intro rest
  rw [List.append_assoc, bind_of_ok (hr (s ++ rest))]
  exact hf rest

/-- A reader that takes all its bytes and then answers from what it has. -/
theorem Reads.last {r : Reader α} {f : α → Reader β} {bs : Bytes} {a : α} {b : β}
    (hr : r.Reads bs a) (hf : (f a).Reads [] b) : (r >>= f).Reads bs b := by
  have hread := hr.bind hf
  rwa [List.append_nil] at hread

/-- A reader that takes one byte and goes on. -/
theorem Reads.cons {r : Reader α} {f : α → Reader β} {tag : UInt8} {back : Bytes} {a : α} {b : β}
    (hr : r.Reads [tag] a) (hf : (f a).Reads back b) : (r >>= f).Reads (tag :: back) b :=
  hr.bind hf

/-- Changing the answer changes no byte. -/
theorem Reads.map {r : Reader α} {bs : Bytes} {a : α} (hr : r.Reads bs a) (g : α → β) :
    (r >>= fun a => pure (g a)).Reads bs (g a) :=
  hr.last (reads_pure (g a))

/-- An attempt that succeeds is the reader itself. -/
theorem Reads.attempt {r : Reader α} {bs : Bytes} {a : α} (hr : r.Reads bs a) :
    r.attempt.Reads bs a := by
  intro rest
  simp only [Reader.attempt, hr rest]

/-! ## Tags and pieces -/

/-- The string starts with a tag of that kind. -/
def Leads (bs : Bytes) (k : Kind) : Prop :=
  ∃ tag tail, bs = tag :: tail ∧ Kind.ofTag? tag = some k

theorem leads_cons {tag : UInt8} {k : Kind} (h : Kind.ofTag? tag = some k) (tail : Bytes) :
    Leads (tag :: tail) k :=
  ⟨tag, tail, rfl, h⟩

theorem Leads.append {bs : Bytes} {k : Kind} (h : Leads bs k) (more : Bytes) :
    Leads (bs ++ more) k := by
  obtain ⟨tag, tail, rfl, htag⟩ := h
  exact ⟨tag, tail ++ more, rfl, htag⟩

/-- Looking at the next kind takes no byte. -/
theorem Leads.peekKind {bs : Bytes} {k : Kind} (h : Leads bs k) (rest : Bytes) :
    peekKind (bs ++ rest) = (.ok k, bs ++ rest) := by
  obtain ⟨tag, tail, rfl, htag⟩ := h
  simp only [List.cons_append, Reader.peekKind, htag]

/-- Looking at the next kind and then reading accordingly. -/
theorem Leads.reads {bs : Bytes} {k : Kind} (h : Leads bs k) {f : Kind → Reader α} {a : α}
    (hf : (f k).Reads bs a) : (Reader.peekKind >>= f).Reads bs a := by
  intro rest
  rw [bind_of_ok (h.peekKind rest)]
  exact hf rest

theorem reads_header {tag : UInt8} {k : Kind} (h : Kind.ofTag? tag = some k) :
    (header k).Reads [tag] tag := by
  intro rest
  simp only [List.singleton_append, header, h, if_true]

theorem reads_take {bs : Bytes} {n : Nat} (h : bs.length = n) : (take n).Reads bs bs := by
  intro rest
  simp only [take, Bytes.cut?_append h]

theorem reads_unsigned (n : UInt64) : unsigned.Reads (Varint.encode n) n := by
  intro rest
  simp only [unsigned, Varint.decode?_encode]

theorem reads_signed (n : Int64) : signed.Reads (Varint.encodeSigned n) n := by
  intro rest
  simp only [signed, Varint.decodeSigned?_encodeSigned]

/-- A word of 32 bits is read back from a signed one of 64. -/
theorem reads_short (what : Quantity) (n : Int32) : (short what).Reads (Encode.short n) n := by
  have hlow := n.le_toInt
  have hhigh := n.toInt_lt
  have hwide : (Int64.ofInt n.toInt).toInt = n.toInt :=
    Int64.toInt_ofInt_of_le (by omega) (by omega)
  intro rest
  rw [short, Encode.short, bind_of_ok (reads_signed _ rest), hwide, if_pos ⟨hlow, hhigh⟩,
    Int32.ofInt_toInt]
  rfl

/-! ## Counts -/

end Reader

/-- The tags of a count belong to one kind, and the ones that stand for a small count are neither
the full tag nor each other. -/
structure Counted.Tells (c : Counted) (k : Kind) : Prop where
  full : Kind.ofTag? c.full = some k
  folded : ∀ i < c.most, Kind.ofTag? (c.base + UInt8.ofNat i) = some k ∧
    c.base + UInt8.ofNat i ≠ c.full ∧ (c.base + UInt8.ofNat i).toNat = c.base.toNat + i

theorem Counted.tells_character : Counted.character.Tells .character := ⟨by decide, by decide⟩
theorem Counted.tells_octet : Counted.octet.Tells .octet := ⟨by decide, by decide⟩
theorem Counted.tells_bit : Counted.bit.Tells .bit := ⟨by decide, by decide⟩
theorem Counted.tells_row : Counted.row.Tells .row := ⟨by decide, by decide⟩
theorem Counted.tells_array : Counted.array.Tells .array := ⟨by decide, by decide⟩

namespace Reader

/-- Both forms of a count start with a tag of its kind. -/
theorem leads_count {c : Counted} {k : Kind} (h : c.Tells k) (n : Nat) :
    Leads (Encode.count c n) k := by
  unfold Encode.count
  split
  · exact leads_cons (h.folded (n - 1) (by omega)).1 []
  · exact leads_cons h.full _

/-- A count of 64 bits is read back, be it folded into the tag or not. -/
theorem reads_count {c : Counted} {k : Kind} (h : c.Tells k) {n : Nat} (hn : n < 2 ^ 64) :
    (header k >>= fun tag => countBody c tag).Reads (Encode.count c n) n := by
  unfold Encode.count
  split
  · -- a small count is folded into the tag
    rename_i hfolds
    obtain ⟨hkind, hother, hvalue⟩ := h.folded (n - 1) (by omega)
    refine (reads_header hkind).cons ?_
    have hcount : (c.base + UInt8.ofNat (n - 1)).toNat - c.base.toNat + 1 = n := by omega
    rw [countBody, if_neg hother, hcount]
    exact reads_pure n
  · -- the full tag stands before a count of its own
    refine (reads_header h.full).cons ?_
    have hcount : (UInt64.ofNat n).toNat = n := by
      rw [UInt64.toNat_ofNat']
      exact Nat.mod_eq_of_lt hn
    rw [countBody, if_pos rfl]
    have hread := ((reads_unsigned (UInt64.ofNat n)).attempt).map UInt64.toNat
    rwa [hcount] at hread

/-- Reading a count and then as much as it says. -/
theorem Reads.counted {c : Counted} {k : Kind} (h : c.Tells k) {n : Nat} (hn : n < 2 ^ 64)
    {f : Nat → Reader α} {back : Bytes} {a : α} (hf : (f n).Reads back a) :
    (header k >>= fun tag => countBody c tag >>= f).Reads (Encode.count c n ++ back) a := by
  rw [← bind_assoc]
  exact (reads_count h hn).bind hf

end Reader

end QueryLink
