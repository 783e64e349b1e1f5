import QueryLink.Frame
import QueryLink.Proofs.ByteOrder

/-!
# Frames are read back

A frame that is written is read back, whatever follows it, and a frame that was read stays the
same when more bytes come. So a buffer can be read at any time, however the bytes were cut.

## Key results

- `Request.decode_encode_append`, `Reply.decode_encode_append`: a written frame is read back
- `Request.decode_append`, `Reply.decode_append`: more bytes do not change the frame in front
-/

namespace QueryLink

namespace Frame

/-- The length of a payload fits its four bytes. -/
theorem ofLittleEndian_length {payload : Bytes} (h : payload.length ≤ maxPayload) :
    Bytes.ofLittleEndian (Bytes.littleEndian 4 payload.length) = payload.length := by
  rw [Bytes.toNat_littleEndian]
  apply Nat.mod_eq_of_lt
  unfold maxPayload at h
  omega

theorem littleEndian_two (n : Nat) :
    Bytes.littleEndian 2 n = [UInt8.ofNat n, UInt8.ofNat (n / 256)] := rfl

/-- A slot is read back from its two bytes. -/
theorem slotOf_littleEndian (slot : UInt16) :
    slotOf (UInt8.ofNat slot.toNat) (UInt8.ofNat (slot.toNat / 256)) = slot := by
  have hlt : slot.toNat < 256 ^ 2 := slot.toNat_lt
  rw [slotOf, ← littleEndian_two, Bytes.toNat_littleEndian, Nat.mod_eq_of_lt hlt,
    UInt16.ofNat_toNat]

/-- A payload is cut off where it ends. -/
theorem splitPayload_append {payload : Bytes} (h : payload.length ≤ maxPayload) (rest : Bytes) :
    splitPayload payload.length (payload ++ rest) = .ok (some (payload, rest)) := by
  rw [splitPayload, if_neg (by omega), Bytes.cut?_append rfl]

/-- A payload that is whole stays so when more bytes come. -/
theorem splitPayload_more {length : Nat} {body payload rest : Bytes}
    (h : splitPayload length body = .ok (some (payload, rest))) (more : Bytes) :
    splitPayload length (body ++ more) = .ok (some (payload, rest ++ more)) := by
  unfold splitPayload at h ⊢
  split at h
  · cases h
  · rename_i hle
    rw [Except.ok.injEq, Bytes.cut?_eq] at h
    split at h
    · cases h
    · rename_i hlen
      -- the payload ends before the bytes do
      have hwhole : length ≤ body.length := by omega
      rw [Option.some.injEq, Prod.mk.injEq] at h
      rw [if_neg hle, Bytes.cut?_eq, if_neg (by rw [List.length_append]; omega),
        List.take_append_of_le_length hwhole, List.drop_append_of_le_length hwhole, h.1, h.2]

end Frame

namespace Request

theorem ofByte?_toByte (kind : RequestKind) : RequestKind.ofByte? kind.toByte = some kind := by
  cases kind <;> rfl

/-- A written request is read back, whatever follows it. -/
theorem decode_encode_append {r : Request} (h : r.payload.length ≤ maxPayload) (rest : Bytes) :
    decode (r.encode ++ rest) = .ok (some (r, rest)) := by
  have hlength := Frame.ofLittleEndian_length h
  simp only [Bytes.littleEndian] at hlength
  simp only [encode, Bytes.littleEndian, List.cons_append, List.nil_append, decode,
    ofByte?_toByte, hlength, Frame.splitPayload_append h, Frame.slotOf_littleEndian]

/-- A request that was read stays the same when more bytes come. -/
theorem decode_append {bs rest : Bytes} {r : Request} (h : decode bs = .ok (some (r, rest)))
    (more : Bytes) : decode (bs ++ more) = .ok (some (r, rest ++ more)) := by
  unfold decode at h
  split at h
  · simp only [List.cons_append, decode]
    split at h
    · cases h
    · split at h
      · cases h
      · cases h
      · rename_i payload left hsplit
        rw [Except.ok.injEq, Option.some.injEq, Prod.mk.injEq] at h
        simp only [Frame.splitPayload_more hsplit, h.1, h.2]
  · cases h

end Request

namespace Reply

theorem ofByte?_toByte (kind : ReplyKind) : ReplyKind.ofByte? kind.toByte = some kind := by
  cases kind <;> rfl

/-- A reply that can be written: its payload is not too long, and only pieces of result sets name
a writer. -/
structure Writable (r : Reply) : Prop where
  length_le : r.payload.length ≤ maxPayload
  writer : r.kind ≠ .resultSetPayload → r.writer = 0

/-- The part of a reply from its length on is read back. -/
theorem decodePayload_append {payload : Bytes} (h : payload.length ≤ maxPayload)
    (kind : ReplyKind) (slot : UInt16) (writer : UInt8) (rest : Bytes) :
    decodePayload kind slot writer (Bytes.littleEndian 4 payload.length ++ (payload ++ rest)) =
      .ok (some (⟨kind, slot, writer, payload⟩, rest)) := by
  have hlength := Frame.ofLittleEndian_length h
  simp only [Bytes.littleEndian] at hlength
  simp only [Bytes.littleEndian, List.cons_append, List.nil_append, decodePayload, hlength,
    Frame.splitPayload_append h]

/-- A written reply is read back, whatever follows it. -/
theorem decode_encode_append {r : Reply} (h : r.Writable) (rest : Bytes) :
    decode (r.encode ++ rest) = .ok (some (r, rest)) := by
  obtain ⟨kind, slot, writer, payload⟩ := r
  have hpayload : ∀ kind writer, decodePayload kind slot writer
      (Bytes.littleEndian 4 payload.length ++ (payload ++ rest)) =
        .ok (some (⟨kind, slot, writer, payload⟩, rest)) :=
    fun kind writer => decodePayload_append h.length_le kind slot writer rest
  have hslot := Frame.slotOf_littleEndian slot
  by_cases hkind : kind = .resultSetPayload
  · subst hkind
    simp only [encode, writerBytes, Frame.littleEndian_two, List.cons_append, List.nil_append,
      List.append_assoc, decode, ofByte?_toByte, hslot, hpayload]
  · obtain rfl : writer = 0 := h.writer hkind
    cases kind <;> first
      | exact absurd rfl hkind
      | simp only [encode, writerBytes, Frame.littleEndian_two, List.cons_append, List.nil_append,
          List.append_assoc, decode, ofByte?_toByte, hslot, hpayload]

theorem decodePayload_more {kind : ReplyKind} {slot : UInt16} {writer : UInt8} {bs rest : Bytes}
    {r : Reply} (h : decodePayload kind slot writer bs = .ok (some (r, rest))) (more : Bytes) :
    decodePayload kind slot writer (bs ++ more) = .ok (some (r, rest ++ more)) := by
  unfold decodePayload at h
  split at h
  · simp only [List.cons_append, decodePayload]
    split at h
    · cases h
    · cases h
    · rename_i payload left hsplit
      rw [Except.ok.injEq, Option.some.injEq, Prod.mk.injEq] at h
      simp only [Frame.splitPayload_more hsplit, h.1, h.2]
  · cases h

/-- A reply that was read stays the same when more bytes come. -/
theorem decode_append {bs rest : Bytes} {r : Reply} (h : decode bs = .ok (some (r, rest)))
    (more : Bytes) : decode (bs ++ more) = .ok (some (r, rest ++ more)) := by
  rcases bs with _ | ⟨k, header⟩
  · cases h
  rw [List.cons_append]
  unfold decode at h ⊢
  cases hkind : ReplyKind.ofByte? k with
  | none => simp only [hkind, reduceCtorEq] at h
  | some kind =>
    -- a header that is cut off is no frame, so all bytes before the length are there
    rcases header with _ | ⟨s₀, _ | ⟨s₁, tail⟩⟩
    · cases kind <;> simp only [hkind, Except.ok.injEq, reduceCtorEq] at h
    · cases kind <;> simp only [hkind, Except.ok.injEq, reduceCtorEq] at h
    · by_cases hpiece : kind = .resultSetPayload
      · subst hpiece
        rcases tail with _ | ⟨writer, tail⟩
        · simp only [hkind, Except.ok.injEq, reduceCtorEq] at h
        · simp only [hkind, List.cons_append] at h ⊢
          exact decodePayload_more h more
      · cases kind <;> first
          | exact absurd rfl hpiece
          | (simp only [hkind, List.cons_append] at h ⊢
             exact decodePayload_more h more)

end Reply

end QueryLink
