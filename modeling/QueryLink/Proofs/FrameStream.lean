import QueryLink.Proofs.FrameCodec

/-!
# A stream of frames

Frames are cut out of a buffer to which bytes are added as they come. Two decoders do this, one
for requests and one for replies; what they have in common is `Lawful`, and everything about
streams follows from it alone. The list of frames, the bytes left over and the error, if there is
one, depend on the bytes only, not on how they were cut, and no byte is lost on the way.

## Key results

- `Request.lawful`, `Reply.lawful`: what the two decoders do to one frame
- `Lawful.decodeAll_append`: decoding may stop anywhere and go on when more bytes come
- `codecs_faithful`: whole streams are read back, exactly and however they are cut
-/

namespace QueryLink

namespace Frame

variable {φ : Type}

/-- What is known about a decoder of single frames: a frame that is written is read back, a frame
that is read was written so, and more bytes change neither a frame nor an error. -/
structure Lawful (decode : Bytes → Except FrameError (Option (φ × Bytes))) (encode : φ → Bytes)
    (Writable : φ → Prop) : Prop where
  /-- No bytes are no frame yet. -/
  nil : decode [] = .ok none
  /-- A frame takes bytes. -/
  encode_ne_nil (frame : φ) : encode frame ≠ []
  /-- A written frame is read back, whatever follows it. -/
  written {frame : φ} (h : Writable frame) (rest : Bytes) :
    decode (encode frame ++ rest) = .ok (some (frame, rest))
  /-- The bytes that are taken are those the frame is written with. -/
  taken {bs rest : Bytes} {frame : φ} (h : decode bs = .ok (some (frame, rest))) :
    encode frame ++ rest = bs
  /-- More bytes do not change the frame in front. -/
  whole {bs rest : Bytes} {frame : φ} (h : decode bs = .ok (some (frame, rest))) (more : Bytes) :
    decode (bs ++ more) = .ok (some (frame, rest ++ more))
  /-- More bytes do not mend what is no frame. -/
  broken {bs : Bytes} {e : FrameError} (h : decode bs = .error e) (more : Bytes) :
    decode (bs ++ more) = .error e

variable {decode : Bytes → Except FrameError (Option (φ × Bytes))} {encode : φ → Bytes}
  {Writable : φ → Prop}

/-- A frame leaves fewer bytes than there were. -/
theorem Lawful.length_lt (law : Lawful decode encode Writable) {bs rest : Bytes} {frame : φ}
    (h : decode bs = .ok (some (frame, rest))) : rest.length < bs.length := by
  have hpos := List.length_pos_iff.2 (law.encode_ne_nil frame)
  rw [← law.taken h, List.length_append]
  omega

/-- Induction over a buffer, frame by frame, until there is none or the bytes are no frame. -/
theorem Lawful.induction (law : Lawful decode encode Writable) {motive : Bytes → Prop}
    (stop : ∀ bs, decode bs = .ok none → motive bs)
    (bad : ∀ bs e, decode bs = .error e → motive bs)
    (next : ∀ bs frame rest, decode bs = .ok (some (frame, rest)) → motive rest → motive bs)
    (bs : Bytes) : motive bs := by
  induction hn : bs.length using Nat.strongRecOn generalizing bs with
  | _ n ih =>
    subst hn
    match hdecode : decode bs with
    | .error e => exact bad bs e hdecode
    | .ok none => exact stop bs hdecode
    | .ok (some (frame, rest)) =>
      exact next bs frame rest hdecode (ih rest.length (law.length_lt hdecode) rest rfl)

/-! ## Decoding all frames of a buffer

The bound on the number of frames is never met, so decoding stops only where it must. -/

theorem decodeMany_none {bs : Bytes} (h : decode bs = .ok none) (fuel : Nat) :
    decodeMany decode fuel bs = ([], none, bs) := by
  cases fuel with
  | zero => rfl
  | succ fuel => simp only [decodeMany, h]

theorem decodeAll_none {bs : Bytes} (h : decode bs = .ok none) :
    decodeAll decode bs = ([], none, bs) :=
  decodeMany_none h _

theorem decodeAll_error {bs : Bytes} {e : FrameError} (h : decode bs = .error e) :
    decodeAll decode bs = ([], some e, bs) := by
  simp only [decodeAll, decodeMany, h]

/-- Any bound above the number of bytes does. -/
theorem Lawful.decodeMany_eq (law : Lawful decode encode Writable) (bs : Bytes) :
    ∀ fuel, bs.length < fuel → decodeMany decode fuel bs = decodeAll decode bs := by
  induction bs using law.induction with
  | stop bs h => exact fun fuel _ => (decodeMany_none h fuel).trans (decodeAll_none h).symm
  | bad bs e h =>
    intro fuel hfuel
    obtain ⟨fuel, rfl⟩ := Nat.exists_eq_succ_of_ne_zero (Nat.ne_zero_of_lt hfuel)
    simp only [decodeAll, decodeMany, h]
  | next bs frame rest h ih =>
    intro fuel hfuel
    have hlt := law.length_lt h
    obtain ⟨fuel, rfl⟩ := Nat.exists_eq_succ_of_ne_zero (Nat.ne_zero_of_lt hfuel)
    simp only [decodeAll, decodeMany, h]
    rw [ih fuel (by omega), ih bs.length hlt]

/-- A frame in front comes first in the list. -/
theorem Lawful.decodeAll_some (law : Lawful decode encode Writable) {bs rest : Bytes} {frame : φ}
    (h : decode bs = .ok (some (frame, rest))) :
    decodeAll decode bs =
      (frame :: (decodeAll decode rest).1, (decodeAll decode rest).2) := by
  have hrest := law.decodeMany_eq rest bs.length (law.length_lt h)
  rw [decodeAll, decodeMany]
  simp only [h, hrest]

/-- Frames that were decoded before those of another answer. -/
def after (frames : List φ) (answer : List φ × Option FrameError × Bytes) :
    List φ × Option FrameError × Bytes :=
  (frames ++ answer.1, answer.2)

@[simp] theorem after_nil (answer : List φ × Option FrameError × Bytes) :
    after [] answer = answer := rfl

theorem after_append (frames later : List φ) (answer : List φ × Option FrameError × Bytes) :
    after (frames ++ later) answer = after frames (after later answer) := by
  simp only [after, List.append_assoc]

/-- Decoding may stop anywhere: when more bytes come it goes on with what it left. -/
theorem Lawful.decodeAll_append (law : Lawful decode encode Writable) (bs more : Bytes) :
    decodeAll decode (bs ++ more) =
      after (decodeAll decode bs).1 (decodeAll decode ((decodeAll decode bs).2.2 ++ more)) := by
  induction bs using law.induction with
  | stop bs h => rw [decodeAll_none h, after_nil]
  | bad bs e h => rw [decodeAll_error h, after_nil]
  | next bs frame rest h ih =>
    rw [law.decodeAll_some (law.whole h more), law.decodeAll_some h, ih]
    rfl

/-- Decoding stops where there is no whole frame, or at what is no frame. -/
theorem Lawful.decode_left (law : Lawful decode encode Writable) (bs : Bytes) :
    decode (decodeAll decode bs).2.2 =
      ((decodeAll decode bs).2.1.elim (.ok none) .error) := by
  induction bs using law.induction with
  | stop bs h => rw [decodeAll_none h, h]; rfl
  | bad bs e h => rw [decodeAll_error h, h]; rfl
  | next bs frame rest h ih => rw [law.decodeAll_some h, ih]

/-- What decoding left gives no frame when it is decoded again, and the same error. -/
theorem Lawful.decodeAll_left (law : Lawful decode encode Writable) (bs : Bytes) :
    decodeAll decode (decodeAll decode bs).2.2 = ([], (decodeAll decode bs).2) := by
  have hleft := law.decode_left bs
  rcases herror : (decodeAll decode bs).2.1 with _ | e
  · rw [herror] at hleft
    rw [decodeAll_none hleft, ← herror]
  · rw [herror] at hleft
    rw [decodeAll_error hleft, ← herror]

/-- Where decoding stopped at what is no frame, it stops with any more bytes. -/
theorem Lawful.decodeAll_final (law : Lawful decode encode Writable) {bs : Bytes} {e : FrameError}
    (h : (decodeAll decode bs).2.1 = some e) (more : Bytes) :
    decodeAll decode (bs ++ more) =
      ((decodeAll decode bs).1, some e, (decodeAll decode bs).2.2 ++ more) := by
  have hleft := law.decode_left bs
  rw [h] at hleft
  rw [law.decodeAll_append, decodeAll_error (law.broken hleft more), after, List.append_nil]

/-- The bytes of the frames and the bytes left are all bytes there were. -/
theorem Lawful.encode_decodeAll (law : Lawful decode encode Writable) (bs : Bytes) :
    (decodeAll decode bs).1.flatMap encode ++ (decodeAll decode bs).2.2 = bs := by
  induction bs using law.induction with
  | stop bs h => rw [decodeAll_none h]; rfl
  | bad bs e h => rw [decodeAll_error h]; rfl
  | next bs frame rest h ih =>
    rw [law.decodeAll_some h, List.flatMap_cons, List.append_assoc, ih, law.taken h]

/-- Written frames are read back, all of them and nothing else. -/
theorem Lawful.decodeAll_encode (law : Lawful decode encode Writable) {frames : List φ}
    (h : ∀ frame ∈ frames, Writable frame) :
    decodeAll decode (frames.flatMap encode) = (frames, none, []) := by
  induction frames with
  | nil => exact decodeAll_none law.nil
  | cons frame frames ih =>
    rw [List.forall_mem_cons] at h
    rw [List.flatMap_cons, law.decodeAll_some (law.written h.1 _), ih h.2]

/-! ## Decoding chunk by chunk -/

/-- All frames of the answers given chunk after chunk, and the error and the bytes left of the
last one. -/
def gather (answers : List (List φ × Option FrameError × Bytes)) :
    List φ × Option FrameError × Bytes :=
  answers.foldl (fun total answer => after total.1 answer) ([], none, [])

/-- The frames gathered so far stay in front. -/
theorem foldl_after (answers : List (List φ × Option FrameError × Bytes))
    (total : List φ × Option FrameError × Bytes) :
    answers.foldl (fun total answer => after total.1 answer) total =
      after total.1 (answers.foldl (fun total answer => after total.1 answer) ([], total.2)) := by
  induction answers generalizing total with
  | nil => simp [after]
  | cons answer answers ih =>
    rw [List.foldl_cons, List.foldl_cons, ih, ih (after [] answer), after_nil, ← after_append]
    rfl

/-- Chunks that come to a buffer in which no whole frame was left are decoded like their bytes in
one go. -/
theorem Lawful.foldl_decodeChunks (law : Lawful decode encode Writable) (chunks : List Bytes)
    {buffer : Bytes} {e : Option FrameError} (h : decodeAll decode buffer = ([], e, buffer)) :
    (decodeChunks decode chunks buffer).foldl (fun total answer => after total.1 answer)
      ([], e, buffer) = decodeAll decode (buffer ++ chunks.flatten) := by
  induction chunks generalizing buffer e with
  | nil => rw [List.flatten_nil, List.append_nil, h]; rfl
  | cons chunk chunks ih =>
    -- the first chunk gives its frames; the others go on with what it left
    rw [decodeChunks, List.foldl_cons, List.flatten_cons, ← List.append_assoc,
      law.decodeAll_append (buffer ++ chunk), foldl_after, after_nil]
    exact congrArg (after _) (ih (law.decodeAll_left (buffer ++ chunk)))

/-- What a decoder makes of streams. -/
structure Faithful (decode : Bytes → Except FrameError (Option (φ × Bytes))) (encode : φ → Bytes)
    (Writable : φ → Prop) : Prop where
  /-- Written frames are read back, all of them and nothing else. -/
  readBack (frames : List φ) (h : ∀ frame ∈ frames, Writable frame) :
    decodeAll decode (frames.flatMap encode) = (frames, none, [])
  /-- Whatever the bytes are, the bytes of the frames and the bytes left are all of them. -/
  exact (bs : Bytes) :
    (decodeAll decode bs).1.flatMap encode ++ (decodeAll decode bs).2.2 = bs
  /-- Decoding stops only where there is no whole frame, or at what is no frame. -/
  stops (bs : Bytes) :
    decode (decodeAll decode bs).2.2 = (decodeAll decode bs).2.1.elim (.ok none) .error
  /-- However the bytes are cut into chunks, the frames, the error and the bytes left in the end
  are those of decoding them in one go. -/
  blind (chunks : List Bytes) :
    gather (decodeChunks decode chunks []) = decodeAll decode chunks.flatten
  /-- What is no frame stays so, whatever comes behind it. -/
  final (bs more : Bytes) (e : FrameError) (h : (decodeAll decode bs).2.1 = some e) :
    decodeAll decode (bs ++ more) =
      ((decodeAll decode bs).1, some e, (decodeAll decode bs).2.2 ++ more)
  /-- Without a whole frame no byte is taken. -/
  keeps_partial (bs : Bytes) (h : decode bs = .ok none) : decodeAll decode bs = ([], none, bs)
  /-- What is no frame is left as it is. -/
  keeps_broken (bs : Bytes) (e : FrameError) (h : decode bs = .error e) :
    decodeAll decode bs = ([], some e, bs)

theorem Lawful.faithful (law : Lawful decode encode Writable) :
    Faithful decode encode Writable where
  readBack _ h := law.decodeAll_encode h
  exact := law.encode_decodeAll
  stops := law.decode_left
  blind chunks := law.foldl_decodeChunks chunks (decodeAll_none law.nil)
  final _ more _ h := law.decodeAll_final h more
  keeps_partial _ h := decodeAll_none h
  keeps_broken _ _ h := decodeAll_error h

/-! ## Header and payload -/

/-- A slot is written with the two bytes it was read from. -/
theorem littleEndian_slotOf (s₀ s₁ : UInt8) :
    Bytes.littleEndian 2 (slotOf s₀ s₁).toNat = [s₀, s₁] := by
  have hlt : Bytes.ofLittleEndian [s₀, s₁] < 2 ^ 16 := by
    have h₀ := s₀.toNat_lt
    have h₁ := s₁.toNat_lt
    simp only [Bytes.ofLittleEndian]
    omega
  rw [slotOf, UInt16.toNat_ofNat', Nat.mod_eq_of_lt hlt]
  exact Bytes.littleEndian_ofLittleEndian [s₀, s₁]

/-- A payload that was split off has its length and stands in front of the rest. -/
theorem splitPayload_ok {length : Nat} {body payload rest : Bytes}
    (h : splitPayload length body = .ok (some (payload, rest))) :
    payload.length = length ∧ payload ++ rest = body := by
  unfold splitPayload at h
  split at h
  · cases h
  · rw [Except.ok.injEq, Bytes.cut?_eq] at h
    split at h
    · cases h
    · rename_i hlen
      rw [Option.some.injEq, Prod.mk.injEq] at h
      obtain ⟨rfl, rfl⟩ := h
      exact ⟨List.length_take_of_le (by omega), List.take_append_drop _ _⟩

/-- The four bytes of a length and the payload that was split off after them are written as they
were read. -/
theorem length_append_payload {l₀ l₁ l₂ l₃ : UInt8} {body payload rest : Bytes}
    (h : splitPayload (Bytes.ofLittleEndian [l₀, l₁, l₂, l₃]) body = .ok (some (payload, rest))) :
    Bytes.littleEndian 4 payload.length ++ (payload ++ rest) = l₀ :: l₁ :: l₂ :: l₃ :: body := by
  obtain ⟨hlength, rfl⟩ := splitPayload_ok h
  rw [hlength]
  exact congrArg (· ++ (payload ++ rest)) (Bytes.littleEndian_ofLittleEndian [l₀, l₁, l₂, l₃])

/-- A length that is too large stays so when more bytes come. -/
theorem splitPayload_error {length : Nat} {body : Bytes} {e : FrameError}
    (h : splitPayload length body = .error e) (more : Bytes) :
    splitPayload length (body ++ more) = .error e := by
  unfold splitPayload at h ⊢
  split at h
  · rename_i hlarge
    rw [if_pos hlarge, ← h]
  · cases h

end Frame

/-! ## Requests -/

namespace Request

theorem toByte_of_ofByte? {b : UInt8} {kind : RequestKind} (h : RequestKind.ofByte? b = some kind) :
    kind.toByte = b := by
  unfold RequestKind.ofByte? at h
  grind [RequestKind.toByte]

/-- The bytes that are taken are those the request is written with. -/
theorem encode_of_decode {bs rest : Bytes} {r : Request} (h : decode bs = .ok (some (r, rest))) :
    r.encode ++ rest = bs := by
  unfold decode at h
  split at h
  · split at h
    · cases h
    · rename_i hkind
      split at h
      · cases h
      · cases h
      · rename_i payload left hsplit
        rw [Except.ok.injEq, Option.some.injEq, Prod.mk.injEq] at h
        obtain ⟨rfl, rfl⟩ := h
        simp only [encode, toByte_of_ofByte? hkind, Frame.littleEndian_slotOf, List.cons_append,
          List.append_assoc, Frame.length_append_payload hsplit, List.nil_append]
  · cases h

/-- More bytes do not mend what is no request. -/
theorem decode_error_append {bs : Bytes} {e : FrameError} (h : decode bs = .error e)
    (more : Bytes) : decode (bs ++ more) = .error e := by
  unfold decode at h
  split at h
  · simp only [List.cons_append, decode]
    split at h
    · exact h
    · split at h
      · rename_i hsplit
        cases h
        simp only [Frame.splitPayload_error hsplit]
      · cases h
      · cases h
  · cases h

theorem lawful : Frame.Lawful decode encode (fun r => r.payload.length ≤ maxPayload) where
  nil := rfl
  encode_ne_nil _ := List.cons_ne_nil _ _
  written h rest := decode_encode_append h rest
  taken h := encode_of_decode h
  whole h more := decode_append h more
  broken h more := decode_error_append h more

end Request

/-! ## Replies -/

namespace Reply

theorem toByte_of_ofByte? {b : UInt8} {kind : ReplyKind} (h : ReplyKind.ofByte? b = some kind) :
    kind.toByte = b := by
  unfold ReplyKind.ofByte? at h
  grind [ReplyKind.toByte]

/-- What is read from the length on. -/
theorem decodePayload_some {kind : ReplyKind} {slot : UInt16} {writer : UInt8} {bs rest : Bytes}
    {r : Reply} (h : decodePayload kind slot writer bs = .ok (some (r, rest))) :
    r = ⟨kind, slot, writer, r.payload⟩ ∧
      Bytes.littleEndian 4 r.payload.length ++ (r.payload ++ rest) = bs := by
  unfold decodePayload at h
  split at h
  · split at h
    · cases h
    · cases h
    · rename_i payload left hsplit
      rw [Except.ok.injEq, Option.some.injEq, Prod.mk.injEq] at h
      obtain ⟨rfl, rfl⟩ := h
      exact ⟨rfl, Frame.length_append_payload hsplit⟩
  · cases h

theorem decodePayload_error {kind : ReplyKind} {slot : UInt16} {writer : UInt8} {bs : Bytes}
    {e : FrameError} (h : decodePayload kind slot writer bs = .error e) (more : Bytes) :
    decodePayload kind slot writer (bs ++ more) = .error e := by
  unfold decodePayload at h
  split at h
  · simp only [List.cons_append, decodePayload]
    split at h
    · rename_i hsplit
      cases h
      simp only [Frame.splitPayload_error hsplit]
    · cases h
    · cases h
  · cases h

/-- The bytes that are taken are those the reply is written with. -/
theorem encode_of_decode {bs rest : Bytes} {r : Reply} (h : decode bs = .ok (some (r, rest))) :
    r.encode ++ rest = bs := by
  rcases bs with _ | ⟨k, header⟩
  · cases h
  unfold decode at h
  cases hkind : ReplyKind.ofByte? k with
  | none => simp only [hkind, reduceCtorEq] at h
  | some kind =>
    have hbyte := toByte_of_ofByte? hkind
    rcases header with _ | ⟨s₀, _ | ⟨s₁, tail⟩⟩
    · cases kind <;> simp only [hkind, Except.ok.injEq, reduceCtorEq] at h
    · cases kind <;> simp only [hkind, Except.ok.injEq, reduceCtorEq] at h
    · by_cases hpiece : kind = .resultSetPayload
      · -- a piece names its writer
        subst hpiece
        rcases tail with _ | ⟨writer, tail⟩
        · simp only [hkind, Except.ok.injEq, reduceCtorEq] at h
        · simp only [hkind] at h
          obtain ⟨hr, hbytes⟩ := decodePayload_some h
          rw [hr]
          simp only [encode, writerBytes, hbyte, Frame.littleEndian_slotOf, List.cons_append,
            List.append_assoc, List.nil_append, hbytes]
      · have hplain : decodePayload kind (Frame.slotOf s₀ s₁) 0 tail = .ok (some (r, rest)) := by
          cases kind <;> first
            | exact absurd rfl hpiece
            | simpa only [hkind] using h
        have hwriter : r.writerBytes = [] := by
          rw [(decodePayload_some hplain).1]
          cases kind <;> first
            | exact absurd rfl hpiece
            | rfl
        obtain ⟨hr, hbytes⟩ := decodePayload_some hplain
        rw [encode, hwriter, List.nil_append, List.cons_append, List.append_assoc,
          List.append_assoc, hbytes, hr, hbyte, Frame.littleEndian_slotOf]
        rfl

/-- More bytes do not mend what is no reply. -/
theorem decode_error_append {bs : Bytes} {e : FrameError} (h : decode bs = .error e)
    (more : Bytes) : decode (bs ++ more) = .error e := by
  rcases bs with _ | ⟨k, header⟩
  · cases h
  rw [List.cons_append]
  unfold decode at h ⊢
  cases hkind : ReplyKind.ofByte? k with
  | none => simpa only [hkind] using h
  | some kind =>
    -- a length is too large only where the header is whole
    rcases header with _ | ⟨s₀, _ | ⟨s₁, tail⟩⟩
    · cases kind <;> simp only [hkind, reduceCtorEq] at h
    · cases kind <;> simp only [hkind, reduceCtorEq] at h
    · by_cases hpiece : kind = .resultSetPayload
      · subst hpiece
        rcases tail with _ | ⟨writer, tail⟩
        · simp only [hkind, reduceCtorEq] at h
        · simp only [hkind, List.cons_append] at h ⊢
          exact decodePayload_error h more
      · cases kind <;> first
          | exact absurd rfl hpiece
          | (simp only [hkind, List.cons_append] at h ⊢
             exact decodePayload_error h more)

theorem lawful : Frame.Lawful decode encode Writable where
  nil := rfl
  encode_ne_nil _ := List.cons_ne_nil _ _
  written h rest := decode_encode_append h rest
  taken h := encode_of_decode h
  whole h more := decode_append h more
  broken h more := decode_error_append h more

end Reply

/-- Both decoders read streams of frames back exactly, however their bytes are cut into chunks. -/
theorem Frame.codecs_faithful :
    Frame.Faithful Request.decode Request.encode (fun r => r.payload.length ≤ maxPayload) ∧
      Frame.Faithful Reply.decode Reply.encode Reply.Writable :=
  ⟨Request.lawful.faithful, Reply.lawful.faithful⟩

end QueryLink
