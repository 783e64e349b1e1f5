import QueryLink.Bytes

/-! # Frames

Client and server talk in frames: a kind, a slot, a length and that many bytes of payload. The
slot is the number of a response box in session frames and the index of a result set in result
set frames. A reply that carries a piece of a result set also names the writer it came from.

```text
request  | kind 1 | slot 2 |          | length 4 | payload |
reply    | kind 1 | slot 2 | writer 1 | length 4 | payload |   writer: result set pieces only
```

Numbers are least significant byte first. `Request.decode` and `Reply.decode` take one frame
from the front of a buffer; a frame that is not whole yet and a bad frame take nothing. -/

namespace QueryLink

/-- The longest payload of a frame; longer ones are taken for a corrupted stream. -/
def maxPayload : Nat := 64 * 1024 * 1024

/-- What a client sends. -/
inductive RequestKind where
  /-- Opens the session with a label. -/
  | hello
  /-- A request to a service. -/
  | payload
  /-- Confirms the end of a result set. -/
  | byeOk
  deriving Repr, DecidableEq

/-- What a server sends. -/
inductive ReplyKind where
  /-- The only reply of a statement, or the last one of a query. -/
  | payload
  /-- A piece of a result set. -/
  | resultSetPayload
  /-- Accepts the session. -/
  | helloOk
  /-- Refuses the session. -/
  | helloNg
  /-- Announces a result set by name and index. -/
  | resultSetHello
  /-- Ends a result set. -/
  | resultSetBye
  /-- The first of two replies of a query. -/
  | bodyHead
  deriving Repr, DecidableEq

namespace RequestKind

/-- The byte of a kind. -/
def toByte : RequestKind → UInt8
  | hello => 1
  | payload => 2
  | byeOk => 3

/-- The kind of a byte. -/
def ofByte? (b : UInt8) : Option RequestKind :=
  if b = 1 then some hello
  else if b = 2 then some payload
  else if b = 3 then some byeOk
  else none

/-- The name of a kind. -/
def name : RequestKind → String
  | hello => "SessionHello"
  | payload => "SessionPayload"
  | byeOk => "ResultSetByeOk"

end RequestKind

namespace ReplyKind

/-- The byte of a kind. -/
def toByte : ReplyKind → UInt8
  | payload => 1
  | resultSetPayload => 2
  | helloOk => 3
  | helloNg => 4
  | resultSetHello => 5
  | resultSetBye => 6
  | bodyHead => 7

/-- The kind of a byte. -/
def ofByte? (b : UInt8) : Option ReplyKind :=
  if b = 1 then some payload
  else if b = 2 then some resultSetPayload
  else if b = 3 then some helloOk
  else if b = 4 then some helloNg
  else if b = 5 then some resultSetHello
  else if b = 6 then some resultSetBye
  else if b = 7 then some bodyHead
  else none

/-- The name of a kind in messages. -/
def name : ReplyKind → String
  | payload => "SessionPayload"
  | resultSetPayload => "ResultSetPayload"
  | helloOk => "HelloOk"
  | helloNg => "HelloNg"
  | resultSetHello => "ResultSetHello"
  | resultSetBye => "ResultSetBye"
  | bodyHead => "SessionBodyHead"

end ReplyKind

/-- A frame from client to server. -/
structure Request where
  kind : RequestKind
  slot : UInt16
  payload : Bytes
  deriving Repr, DecidableEq

/-- A frame from server to client. -/
structure Reply where
  kind : ReplyKind
  slot : UInt16
  /-- Who wrote a piece of a result set; zero in other frames. -/
  writer : UInt8
  payload : Bytes
  deriving Repr, DecidableEq

/-- Why bytes are no frame. -/
inductive FrameError where
  | unknownKind (byte : UInt8)
  | tooLarge (length : Nat)
  deriving Repr, DecidableEq

namespace Frame

/-- The payload of the given length and what comes after it, `none` when it is not whole. -/
def splitPayload (length : Nat) (body : Bytes) : Except FrameError (Option (Bytes × Bytes)) :=
  if maxPayload < length then .error (.tooLarge length)
  else .ok (Bytes.cut? length body)

/-- The slot of two bytes. -/
def slotOf (s₀ s₁ : UInt8) : UInt16 :=
  UInt16.ofNat (Bytes.ofLittleEndian [s₀, s₁])

end Frame

namespace Request

/-- The bytes of a frame. -/
def encode (r : Request) : Bytes :=
  r.kind.toByte :: (Bytes.littleEndian 2 r.slot.toNat
    ++ (Bytes.littleEndian 4 r.payload.length ++ r.payload))

/-- The frame at the front and what comes after it. A header is looked at once it is whole. -/
def decode : Bytes → Except FrameError (Option (Request × Bytes))
  | k :: s₀ :: s₁ :: l₀ :: l₁ :: l₂ :: l₃ :: body =>
    match RequestKind.ofByte? k with
    | none => .error (.unknownKind k)
    | some kind =>
      match Frame.splitPayload (Bytes.ofLittleEndian [l₀, l₁, l₂, l₃]) body with
      | .error e => .error e
      | .ok none => .ok none
      | .ok (some (payload, rest)) => .ok (some (⟨kind, Frame.slotOf s₀ s₁, payload⟩, rest))
  | _ => .ok none

end Request

namespace Reply

/-- A frame of the given kind with no writer. -/
def plain (kind : ReplyKind) (slot : UInt16) (payload : Bytes) : Reply :=
  ⟨kind, slot, 0, payload⟩

/-- A piece of the result set `index`; an empty one ends a record. -/
def piece (index : UInt16) (writer : UInt8) (payload : Bytes) : Reply :=
  ⟨.resultSetPayload, index, writer, payload⟩

/-- The bytes between slot and length. -/
def writerBytes (r : Reply) : Bytes :=
  match r.kind with
  | .resultSetPayload => [r.writer]
  | _ => []

/-- The bytes of a frame. -/
def encode (r : Reply) : Bytes :=
  r.kind.toByte :: (Bytes.littleEndian 2 r.slot.toNat
    ++ (r.writerBytes ++ (Bytes.littleEndian 4 r.payload.length ++ r.payload)))

/-- The frame whose kind, slot and writer are known and what comes after it; `rest` starts with
the length. -/
def decodePayload (kind : ReplyKind) (slot : UInt16) (writer : UInt8) :
    Bytes → Except FrameError (Option (Reply × Bytes))
  | l₀ :: l₁ :: l₂ :: l₃ :: body =>
    match Frame.splitPayload (Bytes.ofLittleEndian [l₀, l₁, l₂, l₃]) body with
    | .error e => .error e
    | .ok none => .ok none
    | .ok (some (payload, rest)) => .ok (some (⟨kind, slot, writer, payload⟩, rest))
  | _ => .ok none

/-- The frame at the front and what comes after it. An unknown kind is noticed on the first
byte. -/
def decode : Bytes → Except FrameError (Option (Reply × Bytes))
  | [] => .ok none
  | k :: header =>
    match ReplyKind.ofByte? k with
    | none => .error (.unknownKind k)
    | some .resultSetPayload =>
      match header with
      | s₀ :: s₁ :: writer :: rest =>
        decodePayload .resultSetPayload (Frame.slotOf s₀ s₁) writer rest
      | _ => .ok none
    | some kind =>
      match header with
      | s₀ :: s₁ :: rest => decodePayload kind (Frame.slotOf s₀ s₁) 0 rest
      | _ => .ok none

end Reply

namespace Frame

/-- Takes frames from the front until none is whole or one is bad, but no more than `fuel`. The
answer is the frames, the error if there was one, and the bytes left. -/
def decodeMany {φ : Type} (decode : Bytes → Except FrameError (Option (φ × Bytes))) :
    (fuel : Nat) → Bytes → List φ × Option FrameError × Bytes
  | 0, bs => ([], none, bs)
  | fuel + 1, bs =>
    match decode bs with
    | .error e => ([], some e, bs)
    | .ok none => ([], none, bs)
    | .ok (some (frame, rest)) =>
      let (frames, e, left) := decodeMany decode fuel rest
      (frame :: frames, e, left)

/-- Takes all whole frames from the front of a buffer. -/
def decodeAll {φ : Type} (decode : Bytes → Except FrameError (Option (φ × Bytes))) (bs : Bytes) :
    List φ × Option FrameError × Bytes :=
  decodeMany decode (bs.length + 1) bs

/-- Puts chunk after chunk at the end of a buffer and each time takes all whole frames from the
front. There is one answer for each chunk. -/
def decodeChunks {φ : Type} (decode : Bytes → Except FrameError (Option (φ × Bytes))) :
    (chunks : List Bytes) → (buffer : Bytes) → List (List φ × Option FrameError × Bytes)
  | [], _ => []
  | chunk :: chunks, buffer =>
    let (frames, e, left) := decodeAll decode (buffer ++ chunk)
    (frames, e, left) :: decodeChunks decode chunks left

end Frame

end QueryLink
