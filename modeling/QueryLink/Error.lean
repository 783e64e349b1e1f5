import QueryLink.Address
import QueryLink.Frame
import QueryLink.Value.Error

/-! # Errors of a session

An `Error` is a cause and, when somebody gave one, the context it arose in. `Cause.message` and
`Error.message` are the wordings. -/

namespace QueryLink

/-- Ways a caller can misuse a session. -/
inductive Misuse where
  | requestTooLarge
  | emptyName
  | nameTaken
  | alreadyConnected
  | notConnected
  deriving Repr, DecidableEq

/-- The wording of a misuse. -/
def Misuse.message : Misuse → String
  | requestTooLarge => "request payload too large"
  | emptyName => "result set name is empty"
  | nameTaken => "result set already connected"
  | alreadyConnected => "result set wire already connected"
  | notConnected => "result set wire not connected"

/-- Ways a link can fail. -/
inductive LinkError where
  | brokenPipe
  | writeZero
  | unexpectedEnd
  | connectionReset
  deriving Repr, DecidableEq

/-- The wording of a link failure. -/
def LinkError.message : LinkError → String
  | brokenPipe => "broken pipe"
  | writeZero => "write zero"
  | unexpectedEnd => "unexpected end of file"
  | connectionReset => "connection reset"

/-- Ways a server can break the rules of the conversation. -/
inductive ProtocolError where
  /-- The bytes are no frame. -/
  | frame (e : FrameError)
  /-- A reply came for a response box that nobody owns. -/
  | unknownSlot (slot : UInt16)
  /-- A frame came where it has no place. -/
  | unexpected (found : ReplyKind) (phase : String)
  /-- The server refused the session. -/
  | refused (reason : String)
  deriving Repr, DecidableEq

/-- The wording of a protocol error. -/
def ProtocolError.message : ProtocolError → String
  | frame (.unknownKind byte) => s!"unknown frame kind `{byte.toNat}`"
  | frame (.tooLarge length) => s!"frame of {length} bytes exceed maximum payload length"
  | unknownSlot slot => s!"response for free response box `{slot.toNat}`"
  | unexpected found phase => "unexpected frame `" ++ found.name ++ "` in `" ++ phase ++ "`"
  | refused reason => "session refused: " ++ reason

/-- The printable form of a reason that may be any bytes: visible ASCII characters and blanks
stand for themselves, other bytes for their two hexadecimal digits. -/
def printable (bytes : Bytes) : String :=
  bytes.foldl
    (fun s b =>
      if 0x20 ≤ b && b ≤ 0x7e then s.push (Char.ofNat b.toNat) else s ++ "\\x" ++ hexByte b) ""

/-- Why an operation failed. -/
inductive Cause where
  /-- It was tried on a closed session, response or result set. -/
  | alreadyClosed
  /-- Every response box is owned and no more requests may wait. -/
  | backpressure
  /-- A deadline passed. -/
  | timedOut
  /-- The server went away. -/
  | serverCrashed
  | misuse (what : Misuse)
  | link (e : LinkError)
  | value (e : ValueError)
  | protocol (e : ProtocolError)
  | address (e : AddressError)
  deriving Repr, DecidableEq

/-- The wording of a cause. -/
def Cause.message : Cause → String
  | alreadyClosed => "already closed"
  | backpressure => "pending requests exceeded response boxes"
  | timedOut => "response timed out"
  | serverCrashed => "server crashed"
  | misuse what => "invalid argument: " ++ what.message
  | link e => e.message
  | value e => e.message
  | protocol e => e.message
  | address e => e.message

/-- A cause, and the context it arose in unless that is empty. -/
structure Error where
  cause : Cause
  context : String := ""
  deriving Repr, DecidableEq

namespace Error

/-- The same error in a context. -/
def withContext (e : Error) (context : String) : Error := { e with context }

/-- The wording of an error. -/
def message (e : Error) : String :=
  if e.context.isEmpty then e.cause.message else e.context ++ ": " ++ e.cause.message

/-- Whether something was closed. -/
def isClosed (e : Error) : Bool := e.cause == .alreadyClosed

/-- Whether a deadline passed. -/
def isTimeout (e : Error) : Bool := e.cause == .timedOut

end Error

/-- The text between quotes that stands for a message where errors are inspected. -/
def quoted (message : String) : String := "\"" ++ message ++ "\""

end QueryLink
