import QueryLink.Address

/-! # Settings of a session

Where to connect, how to introduce oneself, and three limits. The ranges of the limits are part
of the type; the setters bring any number into range. -/

namespace QueryLink

/-- The settings of a session. -/
structure Settings where
  host : String := "localhost"
  port : UInt16 := 12345
  /-- Sent in the handshake. -/
  label : String := "sqlwire"
  /-- How many requests may be in flight. -/
  responseBoxes : Nat := 16
  /-- How many requests may wait for a response box. -/
  pendingLimit : Nat := 256
  /-- How many records of a result set are held for its consumer before reading stops. -/
  resultSetBuffer : Nat := 64
  responseBoxes_pos : 1 ≤ responseBoxes := by decide
  responseBoxes_le : responseBoxes ≤ 65535 := by decide
  resultSetBuffer_pos : 1 ≤ resultSetBuffer := by decide

namespace Settings

/-- The same settings with another count of response boxes, brought into range. -/
def withResponseBoxes (s : Settings) (n : Nat) : Settings :=
  { s with
    responseBoxes := max 1 (min n 65535)
    responseBoxes_pos := by omega
    responseBoxes_le := by omega }

/-- The same settings with another limit of waiting requests. -/
def withPendingLimit (s : Settings) (n : Nat) : Settings :=
  { s with pendingLimit := n }

/-- The same settings with another count of held records, at least one. -/
def withResultSetBuffer (s : Settings) (n : Nat) : Settings :=
  { s with resultSetBuffer := max n 1, resultSetBuffer_pos := by omega }

/-- The same settings with another label. -/
def withLabel (s : Settings) (label : String) : Settings :=
  { s with label }

/-- The same settings for another server. -/
def withAddress (s : Settings) (a : Address) : Settings :=
  { s with host := a.host, port := a.port }

/-- The default settings for the server at `url`. -/
def ofUrl (url : String) : Except AddressError Settings :=
  (Address.parse url).map (withAddress {})

end Settings

/-- What an environment says about a session; an absent variable, and one that is no text, is
`none`. -/
structure Environment where
  url : Option String := none
  host : Option String := none
  port : Option String := none
  responseBoxes : Option String := none
  pendingLimit : Option String := none
  resultSetBuffer : Option String := none
  deriving Repr, DecidableEq

namespace Environment

/-- The limit that a variable gives, when it is a number of 64 bits. -/
def limit? (text : Option String) : Option Nat :=
  text.bind fun s => Numeral.parse? UInt64.size s.toList

/-- The settings an environment asks for. Host and port fall back to those of the url, if that
is an address, and then to the defaults; what is no number counts as absent. -/
def settings (e : Environment) : Settings :=
  let base : Settings := {}
  let fallback := (e.url.bind fun url => (Address.parse url).toOption).getD ⟨base.host, base.port⟩
  let port := (e.port.bind fun s => Numeral.parse? UInt16.size s.toList).map UInt16.ofNat
  base
    |>.withAddress ⟨e.host.getD fallback.host, port.getD fallback.port⟩
    |>.withResponseBoxes ((limit? e.responseBoxes).getD base.responseBoxes)
    |>.withPendingLimit ((limit? e.pendingLimit).getD base.pendingLimit)
    |>.withResultSetBuffer ((limit? e.resultSetBuffer).getD base.resultSetBuffer)

end Environment

end QueryLink
