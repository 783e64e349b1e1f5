/-! # Addresses of servers

A server is addressed by `tcp://host:port`. `Address.parse` reads one. Only the first `://` and
the first `:` after it count; the pieces are cut before they are checked. -/

namespace QueryLink

/-- Where a server listens. -/
structure Address where
  host : String
  port : UInt16
  deriving Repr, DecidableEq

/-- Why a text is no address. -/
inductive AddressError where
  | hostMissing
  | portMissing
  | unsupportedScheme (scheme : String)
  | invalidPort
  deriving Repr, DecidableEq

namespace AddressError

/-- The wording of the reason alone. -/
def reason : AddressError → String
  | hostMissing => "host missing"
  | portMissing => "port missing"
  | unsupportedScheme scheme => "unsupported scheme `" ++ scheme ++ "`"
  | invalidPort => "invalid port"

/-- The full wording. -/
def message (e : AddressError) : String :=
  "failed to parse url: " ++ e.reason

end AddressError

/-- What comes before and after the first `mark` in `cs`. -/
def splitAtMark? (mark : List Char) : List Char → Option (List Char × List Char)
  | [] => if mark.isEmpty then some ([], []) else none
  | c :: cs =>
    if mark.isPrefixOf (c :: cs) then some ([], (c :: cs).drop mark.length)
    else (splitAtMark? mark cs).map fun (before, after) => (c :: before, after)

namespace Numeral

/-- The value of an ASCII digit. -/
def digit? (c : Char) : Option Nat :=
  if '0' ≤ c ∧ c ≤ '9' then some (c.toNat - '0'.toNat) else none

/-- The number of a list of digits that continues the number `n`. -/
def digitsFrom? (n : Nat) : List Char → Option Nat
  | [] => some n
  | c :: cs =>
    match digit? c with
    | some d => digitsFrom? (10 * n + d) cs
    | none => none

/-- The number of at least one digit. -/
def digits? (cs : List Char) : Option Nat :=
  if cs.isEmpty then none else digitsFrom? 0 cs

/-- The number, below `bound`, of some digits with an optional plus sign before them. -/
def parse? (bound : Nat) (cs : List Char) : Option Nat :=
  let digits := match cs with
    | '+' :: rest => rest
    | _ => cs
  match digits? digits with
  | some n => if n < bound then some n else none
  | none => none

end Numeral

namespace Address

/-- Reads an address. The reasons to refuse one are looked at in this order: no `://`, no `:`
after it, the scheme, an empty host, the port. -/
def parse (url : String) : Except AddressError Address :=
  match splitAtMark? [':', '/', '/'] url.toList with
  | none => .error .hostMissing
  | some (scheme, rest) =>
    match splitAtMark? [':'] rest with
    | none => .error .portMissing
    | some (host, port) =>
      if scheme ≠ ['t', 'c', 'p'] then .error (.unsupportedScheme (String.ofList scheme))
      else if host.isEmpty then .error .hostMissing
      else match Numeral.parse? UInt16.size port with
        | none => .error .invalidPort
        | some n => .ok ⟨String.ofList host, UInt16.ofNat n⟩

end Address

end QueryLink
