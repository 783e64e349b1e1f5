import QueryLink.Link
import QueryLink.Value

/-! # Scripts for the far end of a link

A script says step by step what the far end does. `FarEnd.play` plays one step on a link,
`FarEnd.observe` tells what the far end has seen since it was last asked. `Outcome` is what a
step of a script can come to. -/

namespace QueryLink.Script

/-- Why a step of a script can not be taken. -/
inductive Refusal where
  /-- Nobody holds the session. -/
  | noHandle
  | noResponse
  | noResultSet
  /-- The number stands for no kind of frame. -/
  | noSuchKind
  deriving Repr, DecidableEq

/-- What a step of a script comes to. -/
inductive Outcome where
  | done
  /-- Nothing to be had yet. -/
  | pending
  /-- There is nothing, and never will be. -/
  | nothing
  /-- A stream is over. -/
  | ended
  | flag (b : Bool)
  | number (n : Nat)
  /-- A number of 64 bits. -/
  | wide (n : UInt64)
  | text (s : String)
  | bytes (b : Bytes)
  | value (v : Value)
  | request (r : Request)
  | reply (r : Reply)
  /-- The far end could not send a frame, there was no room. -/
  | full
  /-- There is nobody at the far end to do it. -/
  | gone
  | failed (e : Error)
  | refused (r : Refusal)
  deriving Repr

/-- The outcome of something that can fail. -/
def Outcome.ofResult {ε α : Type} (cause : ε → Cause) (f : α → Outcome) :
    Except ε α → Outcome
  | .ok a => f a
  | .error e => .failed ⟨cause e, ""⟩

/-- The outcome of something that may not have come to an end. -/
def Outcome.ofPoll {ε α : Type} (cause : ε → Cause) (f : α → Outcome) :
    Option (Except ε α) → Outcome
  | none => .pending
  | some r => .ofResult cause f r

/-- One step of the far end. -/
inductive FarEnd where
  /-- Send a reply, in reads of a size if one is given. -/
  | reply (frame : Option Reply) (size : Option Nat)
  /-- Send bytes, whatever they are. -/
  | raw (bytes : Bytes) (size : Option Nat)
  | endOfStream
  | readError
  /-- From now on treat writing, flushing and shutting down like this. -/
  | behave (accepts : Option (Nat → List Accept)) (onFlush onShutdown : Option Finish)
  | takeRequest
  | dropEndpoint
  | dropResponder

namespace FarEnd

/-- The write calls of an attempt in which each call takes at most `n` bytes. -/
def upTo (n total : Nat) : List Accept :=
  List.replicate (total / max n 1 + 1) (.upTo n)

/-- Plays a step on a byte stream. A step that has no meaning there does nothing. -/
def playStream (l : StreamLink) : FarEnd → Outcome × StreamLink
  | reply none _ => (.refused .noSuchKind, l)
  | reply (some r) size => (.done, l.deliver r.encode size)
  | raw bytes size => (.done, l.deliver bytes size)
  | endOfStream => (.done, { l with ending := some .endOfStream })
  | readError => (.done, { l with ending := some .reset })
  | behave accepts onFlush onShutdown =>
    (.done,
      { l with
        accepts := accepts.getD l.accepts
        onFlush := onFlush.getD l.onFlush
        onShutdown := onShutdown.getD l.onShutdown })
  | takeRequest => (.done, l)
  | dropEndpoint => (.done, l)
  | dropResponder => (.done, l)

/-- Plays a step on an in-process link; the flag says whether a client that waits for a reply
notices. -/
def playLocal (l : LocalLink) : FarEnd → Outcome × Bool × LocalLink
  | reply none _ => (.refused .noSuchKind, false, l)
  | reply (some r) _ =>
    match l.reply r with
    | (.delivered, l) => (.done, true, l)
    | (.full, l) => (.full, false, l)
    | (.broken, l) => (.failed ⟨.link .brokenPipe, ""⟩, false, l)
    | (.gone, l) => (.gone, false, l)
  | takeRequest =>
    if !l.endpoint then (.gone, false, l)
    else match l.takeRequest with
      | (none, l) => (.pending, false, l)
      | (some none, l) => (.nothing, false, l)
      | (some (some r), l) => (.request r, false, l)
  | endOfStream =>
    let noticed := l.endpoint || l.responder
    (.done, noticed, l.dropEndpoint.dropResponder)
  | dropEndpoint => (.done, l.endpoint && !l.responder, l.dropEndpoint)
  | dropResponder => (.done, l.responder && !l.endpoint, l.dropResponder)
  | raw _ _ => (.done, false, l)
  | readError => (.done, false, l)
  | behave _ _ _ => (.done, false, l)

/-- Plays a step on a link; the flag says whether a client that waits for the far end notices. -/
def play (step : FarEnd) : Link → Outcome × Bool × Link
  | .stream l => let (o, l) := playStream l step; (o, true, .stream l)
  | .inProcess l => let (o, noticed, l) := playLocal l step; (o, noticed, .inProcess l)

end FarEnd

/-! ## What the far end sees -/

/-- Something the far end sees. -/
inductive Sight where
  | request (r : Request)
  /-- That many bytes came after the last whole request. -/
  | partialRequest (length : Nat)
  /-- The client shut its direction down. -/
  | shutdown
  /-- The client let go of the stream. -/
  | dropped
  /-- No more requests will come. -/
  | ended
  deriving Repr, DecidableEq

/-- What the far end remembers of what it saw. -/
structure Observer where
  /-- Bytes that are no whole request yet. -/
  undecoded : Bytes := []
  /-- Whether it saw the end. -/
  sawEnd : Bool := false
  deriving Repr, DecidableEq

namespace Observer

/-- What the far end of a byte stream sees. -/
def lookStream (o : Observer) (l : StreamLink) : List Sight × Observer × StreamLink :=
  let (requests, _, undecoded) := Frame.decodeAll Request.decode (o.undecoded ++ l.accepted)
  let cut := if undecoded = [] then [] else [.partialRequest undecoded.length]
  let shutdown := if l.shutdowns = 0 then [] else [.shutdown]
  let dropped := if l.released && !o.sawEnd then [.dropped] else []
  (requests.map .request ++ cut ++ shutdown ++ dropped,
    ⟨undecoded, o.sawEnd || l.released⟩, { l with accepted := [], shutdowns := 0 })

/-- What the endpoint of an in-process link sees, if there is one. -/
def lookLocal (o : Observer) (l : LocalLink) : List Sight × Observer × LocalLink :=
  if !l.endpoint then ([], o, l)
  else
    let ended := if !l.sending && !o.sawEnd then [.ended] else []
    (l.requests.map .request ++ ended, { o with sawEnd := o.sawEnd || !l.sending },
      { l with requests := [] })

/-- What the far end has seen since it was last asked. -/
def look (o : Observer) : Link → List Sight × Observer × Link
  | .stream l => let (sights, o, l) := o.lookStream l; (sights, o, .stream l)
  | .inProcess l => let (sights, o, l) := o.lookLocal l; (sights, o, .inProcess l)

end Observer

/-! ## Links alone -/

/-- One step of a script for a link without a session. -/
inductive LinkStep where
  | farEnd (step : FarEnd)
  | send (frame : Option Request)
  | flush
  | shutdown
  | receive

/-- What came of a step: its outcome, the bytes that were written in it and how often the stream
was shut down in it. -/
structure LinkReport where
  outcome : Outcome
  written : Bytes
  shutdowns : Nat

namespace LinkStep

/-- The outcome of waiting for a reply. -/
def received : Option (Except Cause (Option Reply)) → Outcome :=
  .ofPoll id fun
    | some r => .reply r
    | none => .nothing

/-- Plays a step. -/
def play (step : LinkStep) (l : Link) : Outcome × Link :=
  match step with
  | farEnd step => let (o, _, l) := step.play l; (o, l)
  | send none => (.refused .noSuchKind, l)
  | send (some r) => (.done, l.send r)
  | flush => let (r, l) := l.flush; (.ofPoll .link (fun _ => .done) r, l)
  | shutdown => let (r, l) := l.shutdown; (.ofPoll .link (fun _ => .done) r, l)
  | receive => let (r, l) := l.receive; (received r, l)

/-- Plays a script and reports on each step. -/
def run : List LinkStep → Link → List LinkReport
  | [], _ => []
  | step :: steps, l =>
    match step.play l with
    | (outcome, .stream l) =>
      ⟨outcome, l.accepted, l.shutdowns⟩ ::
        run steps (.stream { l with accepted := [], shutdowns := 0 })
    | (outcome, .inProcess l) => ⟨outcome, [], 0⟩ :: run steps (.inProcess l)

end LinkStep

end QueryLink.Script
