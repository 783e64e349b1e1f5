import QueryLink.Promise

/-! # Response boxes

A request in flight owns one response box, whose number travels with the request and comes back
with each reply. A box that is owned by nobody is in the free list, from which boxes are taken in
the order they were put in. -/

namespace QueryLink

/-- Who waits for the replies of a request. -/
inductive Receivers where
  /-- A statement has one reply. -/
  | statement (reply : PromiseId)
  /-- A query has a head reply, which names a result set, and a body reply after it; or one
  reply for both. -/
  | query (head body : PromiseId)
  deriving Repr, DecidableEq

/-- The promises of a request. -/
def Receivers.promises : Receivers → List PromiseId
  | statement reply => [reply]
  | query head body => [head, body]

/-- The owner of a response box. -/
structure Owner where
  receivers : Receivers
  /-- How many replies belong to the request, as far as is known. -/
  expected : Nat := 1
  received : Nat := 0
  deriving Repr, DecidableEq

/-- The response boxes of a session. -/
structure BoxTable where
  boxes : Array (Option Owner)
  /-- The boxes nobody owns, in the order they will be taken. -/
  free : List UInt16
  deriving Repr, DecidableEq

namespace BoxTable

/-- A table of free boxes. -/
def ofCapacity (capacity : Nat) : BoxTable :=
  ⟨Array.replicate capacity none, (List.range capacity).map UInt16.ofNat⟩

/-- How many boxes are owned. -/
def inUse (t : BoxTable) : Nat :=
  t.boxes.size - t.free.length

/-- The owner of a box. -/
def owner? (t : BoxTable) (slot : UInt16) : Option Owner :=
  (t.boxes[slot.toNat]?).join

/-- The same table with another owner of a box. -/
def setOwner (t : BoxTable) (slot : UInt16) (o : Option Owner) : BoxTable :=
  { t with boxes := t.boxes.setIfInBounds slot.toNat o }

/-- Takes a box out of the free list and gives it to a request; `none` when all are owned. -/
def allocate (t : BoxTable) (receivers : Receivers) : Option (UInt16 × BoxTable) :=
  match t.free with
  | [] => none
  | slot :: free => some (slot, { t with free }.setOwner slot (some { receivers }))

/-- Frees a box once all expected replies are there, and says whether it did. -/
def releaseIfDone (t : BoxTable) (slot : UInt16) : Bool × BoxTable :=
  match t.owner? slot with
  | some o =>
    if o.expected ≤ o.received then
      (true, { t.setOwner slot none with free := t.free ++ [slot] })
    else (false, t)
  | none => (false, t)

/-- What a reply does to the owner of a box. -/
structure Arrival where
  /-- The promises it completes. -/
  completes : List PromiseId
  owner : Owner
  deriving Repr, DecidableEq

/-- What a reply means for an owner; `none` when the owner has all replies already. The first
reply of a query is for the head alone when it says that a body follows. -/
def Arrival.of? (o : Owner) (isHead : Bool) : Option Arrival :=
  let received := o.received + 1
  match o.receivers, o.received with
  | .statement reply, 0 => some ⟨[reply], { o with received }⟩
  | .query head body, 0 =>
    if isHead then some ⟨[head], { o with received, expected := 2 }⟩
    else some ⟨[head, body], { o with received }⟩
  | .query _ body, 1 => some ⟨[body], { o with received }⟩
  | _, _ => none

/-- Hands a reply to the owner of a box. The answer is the promises it completes and whether the
box is free now. -/
def push (t : BoxTable) (slot : UInt16) (isHead : Bool) :
    Except ProtocolError (List PromiseId × Bool × BoxTable) :=
  match t.owner? slot with
  | none => .error (.unknownSlot slot)
  | some o =>
    match Arrival.of? o isHead with
    | none => .error (.unknownSlot slot)
    | some arrival =>
      let (freed, t) := (t.setOwner slot (some arrival.owner)).releaseIfDone slot
      .ok (arrival.completes, freed, t)

/-- Takes all boxes from their owners, lowest first. The answer is the promises of the owners. -/
def clear (t : BoxTable) : List PromiseId × BoxTable :=
  let owned := t.boxes.toList.zipIdx.filterMap fun (owner, slot) => owner.map (·, slot)
  (owned.flatMap fun (o, _) => o.receivers.promises,
    ⟨t.boxes.map fun _ => none, t.free ++ owned.map fun (_, slot) => UInt16.ofNat slot⟩)

end BoxTable

end QueryLink
