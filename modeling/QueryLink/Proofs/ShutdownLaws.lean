import QueryLink.Proofs.CursorSteps
import QueryLink.Proofs.PromiseLaws

/-!
# What shutting down does

The first shutdown of an exchange takes all boxes from their owners and all requests out of the
line, fails the promises of both, ends all result sets and forgets them. Later ones do nothing.

## Key results

- `BoxTable.mem_clear`, `BoxTable.owner?_clear`: no owner is passed over, and none is left
- `Exchange.shutdown_of_closed`: only the first shutdown does anything
- `Exchange.promiseState_shutdown`: whose promises fail
- `Exchange.emptied_shutdown`: what is left
- `Exchange.Emptied.next_ne_none`: no consumer waits for anything then
-/

namespace QueryLink

namespace BoxTable

variable {t : BoxTable} {slot : UInt16} {o : Owner}

/-- The promises of each owner are among those that are handed out. -/
theorem mem_clear (howner : t.owner? slot = some o) {id : PromiseId}
    (hid : id ∈ o.receivers.promises) : id ∈ t.clear.1 := by
  have hbox : t.boxes[slot.toNat]? = some (some o) := by
    unfold owner? at howner
    exact Option.join_eq_some_iff.1 howner
  have hmem : (some o, slot.toNat) ∈ t.boxes.toList.zipIdx :=
    List.mem_zipIdx_iff_getElem?.2 (by rw [Array.getElem?_toList, hbox])
  exact List.mem_flatMap.2 ⟨(o, slot.toNat), List.mem_filterMap.2 ⟨_, hmem, rfl⟩, hid⟩

/-- Nobody owns a box any more. -/
theorem owner?_clear (t : BoxTable) (slot : UInt16) : t.clear.2.owner? slot = none := by
  simp only [owner?, clear, Array.getElem?_map]
  cases t.boxes[slot.toNat]? <;> rfl

end BoxTable

namespace Exchange

variable {x : Exchange} {outage : Outage}

/-- The exchange is closed, and nothing is in flight. -/
structure Emptied (x : Exchange) : Prop where
  closed : x.closed = true
  boxes : ∀ slot, x.boxes.owner? slot = none
  line : x.waitlist.line = []
  registry : x.catalog.registry = (.empty, .empty, [], [])

theorem Emptied.alike {x' : Exchange} (h : x.Emptied) (halike : x.Alike x') : x'.Emptied := by
  obtain ⟨_, _, rfl⟩ := halike
  exact ⟨h.closed, h.boxes, h.line, h.registry⟩

theorem shutdown_of_closed (h : x.closed = true) (outage : Outage) : x.shutdown outage = x := by
  rw [shutdown, if_pos h]

/-- The promises that fail when an exchange is shut down: those of owners and in line. -/
def inFlight (x : Exchange) : List PromiseId :=
  x.boxes.clear.1 ++ x.waitlist.clear.1

private theorem settleAll_append (x : Exchange) (f : Promise.State → Promise.State)
    (ids more : List PromiseId) :
    x.settleAll f (ids ++ more) = (x.settleAll f ids).settleAll f more :=
  List.foldl_append

/-- What the first shutdown makes of an exchange. -/
private theorem shutdown_eq (h : x.closed = false) (outage : Outage) :
    ∃ promises roused, promises.size = x.promises.size ∧
      (∀ id, Exchange.promiseState { x with promises } id =
        if id ∈ x.inFlight then (x.promiseState id).fail outage else x.promiseState id) ∧
      x.shutdown outage = { x with
        closed := true, boxes := x.boxes.clear.2, waitlist := x.waitlist.clear.2
        catalog := x.catalog.terminate outage, promises, roused } := by
  obtain ⟨promises, roused, hsize, hframe⟩ := Exchange.settleAll_frame
    { x with closed := true, boxes := x.boxes.clear.2, waitlist := x.waitlist.clear.2 }
    (.fail outage) x.inFlight
  have hstate := Exchange.promiseState_fail
    { x with closed := true, boxes := x.boxes.clear.2, waitlist := x.waitlist.clear.2 }
    outage x.inFlight
  rw [hframe] at hstate
  refine ⟨promises, roused, hsize, hstate, ?_⟩
  -- owners fail first, then those in line
  rw [inFlight, settleAll_append] at hframe
  rw [shutdown, if_neg (by simp [h])]
  dsimp only
  rw [hframe]

/-- Shutting down leaves nothing in flight. -/
theorem emptied_shutdown (h : x.closed = false) (outage : Outage) :
    (x.shutdown outage).Emptied := by
  obtain ⟨promises, roused, -, -, heq⟩ := shutdown_eq h outage
  rw [heq]
  exact ⟨rfl, x.boxes.owner?_clear, rfl, rfl⟩

/-- It fails what was in flight, unless it was done. -/
theorem promiseState_shutdown (h : x.closed = false) (outage : Outage) (id : PromiseId) :
    (x.shutdown outage).promiseState id =
      if id ∈ x.inFlight then (x.promiseState id).fail outage else x.promiseState id := by
  obtain ⟨promises, roused, -, hstate, heq⟩ := shutdown_eq h outage
  rw [heq]
  exact hstate id

theorem size_shutdown (x : Exchange) (outage : Outage) :
    (x.shutdown outage).promises.size = x.promises.size := by
  cases h : x.closed with
  | true => rw [shutdown_of_closed h]
  | false =>
    obtain ⟨promises, roused, hsize, -, heq⟩ := shutdown_eq h outage
    rw [heq]
    exact hsize

theorem catalog_shutdown (h : x.closed = false) (outage : Outage) :
    (x.shutdown outage).catalog = x.catalog.terminate outage := by
  obtain ⟨promises, roused, -, -, heq⟩ := shutdown_eq h outage
  rw [heq]

/-! ## Nothing in flight -/

/-- Those who wait in line are failed, -/
theorem mem_inFlight_of_waits {w : WaitingRequest} (hw : w ∈ x.waitlist.line) {id : PromiseId}
    (hid : id ∈ w.receivers.promises) : id ∈ x.inFlight :=
  List.mem_append_right _ (List.mem_flatMap.2 ⟨w, hw, hid⟩)

/-- and so are those who own a box. -/
theorem mem_inFlight_of_owns {slot : UInt16} {o : Owner} (howner : x.boxes.owner? slot = some o)
    {id : PromiseId} (hid : id ∈ o.receivers.promises) : id ∈ x.inFlight :=
  List.mem_append_left _ (BoxTable.mem_clear howner hid)

/-- A closed exchange accepts no requests. -/
theorem submit_of_closed (h : x.closed = true) (ask : Ask) (payload : Bytes) :
    x.submit ask payload = (.error .alreadyClosed, x) := by
  rw [submit, if_pos h]

/-- A cursor waits for nothing when no result sets are left. -/
theorem Emptied.next_ne_none (h : x.Emptied) (c : Cursor) : (c.next x).1 ≠ none := by
  unfold Cursor.next
  split
  · simp
  · split
    · simp
    · simp
    · rename_i id hsettled hfeed
      split
      · simp
      · simp
      · simp
      · simp
      · rename_i x' htake
        -- there is no event, and there never will be one
        obtain ⟨catalog, parked, roused, hread, heq⟩ := Cursor.takeEvent_read x id
        rw [htake] at heq
        dsimp only at heq
        have hentries : x'.catalog.entries = .empty := by
          rw [heq]
          exact congrArg Prod.fst (hread.registry.trans h.registry)
        have hunfed : x'.catalog.isFed id = false := by
          rw [Catalog.isFed, hentries]
          rfl
        rw [if_neg (by simp [hunfed])]
        simp

end Exchange

end QueryLink
