import QueryLink.Proofs.ExchangeLaws

/-!
# What becomes of a promise

The session may complete or fail a promise while it is pending; its caller may close it or take
what it holds. So a promise that is done stays done, a failure keeps its cause, and a promise that
was not completed can only be closed.

## Key results

- `promiseState_settle`, `promiseState_settleAll`: which promises settling changes, and how
- `promiseState_addPromises`: new promises are pending, the others stay as they are
- `touched_settle_close`, `touched_take`, `touched_await`: what callers do with promises
-/

namespace QueryLink

namespace Promise.State

/-- What the caller of a promise may make of its state: he closes it, or takes what it holds. -/
def Handled (s s' : State) : Prop :=
  s' = s ∨ s' = s.close ∨ s' = s.take.2

variable {s s' : State} {outage : Outage} {payload : Bytes}

/-- A promise that is done stays done. -/
theorem Handled.isDone (h : s.Handled s') (hs : s.isDone = true) : s'.isDone = true := by
  cases s with
  | pending => cases hs
  | _ => obtain rfl | rfl | rfl := h <;> rfl

/-- No caller fails a promise, and none gets a failed one to forget why. -/
theorem Handled.failed_iff (h : s.Handled s') : s' = .failed outage ↔ s = .failed outage := by
  cases s <;> obtain rfl | rfl | rfl := h <;> simp [close, take]

theorem Handled.closed (h : s.Handled s') (hs : s = .closed) : s' = .closed := by
  subst hs
  obtain rfl | rfl | rfl := h <;> rfl

/-- A promise that nothing came for can only be closed. -/
theorem Handled.unanswered (h : s.Handled s') (hs : s = .pending ∨ s = .closed) :
    s' = .pending ∨ s' = .closed := by
  obtain rfl | rfl := hs <;> obtain rfl | rfl | rfl := h <;> simp [close, take]

/-- What may become of a promise: its caller handles it, or the session completes or fails it. -/
def Advances (s s' : State) : Prop :=
  s.Handled s' ∨ (∃ payload, s' = s.complete payload) ∨ ∃ outage, s' = s.fail outage

/-- A promise that is closed stays closed. -/
theorem Advances.closed (h : s.Advances s') (hs : s = .closed) : s' = .closed := by
  obtain h | ⟨payload, rfl⟩ | ⟨outage, rfl⟩ := h
  · exact h.closed hs
  · rw [hs]
    rfl
  · rw [hs]
    rfl

/-- Nobody will take the payload of a promise that nothing came for once it is closed. -/
theorem closed_of_isAbandoned (hs : s = .pending ∨ s = .closed) (h : s.isAbandoned = true) :
    s = .closed := by
  obtain rfl | rfl := hs
  · cases h
  · rfl

theorem complete_complete (s : State) :
    (s.complete payload).complete payload = s.complete payload := by
  cases s <;> rfl

theorem isDone_complete (s : State) : (s.complete payload).isDone = true := by
  cases s <;> rfl

/-- A reply gives nobody up. -/
theorem isAbandoned_of_complete (h : (s.complete payload).isAbandoned = true) :
    s.isAbandoned = true := by
  cases s <;> exact h

theorem fail_fail (s : State) : (s.fail outage).fail outage = s.fail outage := by
  cases s <;> rfl

/-- Only a promise that is pending can fail. -/
theorem fail_of_ne_pending (h : s ≠ .pending) : s.fail outage = s := by
  cases s <;> first
    | rfl
    | exact absurd rfl h

end Promise.State

namespace Exchange

variable {x x' : Exchange} {f : Promise.State → Promise.State}

/-- A promise that nobody knows of is closed. -/
theorem promiseState_of_le {id : PromiseId} (h : x.promises.size ≤ id) :
    x.promiseState id = .closed := by
  rw [promiseState, Array.getElem?_eq_none h]
  rfl

/-- Only the promise that is replaced changes. -/
theorem promiseState_set (x : Exchange) {id : PromiseId} (p : Promise)
    (hid : id < x.promises.size) (other : PromiseId) :
    Exchange.promiseState { x with promises := x.promises.setIfInBounds id p } other =
      if other = id then p.state else x.promiseState other := by
  simp only [promiseState, Array.getElem?_setIfInBounds]
  by_cases heq : id = other
  · subst heq
    simp [hid]
  · simp [heq, Ne.symm heq]

/-- Settling changes the promise that is settled, if there is one. -/
theorem promiseState_settle (x : Exchange) (f : Promise.State → Promise.State)
    (id other : PromiseId) :
    (x.settle f id).promiseState other =
      if other = id ∧ id < x.promises.size then f (x.promiseState id)
      else x.promiseState other := by
  unfold settle
  split
  · rename_i hnone
    rw [Array.getElem?_eq_none_iff] at hnone
    rw [if_neg fun hand => Nat.not_lt_of_le hnone hand.2]
  · rename_i p hp
    have hlt : id < x.promises.size := (Array.getElem?_eq_some_iff.1 hp).1
    have hstate : x.promiseState id = p.state := by
      rw [promiseState, hp]
      rfl
    have hset := x.promiseState_set (p.settle f).1 hlt other
    simp only [hlt, and_true, hstate]
    exact hset

/-- Settling some promises changes these, each once, if settling twice is settling once. An
unknown promise is closed, and that must not change. -/
theorem promiseState_settleAll (hf : ∀ s, f (f s) = f s) (hclosed : f .closed = .closed)
    (x : Exchange) (ids : List PromiseId) (id : PromiseId) :
    (x.settleAll f ids).promiseState id =
      if id ∈ ids then f (x.promiseState id) else x.promiseState id := by
  induction ids generalizing x with
  | nil => rfl
  | cons first ids ih =>
    have hone : (x.settle f first).promiseState id =
        if id = first then f (x.promiseState id) else x.promiseState id := by
      rw [promiseState_settle]
      by_cases heq : id = first
      · subst heq
        by_cases hlt : id < x.promises.size
        · simp [hlt]
        · simp [hlt, promiseState_of_le (Nat.not_lt.1 hlt), hclosed]
      · simp [heq]
    rw [settleAll, List.foldl_cons]
    refine (ih (x.settle f first)).trans ?_
    rw [hone]
    by_cases heq : id = first <;> by_cases hmem : id ∈ ids <;> simp [heq, hmem, hf]

/-- Completing some promises completes these. -/
theorem promiseState_complete (x : Exchange) (payload : Bytes) (ids : List PromiseId)
    (id : PromiseId) :
    (x.settleAll (.complete payload) ids).promiseState id =
      if id ∈ ids then (x.promiseState id).complete payload else x.promiseState id :=
  promiseState_settleAll Promise.State.complete_complete rfl x ids id

/-- Failing some promises fails these. -/
theorem promiseState_fail (x : Exchange) (outage : Outage) (ids : List PromiseId)
    (id : PromiseId) :
    (x.settleAll (.fail outage) ids).promiseState id =
      if id ∈ ids then (x.promiseState id).fail outage else x.promiseState id :=
  promiseState_settleAll Promise.State.fail_fail rfl x ids id

/-- New promises change none that is there. -/
theorem promiseState_addPromises_of_lt (x : Exchange) (r : Receivers) {id : PromiseId}
    (h : id < x.promises.size) : (x.addPromises r).promiseState id = x.promiseState id := by
  simp only [addPromises, promiseState, Array.getElem?_append, if_pos h]

/-- New promises are pending. -/
theorem promiseState_addPromises (x : Exchange) (ask : Ask) {id : PromiseId}
    (h : id ∈ (ask.receivers x.promises.size).promises) :
    (x.addPromises (ask.receivers x.promises.size)).promiseState id = .pending := by
  cases ask with
  | statement =>
    obtain rfl := List.mem_singleton.1 h
    simp [addPromises, promiseState, Ask.receivers, Receivers.promises]
  | query =>
    simp only [Ask.receivers, Receivers.promises, List.mem_cons, List.not_mem_nil, or_false] at h
    obtain rfl | rfl := h <;>
      simp [addPromises, promiseState, Ask.receivers, Receivers.promises]

/-! ## What callers do -/

/-- The second exchange is the first one after a caller did something with a promise. -/
def Touched (x x' : Exchange) : Prop :=
  (∃ promises roused, promises.size = x.promises.size ∧ x' = { x with promises, roused }) ∧
    ∀ id, (x.promiseState id).Handled (x'.promiseState id)

namespace Touched

theorem size (h : x.Touched x') : x'.promises.size = x.promises.size := by
  obtain ⟨⟨promises, roused, hsize, rfl⟩, -⟩ := h
  exact hsize

theorem boxes (h : x.Touched x') : x'.boxes = x.boxes := by
  obtain ⟨⟨promises, roused, -, rfl⟩, -⟩ := h
  rfl

theorem waitlist (h : x.Touched x') : x'.waitlist = x.waitlist := by
  obtain ⟨⟨promises, roused, -, rfl⟩, -⟩ := h
  rfl

theorem catalog (h : x.Touched x') : x'.catalog = x.catalog := by
  obtain ⟨⟨promises, roused, -, rfl⟩, -⟩ := h
  rfl

theorem closed (h : x.Touched x') : x'.closed = x.closed := by
  obtain ⟨⟨promises, roused, -, rfl⟩, -⟩ := h
  rfl

end Touched

/-- Replacing a promise by one that its caller made of it. -/
private theorem touched_set {id : PromiseId} {p p' : Promise} (hp : x.promises[id]? = some p)
    (h : p.state.Handled p'.state) :
    x.Touched { x with promises := x.promises.setIfInBounds id p' } := by
  refine ⟨⟨_, x.roused, Array.size_setIfInBounds .., rfl⟩, fun other => ?_⟩
  rw [promiseState_set x p' (Array.getElem?_eq_some_iff.1 hp).1]
  split
  · rename_i heq
    rw [heq, promiseState, hp]
    exact h
  · exact .inl rfl

/-- A caller closes a promise. -/
theorem touched_settle_close (x : Exchange) (id : PromiseId) : x.Touched (x.settle .close id) := by
  obtain ⟨promises, roused, hsize, heq⟩ := x.settle_frame .close id
  refine ⟨⟨promises, roused, hsize, heq⟩, fun other => ?_⟩
  rw [promiseState_settle]
  split
  · rename_i hother
    rw [hother.1]
    exact .inr (.inl rfl)
  · exact .inl rfl

/-- A caller asks for a payload. -/
theorem touched_take (x : Exchange) (id : PromiseId) : x.Touched (x.take id).2 := by
  unfold take
  split
  · exact ⟨⟨x.promises, x.roused, rfl, rfl⟩, fun _ => .inl rfl⟩
  · rename_i p hp
    exact touched_set hp (.inr (.inr rfl))

/-- A caller waits for a payload. -/
theorem touched_await (x : Exchange) (task : TaskId) (id : PromiseId) :
    x.Touched (x.await task id).2 := by
  unfold await
  split
  · exact ⟨⟨x.promises, x.roused, rfl, rfl⟩, fun _ => .inl rfl⟩
  · rename_i p hp
    refine touched_set hp (.inr (.inr ?_))
    -- whether the caller is parked makes no difference to the state
    unfold Promise.await
    split <;> rename_i htake <;> exact congrArg (fun r => r.2.state) htake.symm

end Exchange

end QueryLink
