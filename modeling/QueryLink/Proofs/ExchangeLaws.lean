import QueryLink.Proofs.BoxTableLaws
import QueryLink.Session.Exchange

/-!
# What an exchange changes

Which requests wait, which promises are ready and who owns which box after an operation on an
exchange, for those who keep account of requests and replies.

## Key results

- `ready_of_complete`: a promise becomes ready only by being completed
- `same_settle_close`, `same_take`, `same_await`: callers complete nothing
- `ended_shutdown`: shutting down completes nothing
- `submit_cases`: a request is refused, gets a box, or waits
- `dispatch_cases`: the oldest waiting request gets a box, or none is sent
-/

namespace QueryLink

/-! ## Waiting requests -/

namespace Waitlist

variable {abandoned : Receivers → Bool} {w w' : Waitlist} {r : WaitingRequest}

/-- A request joins the line if there is room once abandoned requests have left. -/
private theorem push_eq (abandoned : Receivers → Bool) (w : Waitlist) (r : WaitingRequest) :
    ∃ w₀ : Waitlist, w₀.line.Sublist w.line ∧
      w.push abandoned r =
        if w₀.limit ≤ w₀.length then (false, w₀)
        else (true, { w₀ with line := w₀.line ++ [r] }) := by
  unfold push
  split
  · exact ⟨w.purge abandoned, List.filter_sublist, rfl⟩
  · exact ⟨w, List.Sublist.refl _, rfl⟩

/-- A request that finds room is the last in line; before it some may have left. -/
theorem push_room (h : w.push abandoned r = (true, w')) :
    ∃ line, line.Sublist w.line ∧ w'.line = line ++ [r] := by
  obtain ⟨w₀, hline, hpush⟩ := push_eq abandoned w r
  rw [hpush] at h
  split at h
  · cases h
  · cases h
    exact ⟨w₀.line, hline, rfl⟩

/-- Nobody joins a full line. -/
theorem push_full (h : w.push abandoned r = (false, w')) : w'.line.Sublist w.line := by
  obtain ⟨w₀, hline, hpush⟩ := push_eq abandoned w r
  rw [hpush] at h
  split at h
  · cases h
    exact hline
  · cases h

/-- What is left after a request was taken stood behind it. -/
theorem pop_some (h : w.pop abandoned = (some r, w')) : (r :: w'.line).Sublist w.line := by
  unfold pop at h
  split at h
  · cases h
  · rename_i hline
    cases h
    rw [← hline]
    exact List.dropWhile_sublist _

/-- A line from which no request can be taken is empty afterwards. -/
theorem pop_none (h : w.pop abandoned = (none, w')) : w'.line = [] := by
  unfold pop at h
  split at h <;> cases h
  rfl

end Waitlist

namespace Exchange

variable {x : Exchange} {id : PromiseId} {b : Bytes}

/-! ## Promises -/

/-- Changing the state of a promise changes that promise and who is roused. -/
theorem settle_frame (x : Exchange) (f : Promise.State → Promise.State) (id : PromiseId) :
    ∃ promises roused, promises.size = x.promises.size ∧
      x.settle f id = { x with promises, roused } := by
  unfold settle
  split
  · exact ⟨x.promises, x.roused, rfl, rfl⟩
  · exact ⟨_, _, Array.size_setIfInBounds .., rfl⟩

/-- Changing the state of promises changes promises and who is roused. -/
theorem settleAll_frame (x : Exchange) (f : Promise.State → Promise.State)
    (ids : List PromiseId) :
    ∃ promises roused, promises.size = x.promises.size ∧
      x.settleAll f ids = { x with promises, roused } := by
  induction ids generalizing x with
  | nil => exact ⟨x.promises, x.roused, rfl, rfl⟩
  | cons id ids ih =>
    obtain ⟨ps, rs, hsize, hsettle⟩ := x.settle_frame f id
    obtain ⟨ps', rs', hsize', hall⟩ := ih (x.settle f id)
    refine ⟨ps', rs', ?_, ?_⟩
    · rw [hsize', hsettle, hsize]
    · rw [settleAll, List.foldl_cons]
      exact hall.trans (by rw [hsettle])

@[simp] theorem settleAll_boxes (f : Promise.State → Promise.State) (ids : List PromiseId) :
    (x.settleAll f ids).boxes = x.boxes := by
  obtain ⟨_, _, -, heq⟩ := x.settleAll_frame f ids
  rw [heq]

@[simp] theorem settleAll_waitlist (f : Promise.State → Promise.State) (ids : List PromiseId) :
    (x.settleAll f ids).waitlist = x.waitlist := by
  obtain ⟨_, _, -, heq⟩ := x.settleAll_frame f ids
  rw [heq]

@[simp] theorem settleAll_closed (f : Promise.State → Promise.State) (ids : List PromiseId) :
    (x.settleAll f ids).closed = x.closed := by
  obtain ⟨_, _, -, heq⟩ := x.settleAll_frame f ids
  rw [heq]

@[simp] theorem settleAll_size (f : Promise.State → Promise.State) (ids : List PromiseId) :
    (x.settleAll f ids).promises.size = x.promises.size := by
  obtain ⟨_, _, hsize, heq⟩ := x.settleAll_frame f ids
  rw [heq, hsize]

/-- A promise that is ready after one was settled was ready before or is that one. -/
theorem ready_of_settle {f : Promise.State → Promise.State} {other : PromiseId}
    (h : (x.settle f other).promiseState id = .ready b) :
    x.promiseState id = .ready b ∨ id = other ∧ f (x.promiseState id) = .ready b := by
  unfold settle at h
  split at h
  · exact .inl h
  · rename_i p hp
    by_cases hid : id = other
    · subst hid
      have hlt : id < x.promises.size := (Array.getElem?_eq_some_iff.1 hp).1
      have hstate : x.promiseState id = p.state := by
        rw [promiseState, hp]
        rfl
      refine .inr ⟨rfl, ?_⟩
      rw [hstate]
      simpa [promiseState, Promise.settle, hlt] using h
    · exact .inl (by simpa [promiseState, Array.getElem?_setIfInBounds, Ne.symm hid] using h)

/-- A promise that is ready after some were settled was ready before or was made ready. -/
theorem ready_of_settleAll {f : Promise.State → Promise.State} {ids : List PromiseId}
    (h : (x.settleAll f ids).promiseState id = .ready b) :
    x.promiseState id = .ready b ∨ id ∈ ids ∧ ∃ s, s ≠ .ready b ∧ f s = .ready b := by
  induction ids generalizing x with
  | nil => exact .inl h
  | cons first ids ih =>
    obtain hready | ⟨hmem, hmade⟩ := ih h
    · obtain hbefore | ⟨rfl, hmade⟩ := ready_of_settle hready
      · exact .inl hbefore
      · -- a promise may be in the list twice; the first time counts
        by_cases hbefore : x.promiseState id = .ready b
        · exact .inl hbefore
        · exact .inr ⟨List.mem_cons_self, _, hbefore, hmade⟩
    · exact .inr ⟨List.mem_cons_of_mem _ hmem, hmade⟩

/-- Completing promises makes no others ready, and none with another payload. -/
theorem ready_of_complete {payload : Bytes} {ids : List PromiseId}
    (h : (x.settleAll (.complete payload) ids).promiseState id = .ready b) :
    x.promiseState id = .ready b ∨ id ∈ ids ∧ b = payload := by
  obtain hbefore | ⟨hmem, s, hne, hmade⟩ := ready_of_settleAll h
  · exact .inl hbefore
  · refine .inr ⟨hmem, ?_⟩
    -- only a pending promise is completed
    cases s with
    | pending => cases hmade; rfl
    | ready payload' => exact absurd hmade hne
    | consumed => cases hmade
    | failed outage => cases hmade
    | closed => cases hmade

/-- Failing promises makes none ready. -/
theorem ready_of_fail {outage : Outage} {ids : List PromiseId}
    (h : (x.settleAll (.fail outage) ids).promiseState id = .ready b) :
    x.promiseState id = .ready b := by
  obtain hbefore | ⟨-, s, hne, hmade⟩ := ready_of_settleAll h
  · exact hbefore
  · cases s with
    | pending => cases hmade
    | ready payload => exact absurd hmade hne
    | consumed => cases hmade
    | failed outage => cases hmade
    | closed => cases hmade

/-- Closing a promise makes none ready. -/
theorem ready_of_close {other : PromiseId}
    (h : (x.settle .close other).promiseState id = .ready b) : x.promiseState id = .ready b := by
  obtain hbefore | ⟨-, hmade⟩ := ready_of_settle h
  · exact hbefore
  · cases hstate : x.promiseState id <;> rw [hstate] at hmade <;> cases hmade

/-- The same requests are in flight and wait in both exchanges, and no promise is ready in the
second only. -/
structure Same (x x' : Exchange) : Prop where
  boxes : x'.boxes = x.boxes
  waitlist : x'.waitlist = x.waitlist
  closed : x'.closed = x.closed
  size : x'.promises.size = x.promises.size
  ready : ∀ id b, x'.promiseState id = .ready b → x.promiseState id = .ready b

theorem Same.refl (x : Exchange) : x.Same x := ⟨rfl, rfl, rfl, rfl, fun _ _ h => h⟩

/-- A caller who closes a promise completes none. -/
theorem same_settle_close (x : Exchange) (id : PromiseId) : x.Same (x.settle .close id) := by
  obtain ⟨promises, roused, hsize, heq⟩ := x.settle_frame .close id
  have hready : ∀ other b, (x.settle .close id).promiseState other = .ready b →
      x.promiseState other = .ready b := fun _ _ => ready_of_close
  rw [heq] at hready ⊢
  exact ⟨rfl, rfl, rfl, hsize, hready⟩

/-- Replacing a promise by one that is ready only if it was makes none ready. -/
private theorem same_set {p p' : Promise} (hp : x.promises[id]? = some p)
    (hkeep : ∀ b, p'.state = .ready b → p.state = .ready b) :
    x.Same { x with promises := x.promises.setIfInBounds id p' } := by
  refine ⟨rfl, rfl, rfl, Array.size_setIfInBounds .., fun other b hready => ?_⟩
  simp only [promiseState, Array.getElem?_setIfInBounds] at hready
  by_cases hid : id = other
  · subst hid
    have hlt : id < x.promises.size := (Array.getElem?_eq_some_iff.1 hp).1
    simp only [hlt, if_true, Option.map_some, Option.getD_some] at hready
    rw [promiseState, hp]
    exact hkeep b hready
  · rwa [if_neg hid] at hready

/-- Looking at a promise makes it ready only if it was. -/
private theorem take_state {p : Promise} (h : p.take.2.state = .ready b) : p.state = .ready b := by
  obtain ⟨state, parked⟩ := p
  cases state <;> cases h

/-- A caller who takes a payload completes no promise. -/
theorem same_take (x : Exchange) (id : PromiseId) : x.Same (x.take id).2 := by
  unfold take
  split
  · exact .refl x
  · rename_i p hp
    exact same_set hp fun b => take_state

/-- A caller who waits completes no promise. -/
theorem same_await (x : Exchange) (task : TaskId) (id : PromiseId) :
    x.Same (x.await task id).2 := by
  unfold await
  split
  · exact .refl x
  · rename_i p hp
    refine same_set hp fun b h => take_state ?_
    unfold Promise.await at h
    split at h
    · rename_i htake
      rw [htake]
      exact h
    · rename_i htake
      rw [htake]
      exact h

/-! ## Ending -/

/-- After it was shut down an exchange is closed, and nobody joined the line. No promise became
ready. -/
structure Ended (x x' : Exchange) : Prop where
  closed : x'.closed = true
  waitlist : x'.waitlist.line.Sublist x.waitlist.line
  size : x'.promises.size = x.promises.size
  ready : ∀ id b, x'.promiseState id = .ready b → x.promiseState id = .ready b

/-- Shutting down fails what is in flight and what waits, and completes nothing. -/
theorem ended_shutdown (x : Exchange) (outage : Outage) : x.Ended (x.shutdown outage) := by
  unfold shutdown
  split
  · rename_i hclosed
    exact ⟨hclosed, .refl _, rfl, fun _ _ h => h⟩
  · rcases x.boxes.clear with ⟨owners, boxes⟩
    refine ⟨?_, ?_, ?_, fun id b h => ?_⟩
    · simp
    · simp [Waitlist.clear]
    · simp
    · -- those in flight fail first, then those that wait
      change (((settleAll _ (.fail outage) owners).settleAll (.fail outage) _).promiseState id) =
        .ready b at h
      have hready := ready_of_fail (ready_of_fail h)
      exact hready

/-! ## Requests -/

/-- New promises are pending. -/
theorem ready_of_addPromises {r : Receivers}
    (h : (x.addPromises r).promiseState id = .ready b) : x.promiseState id = .ready b := by
  simp only [addPromises, promiseState, Array.getElem?_append] at h
  split at h
  · exact h
  · simp only [List.getElem?_toArray, Array.getElem?_map] at h
    rcases hp : r.promises[id - x.promises.size]? with _ | p
    · simp [hp] at h
    · simp [hp] at h

theorem size_addPromises (x : Exchange) (r : Receivers) :
    (x.addPromises r).promises.size = x.promises.size + r.promises.length := by
  simp [addPromises]

/-- A request is refused, or gets a free box, or waits. -/
theorem submit_cases (x : Exchange) (ask : Ask) (payload : Bytes) :
    (∃ e waitlist, x.submit ask payload = (.error e, { x with waitlist }) ∧
      waitlist.line.Sublist x.waitlist.line) ∨
    (∃ slot boxes, x.closed = false ∧
      x.boxes.allocate (ask.receivers x.promises.size) = some (slot, boxes) ∧
      x.submit ask payload =
        (.ok ⟨ask.receivers x.promises.size, some ⟨.payload, slot, payload⟩⟩,
          { x with boxes }.addPromises (ask.receivers x.promises.size))) ∨
    (∃ waitlist line, x.closed = false ∧ line.Sublist x.waitlist.line ∧
      waitlist.line = line ++ [⟨payload, ask.receivers x.promises.size⟩] ∧
      x.submit ask payload =
        (.ok ⟨ask.receivers x.promises.size, none⟩,
          { x with waitlist }.addPromises (ask.receivers x.promises.size))) := by
  unfold submit
  split
  · exact .inl ⟨_, x.waitlist, rfl, .refl _⟩
  · rename_i hopen
    rw [Bool.not_eq_true] at hopen
    dsimp only
    rcases hbox : x.boxes.allocate (ask.receivers x.promises.size) with _ | ⟨slot, boxes⟩
    · simp only
      -- no box is free: the request waits if the line has room
      rcases hpush : x.waitlist.push x.isAbandoned ⟨payload, ask.receivers x.promises.size⟩
        with ⟨room, waitlist⟩
      cases room
      · exact .inl ⟨_, waitlist, rfl, Waitlist.push_full hpush⟩
      · obtain ⟨line, hline, heq⟩ := Waitlist.push_room hpush
        exact .inr (.inr ⟨waitlist, line, hopen, hline, heq, rfl⟩)
    · exact .inr (.inl ⟨slot, boxes, hopen, rfl, rfl⟩)

/-- A request that is refused changes the line at most, and nobody joins it. -/
theorem submit_refused {ask : Ask} {payload : Bytes} {e : Cause} {x' : Exchange}
    (h : x.submit ask payload = (.error e, x')) :
    ∃ waitlist, x' = { x with waitlist } ∧ waitlist.line.Sublist x.waitlist.line := by
  obtain ⟨e', waitlist, heq, hline⟩ | ⟨slot, boxes, -, -, heq⟩ | ⟨waitlist, line, -, -, -, heq⟩ :=
    x.submit_cases ask payload <;> rw [h] at heq <;> cases heq
  exact ⟨waitlist, rfl, hline⟩

/-! ## Replies -/

/-- The oldest request that somebody still waits for gets a free box, or nothing is sent and
nobody joins the line. -/
theorem dispatch_cases (x : Exchange) :
    (∃ waitlist, x.dispatch = ([], { x with waitlist }) ∧
      waitlist.line.Sublist x.waitlist.line) ∨
    (∃ r waitlist slot boxes, (r :: waitlist.line).Sublist x.waitlist.line ∧
      x.boxes.allocate r.receivers = some (slot, boxes) ∧
      x.dispatch = ([⟨.payload, slot, r.payload⟩], { x with waitlist, boxes })) := by
  unfold dispatch
  rcases hpop : x.waitlist.pop x.isAbandoned with ⟨_ | r, waitlist⟩
  · refine .inl ⟨waitlist, rfl, ?_⟩
    rw [Waitlist.pop_none hpop]
    exact List.nil_sublist _
  · have hline := Waitlist.pop_some hpop
    simp only
    rcases hbox : x.boxes.allocate r.receivers with _ | ⟨slot, boxes⟩
    · -- no box is free: the request goes back to the front
      exact .inl ⟨waitlist.pushFront r, rfl, hline⟩
    · exact .inr ⟨r, waitlist, slot, boxes, hline, hbox, rfl⟩

end Exchange

end QueryLink
