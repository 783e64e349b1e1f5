import Mathlib.Data.List.Induction
import Mathlib.Logic.Function.Basic
import QueryLink.Promise

/-!
# A promise in many hands

The session completes and fails a promise, its callers close it and take what it holds, each of
them in any order and any number of times. What a run of such deeds makes of a promise is decided
by the first one that finds it pending, except that closing overrides a payload, be it taken or
not, and never a failure.

Callers who wait do so in two steps. A task first enrols with the promise and only then looks at
its state; when it finds nothing it sleeps until it is roused. Whoever changes the state rouses the
tasks enrolled, and does so after the change and not together with it. In that order no rousing is
lost: a task that sleeps beside a promise that is done is one that a rousing is still owed to.

## Key results

- `after_eq_ready_iff`: a promise is ready for the first payload that found it pending, until it is
  closed or taken
- `length_payloadsFrom`: no run of deeds hands out two payloads
- `Watched.state_run`: with tasks that wait, the state is what the deeds of the run make of it
- `Watched.Heard.run`: nobody sleeps beside a promise that is done unless a rousing is owed
- `settles_once`: what these come to for a new promise
-/

namespace QueryLink.Promise

/-! ## Deeds -/

/-- What may be done with a promise. -/
inductive Deed where
  | complete (payload : Bytes)
  | fail (outage : Outage)
  | close
  | take
  deriving Repr, DecidableEq

namespace Deed

/-- What a deed makes of the state. -/
def act : Deed → State → State
  | complete payload, s => s.complete payload
  | fail outage, s => s.fail outage
  | close, s => s.close
  | take, s => s.take.2

/-- The payload that a deed hands out, if it does. -/
def gain : Deed → State → List Bytes
  | take, s =>
    match s.take.1 with
    | some (.ok payload) => [payload]
    | _ => []
  | _, _ => []

/-- Whether whoever does it rouses the tasks that wait. -/
def rouses : Deed → Bool
  | take => false
  | _ => true

variable {d : Deed} {s : State} {payload : Bytes} {outage : Outage}

/-- A promise that is done stays done. -/
theorem act_ne_pending (h : s ≠ .pending) : d.act s ≠ .pending := by
  cases d <;> cases s <;> first
    | exact absurd rfl h
    | simp [act, State.complete, State.fail, State.close, State.take]

/-- A promise is ready when it was and is neither closed nor taken, or when it was pending and is
completed. -/
theorem act_eq_ready_iff :
    d.act s = .ready payload ↔
      (s = .ready payload ∧ d ≠ .close ∧ d ≠ .take) ∨ (s = .pending ∧ d = .complete payload) := by
  cases d <;> cases s <;>
    simp [act, State.complete, State.fail, State.close, State.take]

/-- Nothing is taken from a promise that is pending. -/
theorem act_take_pending (h : s = .pending) : take.act s = .pending := by
  rw [h]
  rfl

/-- A promise that failed stays failed. -/
@[simp] theorem act_failed : d.act (.failed outage) = .failed outage := by
  cases d <;> rfl

/-- A promise that is closed stays closed. -/
@[simp] theorem act_closed : d.act .closed = .closed := by
  cases d <;> rfl

end Deed

/-- What some deeds make of a state, one after the other. -/
def afterFrom (s : State) (deeds : List Deed) : State :=
  deeds.foldl (fun s d => d.act s) s

/-- What some deeds make of a new promise. -/
def after (deeds : List Deed) : State :=
  afterFrom .pending deeds

/-- The payloads that some deeds hand out, one after the other. -/
def payloadsFrom : State → List Deed → List Bytes
  | _, [] => []
  | s, d :: deeds => d.gain s ++ payloadsFrom (d.act s) deeds

/-- The payloads that some deeds get from a new promise. -/
def payloads (deeds : List Deed) : List Bytes :=
  payloadsFrom .pending deeds

variable {s : State} {payload : Bytes} {outage : Outage} {deeds before later : List Deed}

theorem afterFrom_append (s : State) (before later : List Deed) :
    afterFrom s (before ++ later) = afterFrom (afterFrom s before) later :=
  List.foldl_append

theorem after_append (before later : List Deed) :
    after (before ++ later) = afterFrom (after before) later :=
  afterFrom_append .pending before later

theorem after_concat (deeds : List Deed) (d : Deed) :
    after (deeds ++ [d]) = d.act (after deeds) :=
  after_append deeds [d]

/-- A promise that is done stays done. -/
theorem afterFrom_ne_pending (h : s ≠ .pending) (deeds : List Deed) :
    afterFrom s deeds ≠ .pending := by
  induction deeds generalizing s with
  | nil => exact h
  | cons d deeds ih => exact ih (Deed.act_ne_pending h)

/-- A promise that failed stays failed, for the reason it failed for. -/
theorem afterFrom_failed (outage : Outage) (deeds : List Deed) :
    afterFrom (.failed outage) deeds = .failed outage := by
  induction deeds with
  | nil => rfl
  | cons d deeds ih =>
    rw [afterFrom, List.foldl_cons, Deed.act_failed]
    exact ih

/-- A promise that is closed stays closed. -/
theorem afterFrom_closed (deeds : List Deed) : afterFrom .closed deeds = .closed := by
  induction deeds with
  | nil => rfl
  | cons d deeds ih =>
    rw [afterFrom, List.foldl_cons, Deed.act_closed]
    exact ih

/-- No deed before completed a promise that is pending. -/
theorem complete_not_mem_of_pending (h : after deeds = .pending) (payload : Bytes) :
    Deed.complete payload ∉ deeds := by
  intro hmem
  obtain ⟨early, late, rfl⟩ := List.append_of_mem hmem
  have hdone : (after early).complete payload ≠ .pending := by
    cases after early <;> simp [State.complete]
  rw [after_append] at h
  exact afterFrom_ne_pending hdone late h

/-- A promise is ready for the payload of the first completion, when that one found it pending and
nobody has closed it or taken the payload since. -/
theorem after_eq_ready_iff :
    after deeds = .ready payload ↔
      ∃ early late, deeds = early ++ .complete payload :: late ∧
        (∀ other, .complete other ∉ early) ∧ after early = .pending ∧
        .close ∉ late ∧ .take ∉ late := by
  -- by induction from the end, as the last deed decides
  induction deeds using List.reverseRecOn with
  | nil =>
    constructor
    · intro h
      cases h
    · rintro ⟨early, late, h, -⟩
      simp at h
  | append_singleton deeds d ih =>
    rw [after_concat, Deed.act_eq_ready_iff, ih]
    constructor
    · rintro (⟨⟨early, late, rfl, hfirst, hpending, hclose, htake⟩, hd⟩ | ⟨hpending, rfl⟩)
      · refine ⟨early, late ++ [d], by simp, hfirst, hpending, ?_, ?_⟩
        · simp [hclose, Ne.symm hd.1]
        · simp [htake, Ne.symm hd.2]
      · exact ⟨deeds, [], rfl, complete_not_mem_of_pending hpending, hpending, by simp, by simp⟩
    · rintro ⟨early, late, heq, hfirst, hpending, hclose, htake⟩
      rcases List.eq_nil_or_concat late with rfl | ⟨late, last, rfl⟩
      · -- the completion came last
        obtain ⟨rfl, hd⟩ := List.append_inj' heq rfl
        exact Or.inr ⟨hpending, List.singleton_inj.1 hd⟩
      · rw [List.concat_eq_append] at heq hclose htake
        rw [← List.cons_append, ← List.append_assoc] at heq
        obtain ⟨rfl, hd⟩ := List.append_inj' heq rfl
        obtain rfl := List.singleton_inj.1 hd
        simp only [List.mem_append, List.mem_singleton, not_or] at hclose htake
        left
        exact ⟨⟨early, late, rfl, hfirst, hpending, hclose.1, htake.1⟩, Ne.symm hclose.2,
          Ne.symm htake.2⟩

/-- A caller gets a payload from a promise that is ready. -/
theorem take_eq_ok_iff : s.take.1 = some (.ok payload) ↔ s = .ready payload := by
  cases s <;> simp [State.take]

/-! ## What is handed out -/

/-- How many payloads can still be taken. -/
def left : State → Nat
  | .pending | .ready _ => 1
  | _ => 0

/-- Every payload handed out is one less that can be taken. -/
theorem length_gain (d : Deed) (s : State) : (d.gain s).length + left (d.act s) ≤ left s := by
  cases d <;> cases s <;>
    simp [Deed.gain, Deed.act, State.complete, State.fail, State.close, State.take, left]

/-- No more is handed out than can be taken. -/
theorem length_payloadsFrom (s : State) (deeds : List Deed) :
    (payloadsFrom s deeds).length ≤ left s := by
  induction deeds generalizing s with
  | nil => exact Nat.zero_le _
  | cons d deeds ih =>
    have hone := length_gain d s
    have hrest := ih (d.act s)
    rw [payloadsFrom, List.length_append]
    omega

/-- The second completion, and the second caller, come too late. -/
example : payloads [.complete [1], .complete [2], .take, .take] = [[1]] := rfl

/-! ## Tasks that wait -/

/-- How far a task got with waiting. -/
inductive Phase where
  /-- It does not wait. -/
  | away
  /-- It has enrolled and not looked yet. -/
  | enrolled
  /-- It has looked and found nothing. -/
  | asleep
  deriving Repr, DecidableEq

/-- A promise with the tasks that wait for it, and the number of rousings owed by those who changed
the state. The tasks parked are the ones that enrolled and were not roused since. -/
structure Watched where
  promise : Promise := {}
  phase : TaskId → Phase := fun _ => .away
  owed : Nat := 0

/-- What may happen to a promise that tasks wait for. -/
inductive Move where
  /-- A task enrols. -/
  | enrol (task : TaskId)
  /-- A task that has enrolled asks for the payload. It leaves with an answer or falls asleep. -/
  | look (task : TaskId)
  /-- A task that was roused goes back to where it enrols. -/
  | wake (task : TaskId)
  /-- A task gives up. -/
  | leave (task : TaskId)
  /-- Somebody does something, and does not rouse anybody yet. -/
  | act (d : Deed)
  /-- Somebody makes good for a rousing owed. -/
  | rouse
  /-- Somebody does something and rouses everybody at once. -/
  | settle (d : Deed)
  deriving Repr, DecidableEq

namespace Watched

/-- A task does not wait any more. -/
def unpark (w : Watched) (task : TaskId) : Watched :=
  { w with
    promise.parked := w.promise.parked.filter (· ≠ task)
    phase := Function.update w.phase task .away }

/-- One move. A move that is not possible changes nothing. -/
def step (w : Watched) : Move → Watched
  | .enrol task =>
    if w.phase task = .away then
      { w with
        promise.parked := w.promise.parked ++ [task]
        phase := Function.update w.phase task .enrolled }
    else w
  | .look task =>
    if w.phase task = .enrolled then
      match w.promise.take with
      | (some _, promise) => { w with promise }.unpark task
      | (none, promise) => { w with promise, phase := Function.update w.phase task .asleep }
    else w
  | .wake task =>
    if w.phase task = .asleep ∧ task ∉ w.promise.parked then
      { w with phase := Function.update w.phase task .away }
    else w
  | .leave task => w.unpark task
  | .act d =>
    { w with
      promise.state := d.act w.promise.state
      owed := if d.rouses then w.owed + 1 else w.owed }
  | .rouse =>
    if 0 < w.owed then { w with promise.parked := [], owed := w.owed - 1 } else w
  | .settle d =>
    if d.rouses then { w with promise := (w.promise.settle d.act).1 }
    else { w with promise.state := d.act w.promise.state }

/-- Some moves, one after the other. -/
def run (w : Watched) (moves : List Move) : Watched :=
  moves.foldl step w

/-- The deeds that a move amounts to. -/
def deedsIn (w : Watched) : Move → List Deed
  | .look task => if w.phase task = .enrolled then [.take] else []
  | .act d | .settle d => [d]
  | _ => []

/-- The deeds that some moves amount to. -/
def history : Watched → List Move → List Deed
  | _, [] => []
  | w, m :: moves => w.deedsIn m ++ history (w.step m) moves

variable {w : Watched} {m : Move} {moves : List Move}

/-- Enrolling and looking at once is asking on behalf of a task. -/
theorem promise_enrol_look {task : TaskId} (haway : w.phase task = .away)
    (hparked : task ∉ w.promise.parked) :
    ((w.step (.enrol task)).step (.look task)).promise = (w.promise.await task).2 := by
  have hkeep : w.promise.parked.filter (fun t => decide (t ≠ task)) = w.promise.parked := by
    rw [List.filter_eq_self]
    intro t ht
    exact decide_eq_true fun heq => hparked (heq ▸ ht)
  obtain ⟨⟨state, parked⟩, phase, owed⟩ := w
  cases state <;> simp_all [step, Promise.take, State.take, Promise.await, unpark]

/-- Doing something and rousing everybody next is settling. -/
theorem step_act_rouse {d : Deed} (h : d.rouses = true) :
    (w.step (.act d)).step .rouse = w.step (.settle d) := by
  simp [step, h, Promise.settle]

/-- The state goes through the deeds of a move. -/
theorem state_step (w : Watched) (m : Move) :
    (w.step m).promise.state = afterFrom w.promise.state (w.deedsIn m) := by
  cases m with
  | enrol task | wake task | rouse =>
    rw [step, deedsIn]
    · split <;> rfl
    all_goals simp
  | leave task => rfl
  | look task =>
    by_cases h : w.phase task = .enrolled
    · have hdeeds : w.deedsIn (.look task) = [.take] := if_pos h
      rw [hdeeds, step, if_pos h]
      split <;> rename_i htake <;> exact congrArg (fun r => r.2.state) htake.symm
    · rw [step, deedsIn, if_neg h, if_neg h]
      rfl
  | act d => rfl
  | settle d =>
    rw [step]
    split <;> rfl

/-- With tasks that wait, the state is what the deeds of the run make of it. -/
theorem state_run (w : Watched) (moves : List Move) :
    (w.run moves).promise.state = afterFrom w.promise.state (w.history moves) := by
  induction moves generalizing w with
  | nil => rfl
  | cons m moves ih =>
    rw [history, afterFrom_append, ← state_step]
    exact ih (w.step m)

/-- A task sleeps beside a promise and was not roused since it enrolled. -/
def Sleeps (w : Watched) (task : TaskId) : Prop :=
  w.phase task = .asleep ∧ task ∈ w.promise.parked

/-- Tasks sleep only beside a promise that is pending, or a rousing is owed to them. -/
def Heard (w : Watched) : Prop :=
  ∀ task, w.Sleeps task → w.promise.state = .pending ∨ 0 < w.owed

/-- Nobody falls asleep by getting to another phase. -/
theorem asleep_of_update {phase : TaskId → Phase} {task other : TaskId} {next : Phase}
    (h : Function.update phase task next other = .asleep) (hnext : next ≠ .asleep) :
    other ≠ task ∧ phase other = .asleep := by
  by_cases heq : other = task
  · subst heq
    rw [Function.update_self] at h
    exact absurd h hnext
  · rw [Function.update_of_ne heq] at h
    exact ⟨heq, h⟩

/-- Unparking a task puts nobody to sleep. -/
theorem Sleeps.of_unpark {task other : TaskId} (h : (w.unpark task).Sleeps other) :
    w.Sleeps other :=
  ⟨(asleep_of_update h.1 (by decide)).2, (List.mem_filter.1 h.2).1⟩

/-- Only a task that looks falls asleep, and it does so beside a promise that is pending. Whoever
changes the state owes a rousing, and a rousing leaves nobody parked. -/
theorem Heard.step (h : w.Heard) (m : Move) : (w.step m).Heard := by
  intro other
  cases m with
  | enrol task =>
    rw [Watched.step]
    split
    · intro hsleeps
      obtain ⟨hne, hphase⟩ := asleep_of_update hsleeps.1 (by decide)
      have hparked : other ∈ w.promise.parked := by simpa [hne] using hsleeps.2
      exact h other ⟨hphase, hparked⟩
    · exact h other
  | look task =>
    rw [Watched.step]
    split
    · cases hstate : w.promise.state with
      | pending =>
        -- whoever fell asleep did so beside a promise that is pending
        intro _
        left
        simp [Promise.take, State.take, hstate]
      | _ =>
        simp only [Promise.take, State.take, hstate]
        intro hsleeps
        obtain ⟨hphase, hparked⟩ := hsleeps.of_unpark
        exact Or.inr ((h other ⟨hphase, hparked⟩).resolve_left (by simp [hstate]))
    · exact h other
  | wake task =>
    rw [Watched.step]
    split
    · intro hsleeps
      exact h other ⟨(asleep_of_update hsleeps.1 (by decide)).2, hsleeps.2⟩
    · exact h other
  | leave task =>
    intro hsleeps
    exact h other hsleeps.of_unpark
  | act d =>
    intro hsleeps
    cases d with
    | take => exact (h other hsleeps).imp_left Deed.act_take_pending
    | _ => exact Or.inr (Nat.succ_pos _)
  | rouse =>
    rw [Watched.step]
    split
    · rintro ⟨-, hparked⟩
      cases hparked
    · exact h other
  | settle d =>
    cases d with
    | take =>
      intro hsleeps
      exact (h other hsleeps).imp_left Deed.act_take_pending
    | _ =>
      rintro ⟨-, hparked⟩
      cases hparked

theorem Heard.run (h : w.Heard) (moves : List Move) : (w.run moves).Heard := by
  induction moves generalizing w with
  | nil => exact h
  | cons m moves ih => exact ih (h.step m)

/-- A new promise that nobody waits for. -/
theorem heard_start : Heard {} := by
  rintro task ⟨-, hparked⟩
  cases hparked

/-- Where everybody rouses the tasks together with what he does, no rousing is ever owed. -/
theorem owed_run (hwhole : ∀ d, .act d ∉ moves) (howed : w.owed = 0) : (w.run moves).owed = 0 := by
  induction moves generalizing w with
  | nil => exact howed
  | cons m moves ih =>
    have hfirst : (w.step m).owed = 0 := by
      cases m with
      | act d => exact absurd List.mem_cons_self (hwhole d)
      | enrol task | wake task | settle d =>
        rw [Watched.step]
        split <;> exact howed
      | look task =>
        rw [Watched.step]
        split
        · split <;> exact howed
        · exact howed
      | leave task => exact howed
      | rouse =>
        rw [Watched.step, if_neg (by omega)]
        exact howed
    exact ih (fun d hd => hwhole d (List.mem_cons_of_mem m hd)) hfirst

end Watched

/-- A promise is settled once and its payload taken once, whatever is done with it in whatever
order. At most one payload is handed out. Who asks gets it when the first completion found the
promise pending and nobody has closed it or taken it since, and it is the payload of that
completion. A promise that is done stays done; one that failed answers with the cause of its
failure ever after, and one that is closed before it fails answers that it is closed. With tasks
that enrol before they look, the state is still what the deeds make of it, and a task sleeps
without having been roused only while the promise is pending or a rousing is owed; where deeds and
rousings are not parted, only while it is pending. -/
theorem settles_once :
    (∀ deeds, (payloads deeds).length ≤ 1) ∧
    (∀ before payload, (after before).take.1 = some (.ok payload) ↔
      ∃ early late, before = early ++ .complete payload :: late ∧
        (∀ other, .complete other ∉ early) ∧ after early = .pending ∧
        .close ∉ late ∧ .take ∉ late) ∧
    (∀ before later, after before ≠ .pending → after (before ++ later) ≠ .pending) ∧
    (∀ before later outage, after before = .failed outage →
      (after (before ++ later)).take.1 = some (.error outage.cause)) ∧
    (∀ before later, (∀ outage, after before ≠ .failed outage) →
      (after (before ++ .close :: later)).take.1 = some (.error .alreadyClosed)) ∧
    ∀ moves,
      (Watched.run {} moves).promise.state = after (Watched.history {} moves) ∧
      ∀ task, (Watched.run {} moves).Sleeps task →
        ((Watched.run {} moves).promise.state = .pending ∨ 0 < (Watched.run {} moves).owed) ∧
        ((∀ d, .act d ∉ moves) → (Watched.run {} moves).promise.state = .pending) := by
  refine ⟨fun deeds => length_payloadsFrom .pending deeds, ?ok, ?done, ?failed, ?closed, ?waits⟩
  case ok =>
    intro before payload
    rw [take_eq_ok_iff, after_eq_ready_iff]
  case done =>
    intro before later h
    rw [after_append]
    exact afterFrom_ne_pending h later
  case failed =>
    intro before later outage h
    rw [after_append, h, afterFrom_failed]
    rfl
  case closed =>
    intro before later h
    have hclosed : (after before).close = .closed := by
      cases hstate : after before with
      | failed outage => exact absurd hstate (h outage)
      | _ => rfl
    have hlast : after (before ++ .close :: later) = .closed := by
      rw [after_append]
      show afterFrom (after before).close later = .closed
      rw [hclosed, afterFrom_closed]
    rw [hlast]
    rfl
  case waits =>
    intro moves
    refine ⟨Watched.state_run {} moves, fun task hsleeps => ?_⟩
    have hheard := Watched.heard_start.run moves task hsleeps
    refine ⟨hheard, fun hwhole => hheard.resolve_right ?_⟩
    rw [Watched.owed_run hwhole rfl]
    exact Nat.lt_irrefl 0

end QueryLink.Promise
