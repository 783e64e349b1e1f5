import QueryLink.Proofs.SubmissionOrder

/-!
# Backpressure

The line of a session that is open is never longer than its limit. A request is refused when every
box is owned and the line is full of requests that somebody still waits for, and then nothing
changes. Otherwise it gets a box, or it becomes the last in line; requests that were given up leave
the line only to make room for it.

## Key results

- `Waitlist.push_cases`: everything that joining the line can do
- `Exchange.Bounded.submit`, `Exchange.Bounded.route`: the line keeps to its limit
- `Exchange.Bounded.submit_cases`: a request is refused and nothing changes, or it is accepted
- `pressure_run`: what holds in every session that is still open
-/

namespace QueryLink

/-! ## The line -/

namespace Waitlist

variable {abandoned : Receivers → Bool} {w w' : Waitlist} {r : WaitingRequest}

/-- The requests in line that somebody still waits for. -/
def live (abandoned : Receivers → Bool) (line : List WaitingRequest) : List WaitingRequest :=
  line.filter fun q => !abandoned q.receivers

/-- A line in which nobody was given up stays as it is. -/
theorem live_eq_self {line : List WaitingRequest}
    (h : ∀ q ∈ line, abandoned q.receivers = false) : live abandoned line = line :=
  List.filter_eq_self.2 fun q hq => by rw [h q hq, Bool.not_false]

/-- Giving up a request makes the line shorter. -/
theorem length_live_lt {line : List WaitingRequest}
    (h : ¬ ∀ q ∈ line, abandoned q.receivers = false) :
    (live abandoned line).length < line.length := by
  refine List.length_filter_lt_length_iff_exists.2 ?_
  refine Classical.byContradiction fun hnone => h fun q hq => ?_
  cases habandoned : abandoned q.receivers with
  | false => rfl
  | true => exact absurd ⟨q, hq, by simp [habandoned]⟩ hnone

theorem live_live (line : List WaitingRequest) :
    live abandoned (live abandoned line) = live abandoned line := by
  simp only [live, List.filter_filter, Bool.and_self]

/-- How a request joins the line: those before it are all who were in line, or those of them that
were not given up. -/
structure Joins (abandoned : Receivers → Bool) (w : Waitlist) (r : WaitingRequest)
    (kept : List WaitingRequest) (w' : Waitlist) : Prop where
  eq : w' = { w with line := kept ++ [r] }
  room : kept.length < w.limit
  sublist : kept.Sublist w.line
  /-- Those that somebody waits for stay, in their order. -/
  live_eq : live abandoned kept = live abandoned w.line
  /-- Others leave only when the line is full. -/
  full : kept ≠ w.line → w.length = w.limit

/-- A request finds no room in a line that is full of requests that somebody waits for; else it is
the last in line. -/
theorem push_cases (abandoned : Receivers → Bool) (hlength : w.length ≤ w.limit)
    (r : WaitingRequest) :
    (w.length = w.limit ∧ (∀ q ∈ w.line, abandoned q.receivers = false) ∧
      w.push abandoned r = (false, w)) ∨
    (¬ (w.length = w.limit ∧ ∀ q ∈ w.line, abandoned q.receivers = false) ∧
      ∃ kept w', w.push abandoned r = (true, w') ∧ w.Joins abandoned r kept w') := by
  unfold push
  by_cases hfull : w.limit ≤ w.length
  · have hlimit : w.length = w.limit := Nat.le_antisymm hlength hfull
    rw [if_pos hfull]
    by_cases hlive : ∀ q ∈ w.line, abandoned q.receivers = false
    · have hsame : w.purge abandoned = w := by
        rw [purge, show w.line.filter _ = w.line from live_eq_self hlive]
      rw [hsame, if_pos hfull]
      exact .inl ⟨hlimit, hlive, rfl⟩
    · -- a request that was given up makes room
      have hroom : (w.purge abandoned).length < (w.purge abandoned).limit :=
        Nat.lt_of_lt_of_eq (length_live_lt hlive) hlimit
      dsimp only
      rw [if_neg (Nat.not_le.2 hroom)]
      exact .inr ⟨fun h => hlive h.2, live abandoned w.line, _, rfl, rfl, hroom,
        List.filter_sublist, live_live w.line, fun _ => hlimit⟩
  · rw [if_neg hfull]
    dsimp only
    rw [if_neg hfull]
    exact .inr ⟨fun h => hfull (Nat.le_of_eq h.1.symm), w.line, _, rfl, rfl, Nat.not_le.1 hfull,
      List.Sublist.refl _, rfl, fun h => absurd rfl h⟩

/-- Taking a request changes no limit. -/
theorem limit_pop (abandoned : Receivers → Bool) (w : Waitlist) :
    (w.pop abandoned).2.limit = w.limit := by
  unfold pop
  split <;> rfl

end Waitlist

/-! ## The exchange -/

namespace Exchange

/-- The line has a limit and keeps to it. -/
structure Bounded (limit : Nat) (x : Exchange) : Prop where
  limit_eq : x.waitlist.limit = limit
  length_le : x.waitlist.line.length ≤ limit

variable {limit : Nat} {x x' : Exchange}

theorem bounded_ofSettings (settings : Settings) :
    (ofSettings settings).Bounded settings.pendingLimit :=
  ⟨rfl, Nat.zero_le _⟩

/-- Requests may leave the line. -/
theorem Bounded.congr (h : x.Bounded limit) (hlimit : x'.waitlist.limit = x.waitlist.limit)
    (hline : x'.waitlist.line.Sublist x.waitlist.line) : x'.Bounded limit :=
  ⟨hlimit.trans h.limit_eq, Nat.le_trans hline.length_le h.length_le⟩

theorem Bounded.of_waitlist (h : x.Bounded limit) (heq : x'.waitlist = x.waitlist) :
    x'.Bounded limit :=
  h.congr (by rw [heq]) (by rw [heq])

/-- A request is refused, and then nothing changes; or it gets a free box, or it joins the line. It
is refused when no box is free and the line is full of requests that somebody waits for. -/
theorem Bounded.submit_cases (h : x.Bounded limit) (hopen : x.closed = false) (ask : Ask)
    (payload : Bytes) :
    (x.boxes.free = [] ∧ x.waitlist.line.length = limit ∧
      (∀ q ∈ x.waitlist.line, x.isAbandoned q.receivers = false) ∧
      x.submit ask payload = (.error .backpressure, x)) ∨
    (∃ slot boxes, x.boxes.allocate (ask.receivers x.promises.size) = some (slot, boxes) ∧
      x.submit ask payload =
        (.ok ⟨ask.receivers x.promises.size, some ⟨.payload, slot, payload⟩⟩,
          { x with boxes }.addPromises (ask.receivers x.promises.size))) ∨
    (x.boxes.free = [] ∧ ¬ (x.waitlist.line.length = limit ∧
        ∀ q ∈ x.waitlist.line, x.isAbandoned q.receivers = false) ∧
      ∃ kept waitlist,
        x.waitlist.Joins x.isAbandoned ⟨payload, ask.receivers x.promises.size⟩ kept waitlist ∧
        x.submit ask payload = (.ok ⟨ask.receivers x.promises.size, none⟩,
          { x with waitlist }.addPromises (ask.receivers x.promises.size))) := by
  have hguard : ¬ x.closed = true := by
    rw [hopen]
    exact Bool.false_ne_true
  cases hbox : x.boxes.allocate (ask.receivers x.promises.size) with
  | some taken =>
    obtain ⟨slot, boxes⟩ := taken
    refine .inr (.inl ⟨slot, boxes, rfl, ?_⟩)
    simp only [submit, if_neg hguard, hbox]
  | none =>
    have hfree := BoxTable.allocate_eq_none.1 hbox
    have hlength : x.waitlist.length ≤ x.waitlist.limit := h.limit_eq ▸ h.length_le
    obtain ⟨hfull, hlive, hpush⟩ | ⟨hroom, kept, waitlist, hpush, hjoins⟩ :=
      Waitlist.push_cases x.isAbandoned hlength ⟨payload, ask.receivers x.promises.size⟩
    · refine .inl ⟨hfree, hfull.trans h.limit_eq, hlive, ?_⟩
      simp only [submit, if_neg hguard, hbox, hpush]
    · rw [h.limit_eq] at hroom
      refine .inr (.inr ⟨hfree, hroom, kept, waitlist, hjoins, ?_⟩)
      simp only [submit, if_neg hguard, hbox, hpush]

/-- A request that is submitted leaves the line within its limit. -/
theorem Bounded.submit (h : x.Bounded limit) (hopen : x.closed = false) (ask : Ask)
    (payload : Bytes) : (x.submit ask payload).2.Bounded limit := by
  obtain ⟨-, -, -, heq⟩ | ⟨slot, boxes, -, heq⟩ | ⟨-, -, kept, waitlist, hjoins, heq⟩ :=
    h.submit_cases hopen ask payload
  · rw [heq]
    exact h
  · rw [heq]
    exact h.of_waitlist rfl
  · rw [heq]
    have hroom := hjoins.room
    obtain rfl := hjoins.eq
    refine ⟨h.limit_eq, ?_⟩
    show (kept ++ [_]).length ≤ limit
    rw [h.limit_eq] at hroom
    rw [List.length_append, List.length_singleton]
    exact hroom

/-- Handing a box on changes no limit. -/
theorem limit_dispatch (x : Exchange) : x.dispatch.2.waitlist.limit = x.waitlist.limit := by
  have hlimit := Waitlist.limit_pop x.isAbandoned x.waitlist
  unfold dispatch
  rcases hpop : x.waitlist.pop x.isAbandoned with ⟨_ | w, waitlist⟩
  · rw [hpop] at hlimit
    exact hlimit
  · rw [hpop] at hlimit
    dsimp only
    split
    · exact hlimit
    · exact hlimit

/-- Requests only leave the line when a box is handed on; one that gets no box goes back to its
place. -/
theorem Bounded.dispatch (h : x.Bounded limit) : x.dispatch.2.Bounded limit := by
  refine h.congr x.limit_dispatch ?_
  obtain ⟨waitlist, heq, hline⟩ | ⟨w, waitlist, slot, boxes, hline, -, heq⟩ := x.dispatch_cases
  · rw [heq]
    exact hline
  · rw [heq]
    exact (List.sublist_cons_self w waitlist.line).trans hline

/-- Nobody joins the line because of a frame. -/
theorem Bounded.route (h : x.Bounded limit) {r : Reply} {frames : List Request}
    (hroute : x.route r = .ok (frames, x')) : x'.Bounded limit := by
  obtain ⟨rfl, -⟩ | ⟨-, isHead, hdeliver⟩ | ⟨-, a, -, rfl, -⟩ := route_cases hroute
  · exact h
  · obtain ⟨completes, freed, boxes, -, heq⟩ := deliver_cases hdeliver
    have hheard : (({ x with boxes } : Exchange).settleAll (.complete r.payload)
        completes).Bounded limit := h.of_waitlist (settleAll_waitlist ..)
    split at heq
    · rw [Prod.mk.injEq] at heq
      rw [heq.2]
      exact hheard.dispatch
    · cases heq
      exact hheard
  · exact h.of_waitlist rfl

/-- No box is free when all are owned. -/
theorem Busy.free_eq_nil_iff {capacity : Nat} (h : x.Busy capacity) (hvalid : x.boxes.Valid) :
    x.boxes.free = [] ↔
      ∀ slot : UInt16, slot.toNat < capacity → ∃ o, x.boxes.owner? slot = some o := by
  constructor
  · intro hfree slot hlt
    rw [← Option.ne_none_iff_exists']
    intro hnone
    have hmem := h.complete slot (h.size ▸ hlt) hnone
    rw [hfree] at hmem
    cases hmem
  · intro howned
    rw [List.eq_nil_iff_forall_not_mem]
    intro slot hslot
    obtain ⟨o, howner⟩ := howned slot (h.size ▸ hvalid.inBounds slot hslot)
    rw [hvalid.unowned slot hslot] at howner
    cases howner

end Exchange

/-! ## Sessions -/

namespace Usage

variable {u u' : Usage} {a : Action} {limit capacity : Nat}

/-- A step that leaves the session open leaves the line within its limit. -/
theorem Effect.bounded (h : u.Effect a u') (hu : u.session.exchange.Bounded limit)
    (hopen : u.IsOpen) (hopen' : u'.IsOpen) : u'.session.exchange.Bounded limit := by
  cases h with
  | rests h => exact hu.of_waitlist h.waitlist
  | opens => exact hu
  | touches h => exact hu.of_waitlist h.waitlist
  | @refuses _ _ ask bytes _ _ hsubmit h =>
    have hnext := hu.submit hopen ask bytes
    rw [hsubmit] at hnext
    exact hnext.of_waitlist h.waitlist
  | @accepts _ _ ask bytes _ _ hshort hsubmit h =>
    have hnext := hu.submit hopen ask bytes
    rw [hsubmit] at hnext
    exact hnext.of_waitlist h.waitlist
  | plays hc hmoves =>
    obtain ⟨_, _, _, rfl⟩ := hmoves.frame
    exact hu.of_waitlist rfl
  | routes hroute h => exact (hu.route hroute).of_waitlist h.waitlist
  | ends ha h => exact absurd hopen' (not_isOpen_of_shutdown h)

/-- So does a run. -/
theorem bounded_run {actions : List Action} (hu : u.session.exchange.Bounded limit)
    (hopen : (u.run actions).IsOpen) : (u.run actions).session.exchange.Bounded limit := by
  induction actions generalizing u with
  | nil => exact hu
  | cons a actions ih =>
    have hnext : (u.step a).IsOpen := IsOpen.of_run hopen
    exact ih ((u.step_effect a).bounded hu hnext.of_step hnext) hopen

/-- Every box is owned. -/
def AllOwned (capacity : Nat) (u : Usage) : Prop :=
  ∀ slot : UInt16, slot.toNat < capacity → ∃ r, u.Owns r slot

/-- Whether all callers of a request gave it up. -/
def GivenUp (u : Usage) (r : Receivers) : Prop :=
  u.session.exchange.isAbandoned r = true

/-- What comes of a request with a payload that is not too large. -/
structure Sends (capacity limit : Nat) (u : Usage) (bytes : Bytes)
    (answer : Except Cause Receivers × Session) : Prop where
  /-- It is refused when every box is owned and the line is full of requests that somebody still
  waits for. -/
  refused : answer.1 = .error .backpressure ↔
    u.AllOwned capacity ∧ u.line.length = limit ∧ ∀ w ∈ u.line, ¬ u.GivenUp w.receivers
  /-- It is refused for no other reason, and then nothing changes. -/
  harmless : ∀ e, answer.1 = .error e → e = .backpressure ∧ answer.2 = u.session
  /-- If it is accepted while every box is owned it is the last in line. Before it those that
  somebody waits for are as they were; others left only if the line was full. -/
  queued : ∀ r, u.AllOwned capacity → answer.1 = .ok r → ∃ kept,
    answer.2.exchange.waitlist.line = kept ++ [⟨bytes, r⟩] ∧ kept.Sublist u.line ∧
    Waitlist.live u.session.exchange.isAbandoned kept =
      Waitlist.live u.session.exchange.isAbandoned u.line ∧
    (kept ≠ u.line → u.line.length = limit) ∧
    answer.2.exchange.boxes = u.session.exchange.boxes ∧ answer.2.mailbox = u.session.mailbox

/-- How a session that is open holds requests back. -/
structure Pressure (capacity limit : Nat) (u : Usage) : Prop where
  /-- The line is no longer than its limit. -/
  bounded : u.line.length ≤ limit
  /-- A request in line was given up when all its callers closed their responses. -/
  givenUp_iff : ∀ w ∈ u.line, u.GivenUp w.receivers ↔ u.AllClosed w.receivers
  sends : ∀ ask service payload bytes, u.session.envelope service payload = .ok bytes →
    u.Sends capacity limit bytes (u.session.submit ask service payload)

/-- In line, what was given up is what was closed. -/
theorem InCustody.givenUp_iff (h : u.InCustody) {w : WaitingRequest} (hw : w ∈ u.line) :
    u.GivenUp w.receivers ↔ u.AllClosed w.receivers := by
  refine ⟨fun hgiven => Custody.closed_of_isAbandoned h hw hgiven, fun hclosed => ?_⟩
  refine List.all_eq_true.2 fun id hid => ?_
  have hstate : u.session.exchange.promiseState id = .closed := (hclosed id hid).2
  rw [hstate]
  rfl

/-- What comes of a request in a session whose line keeps to its limit. -/
theorem Orderly.sends (h : Orderly capacity u) (hopen : u.IsOpen)
    (hbounded : u.session.exchange.Bounded limit) {ask : Exchange.Ask} {service : UInt64}
    {payload bytes : Bytes} (henvelope : u.session.envelope service payload = .ok bytes) :
    u.Sends capacity limit bytes (u.session.submit ask service payload) := by
  have hfree : u.session.exchange.boxes.free = [] ↔ u.AllOwned capacity := by
    rw [h.busy.free_eq_nil_iff h.custody.held.valid]
    refine forall_congr' fun slot => imp_congr_right fun _ => ?_
    exact ⟨fun ⟨o, howner⟩ => ⟨o.receivers, o, howner, rfl⟩, fun ⟨_, o, howner, _⟩ => ⟨o, howner⟩⟩
  have hlive : (∀ w ∈ u.line, ¬ u.GivenUp w.receivers) ↔
      ∀ w ∈ u.line, u.session.exchange.isAbandoned w.receivers = false :=
    forall₂_congr fun w _ => by rw [GivenUp, Bool.not_eq_true]
  unfold Session.submit
  rw [henvelope]
  dsimp only
  obtain ⟨hnone, hfull, hwaited, heq⟩ | ⟨slot, boxes, hbox, heq⟩ |
    ⟨hnone, hroom, kept, waitlist, hjoins, heq⟩ := hbounded.submit_cases hopen ask bytes
  · rw [heq]
    refine ⟨iff_of_true rfl ⟨hfree.1 hnone, hfull, hlive.2 hwaited⟩, fun e he => ?_, nofun⟩
    cases he
    exact ⟨rfl, rfl⟩
  · -- a box is free, so not all are owned
    have hsome : ¬ u.AllOwned capacity := by
      rw [← hfree,
        ← BoxTable.allocate_eq_none (r := ask.receivers u.session.exchange.promises.size), hbox]
      exact Option.some_ne_none _
    rw [heq]
    exact ⟨iff_of_false nofun fun hrefused => hsome hrefused.1, nofun,
      fun r howned => absurd howned hsome⟩
  · rw [heq]
    refine ⟨iff_of_false nofun fun hrefused => hroom ⟨hrefused.2.1, hlive.1 hrefused.2.2⟩, nofun,
      fun r _ hr => ?_⟩
    cases hr
    obtain rfl := hjoins.eq
    exact ⟨kept, rfl, hjoins.sublist, hjoins.live_eq,
      fun hne => (hjoins.full hne).trans hbounded.limit_eq, rfl, rfl⟩

/-- Backpressure is exact and harmless: this holds of every session that is still open, whatever was
done with it and whatever frames came. -/
theorem pressure_run (settings : Settings) (link : Link) (id : UInt64) (actions : List Action)
    (hopen : ((start settings link id).run actions).IsOpen) :
    Pressure settings.responseBoxes settings.pendingLimit
      ((start settings link id).run actions) := by
  have horderly := (orderly_start settings link id).run hopen
  have hstart : (start settings link id).session.exchange.Bounded settings.pendingLimit :=
    (Exchange.bounded_ofSettings settings).of_waitlist rfl
  have hbounded := bounded_run hstart hopen
  exact ⟨hbounded.length_le, fun w hw => horderly.custody.givenUp_iff hw,
    fun ask service payload bytes henvelope => horderly.sends hopen hbounded henvelope⟩

/-- A session with one box and room for two requests in line, of which one was given up. -/
def pressed : Usage × List Action :=
  let settings := (({} : Environment).settings.withResponseBoxes 1).withPendingLimit 2
  (start settings (.inProcess { capacity := 1 }) 0,
    [.submit .statement 1 [], .submit .query 1 [], .submit .statement 1 [], .abandon 1,
      .abandon 2])

/-- `pressure_run` in a session that is pressed: the query that was closed twice makes room for one
more request, and the next one is refused. -/
theorem pressure_run_pressed :
    (pressed.1.run pressed.2).IsOpen ∧ Pressure 1 2 (pressed.1.run pressed.2) ∧
    ((pressed.1.run pressed.2).session.submit .statement 1 []).1 = .ok (.statement 4) ∧
    ((pressed.1.run (pressed.2 ++ [.submit .statement 1 []])).session.submit .query 1 []).1 =
      .error .backpressure := by
  have hopen : (pressed.1.run pressed.2).session.exchange.closed = false := by decide +kernel
  exact ⟨hopen, pressure_run _ _ _ _ hopen, by decide +kernel, by decide +kernel⟩

end Usage

end QueryLink
