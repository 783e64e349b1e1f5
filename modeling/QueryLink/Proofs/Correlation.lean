import QueryLink.Proofs.ConversationSteps

/-!
# Replies reach their requests

In a conversation with a server that keeps to the protocol, whatever callers, the pump, the server
and the far end do and in whatever order, a promise becomes ready with what the server replied to
its own request, and the server never has two requests with the same box that are not fully
answered. A box that was given to a waiting request, or whose caller abandoned the response, makes
no difference.

## Key results

- `Sound.run`, `sound_start`: the invariant holds in every run
- `correlated_run`: what callers and the server may rely on
-/

namespace QueryLink.Conversation

variable {c : Conversation}

/-- Every step keeps the invariant. -/
theorem Sound.step (h : c.Sound) (a : Action) : (c.step a).Sound := by
  cases a with
  | submit ask service payload => exact h.submit ask service payload
  | abandon promise => exact h.withExchange (c.session.exchange.same_settle_close promise)
  | take promise => exact h.withExchange (c.session.exchange.same_take promise)
  | await task promise => exact h.withExchange (c.session.exchange.same_await task promise)
  | hold => exact h.of_same rfl rfl rfl (.refl _)
  | letGo => exact h.letGo
  | close closer => exact h.close closer
  | useResultSets catalog readerParked roused =>
    exact h.withExchange ⟨rfl, rfl, rfl, rfl, fun _ _ hready => hready⟩
  | turn => exact h.turn
  | takeMail => exact h.takeMail
  | routeNext =>
    simp only [Conversation.step]
    split
    · rename_i hphase
      exact h.route (by simp [hphase]) 1
    · exact h
  | flush =>
    simp only [Conversation.step]
    split
    · rename_i hphase
      exact h.flush (by simp [hphase])
    · exact h
  | farEnd step =>
    simp only [Conversation.step]
    split
    · rename_i hquiet
      exact h.quiet hquiet _
    · exact h
  | receive => exact h.receive
  | answer number kind payload => exact h.answer number kind payload
  | announce r =>
    simp only [Conversation.step]
    split
    · exact h
    · rename_i hkind
      exact h.announce hkind
  | transmit n size => exact h.transmit n size

/-- Every run keeps the invariant. -/
theorem Sound.run (h : c.Sound) (actions : List Action) : (c.run actions).Sound := by
  unfold Conversation.run
  induction actions generalizing c with
  | nil => exact h
  | cons a actions ih => exact ih (h.step a)

/-- The invariant holds when a session starts. -/
theorem sound_start (settings : Settings) (o : Opening) (id : UInt64) :
    (start settings o id).Sound := by
  have hparcels : ∀ p ∈ (start settings o id).carried ++ (start settings o id).posted,
      p.frame.kind ≠ .payload ∧ p.receivers = none := by
    intro p hp
    simp only [start, List.append_nil, List.mem_map] at hp
    obtain ⟨frame, hframe, rfl⟩ := hp
    exact ⟨o.noRequest frame hframe, rfl⟩
  have hnone := fun p hp => (hparcels p hp).2
  have hframes : (start settings o id).carried.map Parcel.frame = o.requests := by
    simp [start, Function.comp_def]
  have hempty := occupied_start hnone
  have hcapacity := settings.responseBoxes_le
  exact {
    kept := fun _ => o.kept
    carries := by
      rw [hframes]
      exact o.carries
    mailed := fun _ => rfl
    posted := by simp [start]
    account := {
      ledger := .start hparcels
      slots := hempty ▸ List.nodup_nil
      proper := by simp [start]
      ready := by
        intro promise b hready
        simp [start, Session.start, Exchange.rouse, Exchange.ofSettings,
          Exchange.promiseState] at hready }
    served := fun _ => ⟨o.replies, o.brings,
      .start (by omega) hnone fun r hr => not_or.2 (o.noReply r hr)⟩ }

/-- What a caller may rely on. -/
structure Correlated (c : Conversation) : Prop where
  /-- The server never has two requests with the same box that are not fully answered. -/
  slots : ((c.cases.filter Case.isOpen).map fun k => k.frame.slot).Nodup
  /-- What the server got is a request that was submitted, with its payload. -/
  submitted : ∀ k ∈ c.cases,
    ∃ receivers, k.receivers = some receivers ∧ (receivers, k.frame.payload) ∈ c.submitted
  /-- The server got no request twice. -/
  once : (c.cases.filterMap Case.receivers).Nodup
  /-- Each promise belongs to one request. -/
  promises : (c.submitted.flatMap fun s => s.1.promises).Nodup
  /-- A promise that is ready holds what the server replied to it. -/
  ready : ∀ id b, c.session.exchange.promiseState id = .ready b → RepliedTo c.cases id b

/-- Replies reach the requests they are for, whatever happens and in whatever order. -/
theorem correlated_run (settings : Settings) (o : Opening) (id : UInt64) (actions : List Action) :
    ((start settings o id).run actions).Correlated := by
  have hsound := (sound_start settings o id).run actions
  have hledger := hsound.account.ledger
  exact {
    slots := (List.nodup_append.1 hsound.account.slots).2.1
    submitted := hledger.cases
    once := (List.nodup_append.1 (List.nodup_append.1 hledger.once).2.1).2.1
    promises := hledger.promises
    ready := hsound.account.ready }

-- one box: the statement waits, and its request gets the box of the query whose head was closed
example :
    let c := (start (({} : Environment).settings.withResponseBoxes 1) (.inProcess 1) 7).run
      [.submit .query 3 [1], .submit .statement 4 [2], .turn, .receive, .answer 0 .bodyHead [10],
        .turn, .abandon 0, .answer 0 .payload [11], .turn, .receive, .answer 1 .payload [12], .turn]
    c.session.exchange.promiseState 1 = .ready [11] ∧
      c.session.exchange.promiseState 2 = .ready [12] := by
  cbv

end QueryLink.Conversation
