import ForwardAuth.Proofs.Isolation

/-!
# Whom a cancellation reaches

A shutdown is for every request of a server, and a cancellation is for one. Both are stated for any
history: whatever configurations the server was told, whichever of its contexts a request arrived
under, and whether the shutdown came from outside or in the middle of a resolution.

Once the server is shut down, every request is over that has arrived or will arrive. None of them
begins another review, and one that needs a review is told that it was cancelled, with status 503.
What needs none is still resolved. Before that, a request is over only if it was cancelled itself,
and everything that becomes of it is the same as without the other requests.

## Main definitions

* `Arrival.calm`: How a request is resolved that nothing interrupts.

## Theorems

* `isDown_of_shutdown`: A shutdown in the middle of a resolution is one of the server.
* `isOver_of_isDown`, `resolve_of_isOver`: What a shutdown means for a request.
* `cancels_of_isOver?`: A request that is over was cancelled by an event of its own.
* `solo_filter`: A request sees the same without the others.
* `cancellation_reaches`: Whom a cancellation reaches.
-/

namespace ForwardAuth.Server

open Resolution (Outcome Proceeds Progress Session)
open Review (Network)

variable {σ : Type}

theorem request?_of_cancels {id : Nat} {e : Event σ} (hconcerns : e.concerns id = true)
    (hcancels : e.Cancels) : e.request? = some id := by
  cases e with
  | change change => exact hcancels.elim
  | arrive other generation now => exact hcancels.elim
  | cancel other => exact congrArg some (eq_of_beq hconcerns)
  | shutDown => exact hcancels.elim
  | resolve other network request memory now => exact congrArg some (eq_of_beq hconcerns)

theorem State.isDown_finish (st : State) : (st.finish st.server.shutdown).isDown = true := by
  have hended := Lifetimes.isEnded_endNumber st.session.lifetimes st.server.shutdown.number
    st.server.shutdown
  rw [beq_self_eq_true, Bool.true_or] at hended
  exact (congrArg (_ || ·) hended).trans (Bool.or_true _)

/-- Once the server is shut down, every request that has arrived is over. -/
theorem State.isOver_of_isDown {st : State} (h : st.Sound) (hdown : st.isDown = true) {id : Nat}
    {a : Arrival} (ha : st.arrivals id = some a) :
    st.session.lifetimes.isOver a.life = true := by
  rw [Lifetimes.isOver, isOuterEnded_eq_isDown h ha, hdown, Bool.true_or]

section Resolving

variable [Wording]

/-- The outcome of resolving a request that nothing interrupts. -/
def Arrival.calm (a : Arrival) (network : Network σ) (request : Request) (memory : σ) (now : Nat) :
    Outcome σ :=
  (a.context.resolver network).undisturbed.resolve request ⟨false, false, none, now⟩ memory

/-- A resolution in the middle of which the server is shut down leaves it so. -/
theorem State.isDown_of_shutdown {st : State} (h : st.Sound) {id : Nat} {a : Arrival}
    (ha : st.arrivals id = some a) (network : Network σ) (request : Request) (memory : σ)
    (now : Nat)
    (hshutdown : (a.resolve st.session network request memory now).1.progress.scope.shutdown
      = true) : (st.step (.resolve id network request memory now)).isDown = true := by
  rw [isDown_of_step h (st.step_spec _), ends_resolve_server h ha, ← resolve_eq_outcome h ha,
    hshutdown, Bool.true_or]

/-- A request that is over is resolved without a review, or told that it was cancelled. -/
theorem Arrival.resolve_of_isOver (a : Arrival) {session : Session}
    (hover : session.lifetimes.isOver a.life = true) (network : Network σ) (request : Request)
    (memory : σ) (now : Nat) :
    let outcome := (a.resolve session network request memory now).1
    let calm := a.calm network request memory now
    outcome.progress.reviews = [] ∧
    (calm.progress.reviews = [] → outcome.result = calm.result) ∧
    (calm.progress.reviews ≠ [] →
      outcome.result = .error (.refused .cancelled) ∧
      ∃ response, responseTo outcome.result = some response ∧ response.status = ⟨503⟩) := by
  rcases Resolution.resolve_of_isCancelled (a.context.resolver network) request memory
    (show (session.lifetimes.scope a.life (some a.deadline) now).isCancelled = true from hover) with
    ⟨hprogress, hnone, hneeded⟩
  rw [a.resolve_eq]
  refine ⟨congrArg Progress.reviews hprogress, hnone, fun hcalm => ?_⟩
  have hcancelled := hneeded hcalm
  exact ⟨hcancelled, _, congrArg responseTo hcancelled, rfl⟩

/-- As long as the server is not shut down, a request that is over was cancelled by an event of its
    own. -/
theorem State.cancels_of_isOver? {st : State} (h : st.Sound) {id : Nat}
    (hnew : st.arrivals id = none) {events : List (Event σ)}
    (hlive : (st.after events).isDown = false)
    (hover : (st.after events).isOver? id = some true) :
    ∃ e ∈ events, e.request? = some id ∧ e.Cancels := by
  -- What the request sees shows that it was cancelled, and this goes back to one of its events.
  have hcancelled : ((st.after events).solo id).isCancelled = true := by
    rw [isOver?_eq_solo (sound_after h events), Option.map_eq_some_iff] at hover
    rcases hover with ⟨standing, hstanding, hover⟩
    rw [show ((st.after events).solo id).down = false from hlive, Bool.false_or] at hover
    rw [Solo.isCancelled, hstanding]
    exact hover
  rw [solo_after_filter h id events hlive] at hcancelled
  rcases Solo.cancels_of_after hcancelled with hbefore | ⟨e, he, hcancels⟩
  · -- Before it arrived there was nothing to cancel.
    rw [Solo.isCancelled, solo, hnew] at hbefore
    exact absurd hbefore Bool.false_ne_true
  · rcases List.mem_filter.mp he with ⟨he, hconcerns⟩
    exact ⟨e, he, request?_of_cancels hconcerns hcancels, hcancels⟩

/-- As long as the server is not shut down, a request sees the same without the others. -/
theorem State.solo_filter {st : State} (h : st.Sound) (id : Nat) {events : List (Event σ)}
    (hlive : (st.after events).isDown = false) :
    (st.after (events.filter (Event.concerns id))).solo id = (st.after events).solo id := by
  rw [solo_after_filter h id events hlive]
  exact solo_after h id _ fun e he => (List.mem_filter.mp he).2

/-- Whom a cancellation reaches. Once the server is shut down, it stays so, and every request is
    over that has arrived or will arrive under any context that the server had: no review begins for
    it, and it is told that it was cancelled if one is needed. If it is cancelled on its way, no
    review begins from then on, and the resolution loses nothing or says that it was cancelled; and
    if this shuts the server down, then for all. As long as the server is not shut down, a request
    is over only if one of its own events cancelled it, and it is resolved as if there were no other
    requests. -/
theorem cancellation_reaches {files : Files} {c : Configuration} {s : Server}
    (h : ofConfiguration files c Lifetimes.empty.start.1 = .ok s) (events : List (Event σ)) :
    let st := (State.initial s).after events
    (st.isDown = true → ∀ later : List (Event σ),
      (st.after later).isDown = true ∧
      ∀ id a, (st.after later).arrivals id = some a →
        (st.after later).session.lifetimes.isOver a.life = true ∧
        ∀ (network : Network σ) request memory now,
          let outcome := (a.resolve (st.after later).session network request memory now).1
          let calm := a.calm network request memory now
          outcome.progress.reviews = [] ∧
          (calm.progress.reviews = [] → outcome.result = calm.result) ∧
          (calm.progress.reviews ≠ [] →
            outcome.result = .error (.refused .cancelled) ∧
            ∃ response, responseTo outcome.result = some response ∧ response.status = ⟨503⟩)) ∧
    (∀ id a, st.arrivals id = some a → ∀ (network : Network σ) request memory now,
      let outcome := (a.resolve st.session network request memory now).1
      let calm := a.calm network request memory now
      Relation.ReflTransGen (Proceeds (a.context.client.authority network))
        ⟨st.session.lifetimes.scope a.life (some a.deadline) now, memory, [], []⟩ outcome.progress ∧
      (outcome.progress.scope.isCancelled = true →
        (outcome.progress.reviews = calm.progress.reviews ∧ outcome.result = calm.result) ∨
          outcome.result = .error (.refused .cancelled)) ∧
      (outcome.progress.scope.shutdown = true →
        (st.step (.resolve id network request memory now)).isDown = true)) ∧
    (st.isDown = false → ∀ id,
      (st.isOver? id = some true → ∃ e ∈ events, e.request? = some id ∧ e.Cancels) ∧
      let alone := (State.initial s).after (events.filter (Event.concerns id))
      alone.isDown = false ∧ alone.isOver? id = st.isOver? id ∧
      ∀ (network : Network σ) request memory now,
        alone.outcome? id network request memory now
          = st.outcome? id network request memory now) := by
  intro st
  have hinitial := State.sound_initial h
  have hsound : st.Sound := State.sound_after hinitial events
  refine ⟨fun hdown later => ?_, fun id a ha network request memory now => ?_,
    fun hlive id => ⟨fun hover => ?_, ?_⟩⟩
  · -- Shut down once, shut down for good, and so for every request of every context.
    have hlater := State.sound_after hsound later
    have hstill := State.isDown_after hsound later hdown
    refine ⟨hstill, fun id a ha => ?_⟩
    have hover := State.isOver_of_isDown hlater hstill ha
    exact ⟨hover, a.resolve_of_isOver hover⟩
  · -- On the way: no review begins in a cancelled scope, and the ending is known from the scope.
    intro outcome calm
    have houtcome : outcome = _ := a.resolve_eq st.session network request memory now
    refine ⟨?_, fun hcancelled => ?_, fun hshutdown => ?_⟩
    · rw [houtcome]
      exact Resolution.proceeds_resolve (a.context.resolver network) request
        (st.session.lifetimes.scope a.life (some a.deadline) now) memory
    · rw [houtcome] at hcancelled ⊢
      exact Resolution.resolve_ending_cancelled (a.context.resolver network) request
        (st.session.lifetimes.scope a.life (some a.deadline) now) memory hcancelled
    · exact State.isDown_of_shutdown hsound ha network request memory now hshutdown
  · exact State.cancels_of_isOver? hinitial rfl hlive hover
  · -- Both histories look the same to the request.
    have hseen := State.solo_filter hinitial id hlive
    have halone := State.sound_after hinitial (events.filter (Event.concerns id))
    refine ⟨(congrArg Solo.down hseen).trans hlive, ?_, fun network request memory now => ?_⟩
    · rw [State.isOver?_eq_solo halone, State.isOver?_eq_solo hsound, hseen]
    · rw [State.outcome?_eq_solo halone, State.outcome?_eq_solo hsound, hseen]

end Resolving

/-- A request arrives before the server is shut down and another one afterwards. -/
theorem isOver_of_shutdown :
    let _ : Wording := .own
    let files : Files := fun _ => .error .noSuchFile
    let c : Configuration := ⟨⟨.v4 127 0 0 1, 8000, 3600, 60, 10000, none⟩, 4, "sub",
      ⟨"http://authority", 5000, none, none, none, none⟩, none⟩
    ∃ s, ofConfiguration files c Lifetimes.empty.start.1 = .ok s ∧
      ∀ id < 2, ((State.initial s).after
        ([.arrive 0 0 0, .shutDown, .arrive 1 0 0] : List (Event Unit))).isOver? id
          = some true := by
  intro _ files c
  have hbuilt : (ofConfiguration files c Lifetimes.empty.start.1).isOk = true := by decide +kernel
  rcases hs : ofConfiguration files c Lifetimes.empty.start.1 with e | s
  · rw [hs] at hbuilt
    exact absurd hbuilt Bool.false_ne_true
  · refine ⟨s, rfl, fun id hid => ?_⟩
    have h := (cancellation_reaches hs ([.arrive 0 0 0, .shutDown] : List (Event Unit))).1
      (State.isDown_finish _) [.arrive 1 0 0]
    have harrived : ∃ a, ((State.initial s).after
        ([.arrive 0 0 0, .shutDown, .arrive 1 0 0] : List (Event Unit))).arrivals id = some a := by
      rcases Nat.lt_succ_iff_lt_or_eq.mp hid with hzero | rfl
      · rw [Nat.lt_one_iff.mp hzero]
        exact ⟨_, rfl⟩
      · exact ⟨_, rfl⟩
    rcases harrived with ⟨a, ha⟩
    rw [State.isOver?, ha]
    exact congrArg some (h.2 id a ha).1

end ForwardAuth.Server
