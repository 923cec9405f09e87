import ForwardAuth.Proofs.Interruption
import ForwardAuth.Review.Client

/-!
# Cancelled on the way

A resolution that is interrupted ends with the interruption, but there are two of these, and a
request may be cancelled and out of time at once. Once it is cancelled, this is what counts: the
cancellation is asked about first, before a review and at every wait. So a resolution that ends
cancelled either has lost nothing, because its last answer came without another wait, or it says
that it was cancelled. `hold_of_isCancelled` shows this by the same comparison with an undisturbed
run as before.

The other direction is about blame. A scope is cancelled only by a call that was followed in it, and
the calls of a client are those of its network, cut off at the latest when the client gives up. So
if a request ends cancelled and did not begin so, one of the exchanges with the network cancels it.

## Main definitions

* `Network.Cancels`: An exchange cancels the request that it is for.

## Theorems

* `cancelled_follow`: A call that cancels the request has a step that does it.
* `eq_cancelled_of_follow`: A wait that is given up by a cancelled request is cancelled.
* `eq_of_proceeds_of_isCancelled`: A cancelled request only looks into its own token.
* `hold_of_isCancelled`: A dialogue that ends cancelled loses nothing or says so.
* `resolve_of_isCancelled`, `resolve_ending_cancelled`: The same for a resolution.
* `cancels_of_resolve`: A request is cancelled on its way by an exchange only.
-/

namespace ForwardAuth

variable {σ α : Type}

theorem Scope.cancelled_follow {s : Scope} {answer : Option α} {steps : List Call.Step}
    (h : (s.follow answer steps).2.cancelled = true) :
    s.cancelled = true ∨ .cancel .request ∈ steps := by
  -- Only a step that cancels the request sets this in its scope.
  induction steps generalizing s with
  | nil =>
      left
      cases answer with
      | some a => exact h
      | none =>
          rw [follow] at h
          split at h
          · exact h
          · split at h
            · exact h
            · exact h
  | cons step steps ih =>
      cases step with
      | cancel reach =>
          rcases ih h with hs | hmem
          · cases reach with
            | request => exact Or.inr List.mem_cons_self
            | server => exact Or.inl hs
          · exact Or.inr (List.mem_cons_of_mem _ hmem)
      | work duration => exact (ih h).imp id (List.mem_cons_of_mem _)
      | wait duration =>
          rw [follow] at h
          split at h
          · exact Or.inl h
          · split at h
            · exact Or.inl h
            · exact (ih h).imp id (List.mem_cons_of_mem _)

/-- A wait that is given up by a cancelled request is given up for this reason. -/
theorem Scope.eq_cancelled_of_follow {s : Scope} {answer : Option α} {steps : List Call.Step}
    {cause : Interruption} (h : (s.follow answer steps).1 = .interrupted cause)
    (hc : (s.follow answer steps).2.isCancelled = true) : cause = .cancelled := by
  induction steps generalizing s with
  | nil =>
      cases answer with
      | some a => cases h
      | none =>
          rw [follow] at h hc
          by_cases hs : s.isCancelled = true
          · rw [if_pos hs] at h
            exact (Ending.interrupted.inj h).symm
          · -- Reaching the deadline does not cancel the request.
            rw [if_neg hs] at hc
            split at hc
            · exact absurd hc hs
            · exact absurd hc hs
  | cons step steps ih =>
      cases step with
      | cancel reach => exact ih h hc
      | work duration => exact ih h hc
      | wait duration =>
          rw [follow] at h hc
          by_cases hs : s.isCancelled = true
          · rw [if_pos hs] at h
            exact (Ending.interrupted.inj h).symm
          · rw [if_neg hs] at h hc
            by_cases hd : s.isDue (s.now + duration) = true
            · rw [if_pos hd] at hc
              exact absurd hc hs
            · rw [if_neg hd] at h hc
              exact ih h hc

theorem Scope.hindrance?_of_isCancelled {s : Scope} (h : s.isCancelled = true) :
    s.hindrance? = some .cancelled := by
  rw [hindrance?, if_pos h]

theorem Interruption.refusal_injective {cause cause' : Interruption}
    (h : cause.refusal = cause'.refusal) : cause = cause' := by
  cases cause with
  | cancelled =>
      cases cause' with
      | cancelled => rfl
      | deadlineExceeded => exact absurd h (by decide)
  | deadlineExceeded =>
      cases cause' with
      | cancelled => exact absurd h (by decide)
      | deadlineExceeded => rfl

-- Of the ways in which a call ends, only an interruption is shown by its refusal.
theorem Ending.eq_interrupted_of_result {ending : Ending α} {cause : Interruption}
    (h : ending.result = .error (.refused cause.refusal)) : ending = .interrupted cause := by
  cases ending with
  | answered a => cases h
  | interrupted cause' =>
      injection h with h
      injection h with h
      rw [Interruption.refusal_injective h]
  | pending => cases h

namespace Resolution

open Review (Question Network)

/-- A question that a cancelled request gives up is given up for this reason. -/
theorem eq_cancelled_of_put {A : Authority σ} {q : Question} {p p' : Progress σ}
    {cause : Interruption}
    (h : (Resolving.put A q).runFrom p = (.error (.refused cause.refusal), p'))
    (hc : p'.scope.isCancelled = true) : cause = .cancelled := by
  rcases hs : p.scope.hindrance? with _ | hindrance
  · rw [Resolving.runFrom_put_of_begun A q p _ _ (Scope.run_of_alive _ _ hs)] at h
    injection h with hresult hp
    rw [← hp] at hc
    exact Scope.eq_cancelled_of_follow (Ending.eq_interrupted_of_result hresult) hc
  · rw [Resolving.runFrom_put_of_hindrance A q p hindrance hs] at h
    injection h with hresult hp
    rw [← hp] at hc
    rw [Scope.hindrance?_of_isCancelled hc] at hs
    injection hresult with hresult
    injection hresult with hresult
    rw [← Interruption.refusal_injective hresult, Option.some.inj hs]

/-- A dialogue that ends cancelled ends as it would undisturbed, or with the cancellation. -/
theorem hold_of_isCancelled (A : Authority σ) (d : Dialogue α) (p : Progress σ)
    (h : ((d.hold A).runFrom p).2.scope.isCancelled = true) :
    (d.hold A.undisturbed).runFrom p.undisturbed
        = (((d.hold A).runFrom p).1, ((d.hold A).runFrom p).2.undisturbed) ∨
      ((d.hold A).runFrom p).1 = .error (.refused .cancelled) := by
  induction d generalizing p with
  | settled result =>
      left
      rw [Dialogue.hold_settled, Dialogue.hold_settled, Resolving.runFrom_ofExcept,
        Resolving.runFrom_ofExcept]
  | ask q next ih =>
      have hhold : ((Dialogue.ask q next).hold A).runFrom p = _ :=
        Resolving.runFrom_bind (Resolving.put A q) (fun a => (next a).hold A) p
      rw [hhold] at h ⊢
      rcases hs : p.scope.hindrance? with _ | cause
      · rcases put_undisturbed A q p hs with ⟨cause, p', -, hput⟩ | hsame
        · rw [hput] at h ⊢
          rw [eq_cancelled_of_put hput h]
          exact Or.inr rfl
        · -- The answer is the same on both sides, and so is what follows it.
          rw [Dialogue.hold_ask, Resolving.runFrom_bind, hsame]
          rcases hput : (Resolving.put A q).runFrom p with ⟨stop | a, p'⟩
          · exact Or.inl rfl
          · rw [hput] at h
            exact ih a p' h
      · rw [Resolving.runFrom_put_of_hindrance A q p cause hs] at h ⊢
        rw [Scope.hindrance?_of_isCancelled h] at hs
        rw [← Option.some.inj hs]
        exact Or.inr rfl
  | inspect inspection next ih =>
      rw [Dialogue.hold_inspect, Resolving.runFrom_bind] at h
      rw [Dialogue.hold_inspect, Dialogue.hold_inspect, Resolving.runFrom_bind,
        Resolving.runFrom_bind]
      exact ih p.inspections { p with inspections := p.inspections ++ [inspection] } h

/-- A request that is cancelled makes no progress, apart from looking into its own token. -/
theorem eq_of_proceeds_of_isCancelled {A : Authority σ} {p p' : Progress σ}
    (h : Relation.ReflTransGen (Proceeds A) p p') (hc : p.scope.isCancelled = true) :
    p' = { p with inspections := p'.inspections } := by
  induction h with
  | refl => rfl
  | @tail p₁ p₂ _ hstep ih =>
      cases hstep with
      | review hbegins =>
          -- No review begins in a scope that is cancelled, and the scope is still the same.
          have hscope : p₁.scope = p.scope := by rw [ih]
          rw [← hscope, hbegins.not_cancelled] at hc
          exact absurd hc Bool.false_ne_true
      | inspection inspection =>
          rw [ih]

section Resolutions

variable [Wording]

-- One dialogue for a resolution and for the same without disturbance.
theorem resolve_eq_hold (r : Resolver σ) (request : Request) :
    ∃ d : Dialogue Identity, ∀ (scope : Scope) (memory : σ),
      r.resolve request scope memory
        = ⟨((d.hold r.authority).runFrom ⟨scope, memory, [], []⟩).1,
          ((d.hold r.authority).runFrom ⟨scope, memory, [], []⟩).2⟩ ∧
      r.undisturbed.resolve request scope memory
        = ⟨((d.hold r.authority.undisturbed).runFrom ⟨scope, memory, [], []⟩).1,
          ((d.hold r.authority.undisturbed).runFrom ⟨scope, memory, [], []⟩).2⟩ := by
  rcases uniform_resolving r.extractor request (.ofRequest request) with ⟨d, hd⟩
  refine ⟨d, fun scope memory => ⟨?_, ?_⟩⟩
  · rw [← hd σ r.authority]
    rfl
  · rw [← hd σ r.authority.undisturbed]
    rfl

theorem proceeds_resolve (r : Resolver σ) (request : Request) (scope : Scope) (memory : σ) :
    Relation.ReflTransGen (Proceeds r.authority) ⟨scope, memory, [], []⟩
      (r.resolve request scope memory).progress := by
  rcases resolve_eq_hold r request with ⟨d, hd⟩
  rw [(hd scope memory).1]
  exact proceeds_hold r.authority d ⟨scope, memory, [], []⟩

/-- A resolution that ends cancelled ends as it would undisturbed, or with the cancellation. -/
theorem resolve_ending_cancelled (r : Resolver σ) (request : Request) (scope : Scope) (memory : σ)
    (h : (r.resolve request scope memory).progress.scope.isCancelled = true) :
    ((r.resolve request scope memory).progress.reviews
        = (r.undisturbed.resolve request scope.undisturbed memory).progress.reviews ∧
      (r.resolve request scope memory).result
        = (r.undisturbed.resolve request scope.undisturbed memory).result) ∨
      (r.resolve request scope memory).result = .error (.refused .cancelled) := by
  rcases resolve_eq_hold r request with ⟨d, hd⟩
  rw [(hd scope memory).1] at h ⊢
  rw [(hd scope.undisturbed memory).2]
  rcases hold_of_isCancelled r.authority d ⟨scope, memory, [], []⟩ h with hsame | hcancelled
  · change (d.hold r.authority.undisturbed).runFrom ⟨scope.undisturbed, memory, [], []⟩ = _ at hsame
    rw [hsame]
    exact Or.inl ⟨rfl, rfl⟩
  · exact Or.inr hcancelled

/-- A request that is cancelled begins no review. If one is needed, it is told that it was
    cancelled, and else it is resolved as if nothing had happened. -/
theorem resolve_of_isCancelled (r : Resolver σ) (request : Request) {scope : Scope} (memory : σ)
    (h : scope.isCancelled = true) :
    (r.resolve request scope memory).progress
        = ⟨scope, memory, [], (r.resolve request scope memory).progress.inspections⟩ ∧
      ((r.undisturbed.resolve request scope.undisturbed memory).progress.reviews = [] →
        (r.resolve request scope memory).result
          = (r.undisturbed.resolve request scope.undisturbed memory).result) ∧
      ((r.undisturbed.resolve request scope.undisturbed memory).progress.reviews ≠ [] →
        (r.resolve request scope memory).result = .error (.refused .cancelled)) := by
  have hprogress := eq_of_proceeds_of_isCancelled (proceeds_resolve r request scope memory) h
  refine ⟨hprogress, fun hnone => ?_, fun hneeded => ?_⟩
  · -- A dialogue without a review does not notice that it is cut short.
    rcases resolve_eq_hold r request with ⟨d, hd⟩
    rw [(hd scope.undisturbed memory).2] at hnone ⊢
    rw [(hd scope memory).1]
    exact (hold_cutShort r.authority d ⟨scope, memory, [], []⟩).of_no_review hnone
  · rcases resolve_ending_cancelled r request scope memory (by rw [hprogress]; exact h) with
      ⟨hreviews, -⟩ | hcancelled
    · -- Nothing was begun, so the two cannot have had the same reviews.
      rw [hprogress] at hreviews
      exact absurd hreviews.symm hneeded
    · exact hcancelled

end Resolutions

theorem cancelled_of_proceeds {A : Authority σ} {p p' : Progress σ}
    (h : Relation.ReflTransGen (Proceeds A) p p') (hc : p'.scope.cancelled = true) :
    p.scope.cancelled = true ∨ ∃ q memory, .cancel .request ∈ (A.put q memory).1.steps := by
  induction h with
  | refl => exact Or.inl hc
  | @tail p₁ p₂ _ hstep ih =>
      cases hstep with
      | inspection inspection => exact ih hc
      | review hbegins =>
          rcases hbegins.review with ⟨q, ending, hrun, -⟩
          -- A review that has begun was not hindered, so the call was followed.
          have halive : p₁.scope.hindrance? = none := by
            rcases hs : p₁.scope.hindrance? with _ | cause
            · rfl
            · rw [Scope.run_of_hindrance _ _ cause hs] at hrun
              cases hrun
          rw [Scope.run_of_alive _ _ halive] at hrun
          rw [← (Prod.mk.inj hrun).2] at hc
          rcases Scope.cancelled_follow hc with hbefore | hmem
          · exact ih hbefore
          · exact Or.inr ⟨q, _, hmem⟩

end Resolution

/-! ## Who cancels a request on its way -/

theorem Call.cancel_mem_of_within_go {late : α} {c : Call α} {reach : Reach} (left : Nat)
    (steps : List Step) (h : .cancel reach ∈ (within.go late c left steps).steps) :
    .cancel reach ∈ steps := by
  induction steps generalizing left with
  | nil =>
      rw [within.go] at h
      cases hc : c.answer with
      | none =>
          rw [hc] at h
          rcases List.mem_singleton.mp h
      | some a =>
          rw [hc] at h
          exact absurd h List.not_mem_nil
  | cons step steps ih =>
      cases step with
      | cancel reach' =>
          rcases List.mem_cons.mp h with heq | h
          · rw [heq]
            exact List.mem_cons_self
          · exact List.mem_cons_of_mem _ (ih left h)
      | work duration =>
          rcases List.mem_cons.mp h with heq | h
          · cases heq
          · exact List.mem_cons_of_mem _ (ih _ h)
      | wait duration =>
          rw [within.go] at h
          by_cases hlate : left ≤ duration
          · -- What the client gives up on is cut off at a wait.
            rw [if_pos hlate] at h
            rcases List.mem_singleton.mp h
          · rw [if_neg hlate] at h
            rcases List.mem_cons.mp h with heq | h
            · cases heq
            · exact List.mem_cons_of_mem _ (ih _ h)

namespace Review

/-- An exchange with the network cancels the request that it is for. -/
def Network.Cancels (network : Network σ) : Prop :=
  ∃ outgoing memory, .cancel .request ∈ (network.send outgoing memory).1.steps

theorem Client.cancels_of_post [Wording] {c : Client} {network : Network σ}
    {kind : Metrics.ReviewKind} {path : String} {read? : List UInt8 → Option α}
    {request : Option Outgoing} {memory : σ}
    (h : .cancel .request ∈ (c.post network kind path read? request memory).1.steps) :
    network.Cancels := by
  rcases request with _ | outgoing
  · exact absurd h List.not_mem_nil
  · exact ⟨outgoing, memory, Call.cancel_mem_of_within_go c.timeout _ h⟩

theorem Client.cancels_of_put [Wording] {c : Client} {network : Network σ} {q : Question}
    {memory : σ} (h : .cancel .request ∈ ((c.authority network).put q memory).1.steps) :
    network.Cancels := by
  cases q with
  | access query => exact cancels_of_post h
  | token query => exact cancels_of_post h

end Review

/-- A request is cancelled on its way only by an exchange with the network. -/
theorem Resolution.cancels_of_resolve [Wording] {e : Extractor} {c : Review.Client}
    {network : Review.Network σ} {request : Request} {scope : Scope} {memory : σ}
    (h : (Resolver.resolve ⟨e, c.authority network⟩ request scope memory).progress.scope.cancelled
      = true) : scope.cancelled = true ∨ network.Cancels := by
  rcases cancelled_of_proceeds (proceeds_resolve _ request scope memory) h with
    hbefore | ⟨q, m, hmem⟩
  · exact Or.inl hbefore
  · exact Or.inr (Review.Client.cancels_of_put hmem)

end ForwardAuth
