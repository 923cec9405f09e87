import ForwardAuth.Scope

/-!
# What the scope of a request lets through

A scope decides three things about a call: whether it is started, whether it is waited for, and
how far the clock has moved when it ends. What it never does is change the answer. An answer that
gets through is the call's own, and every other ending names an interruption or no ending at all.

The comparison that matters is with the same call in a scope that nothing disturbs, with no
cancellation among its steps and no deadline. `follow_undisturbed` compares the two: either the
disturbed call was interrupted, or both ended in the same way at the same time. So a disturbance
can end the wait for an answer but cannot replace it, and that is the one fact about time that the
comparison of whole resolutions rests on.

A call that never waits leaves no room for an interruption. Whoever cancels the request meanwhile,
and however long the call works, `run_immediate` says that its answer is received.

## Main definitions

* `Call.Step.isCancel`, `Call.Step.isWait`: The steps that disturb, and those that can be disturbed.
* `Call.undisturbed`, `Scope.undisturbed`: A call and a scope without cancellations and deadline.
* `Call.Immediate`: The call answers without waiting.
* `Scope.Receives`: Calls made one after another are received with the given answers.

## Theorems

* `hindrance?_undisturbed`: Nothing hinders a call in an undisturbed scope.
* `run_of_hindrance`: A hindered call is not started.
* `run_of_alive`: A call that nothing hinders is started and followed.
* `follow_answered`: An answer that is received is the call's own.
* `run_answered`: The same for a call that was started here.
* `follow_undisturbed`: A call is interrupted, or ends as it would undisturbed.
* `follow_immediate`: A call that does not wait is answered.
* `run_immediate`: A call that does not wait is hindered or answered.
* `receives_cons`: Reception of the first call, and then of the others.
-/

namespace ForwardAuth

namespace Call

/-- The step is a cancellation. -/
def Step.isCancel : Step → Bool
  | .cancel _ => true
  | _ => false

/-- The step waits. -/
def Step.isWait : Step → Bool
  | .wait _ => true
  | _ => false

variable {α : Type}

/-- The steps that are no cancellations. -/
def calmSteps (steps : List Step) : List Step :=
  steps.filter fun step => !step.isCancel

/-- The same call without the cancellations on its way. -/
def undisturbed (c : Call α) : Call α :=
  { c with steps := calmSteps c.steps }

/-- The call answers, and does not wait before it does. -/
structure Immediate (c : Call α) : Prop where
  no_wait : ∀ step ∈ c.steps, step.isWait = false
  answers : ∃ a, c.answer = some a

end Call

namespace Scope

variable {α : Type}

/-- The same moment in a scope that is not cancelled and has no deadline. -/
def undisturbed (s : Scope) : Scope :=
  { s with shutdown := false, cancelled := false, deadline := none }

/-- The calls, made one after another, are received with these answers first. -/
def Receives (s : Scope) (calls : List (Call α)) (answers : List α) : Prop :=
  answers.map (fun a => .begun (.answered a)) <+: (s.runAll calls).map Prod.fst

theorem hindrance?_undisturbed (s : Scope) : s.undisturbed.hindrance? = none := by
  simp only [hindrance?, isCancelled, isDue, undisturbed, Bool.or_self, Option.any_none,
    Bool.false_eq_true, if_false]

theorem undisturbed_cancel (s : Scope) (reach : Reach) :
    (s.cancel reach).undisturbed = s.undisturbed := by
  cases reach with
  | request => rfl
  | server => rfl

theorem run_of_hindrance (s : Scope) (c : Call α) (cause : Interruption)
    (h : s.hindrance? = some cause) : s.run c = (.hindered cause, s) := by
  rw [run, h]

theorem run_of_alive (s : Scope) (c : Call α) (h : s.hindrance? = none) :
    s.run c = (.begun (s.follow c.answer c.steps).1, (s.follow c.answer c.steps).2) := by
  rw [run, h]

/-- An answer that is received is the call's own. -/
theorem follow_answered (s : Scope) (answer : Option α) (steps : List Call.Step) (a : α)
    (h : (s.follow answer steps).1 = .answered a) : answer = some a := by
  -- Every step changes the scope, so the induction is over all scopes at once.
  induction steps generalizing s with
  | nil =>
      cases answer with
      | some b =>
          rw [follow] at h
          injection h with h
          rw [h]
      | none =>
          -- Without an answer, each of the three endings is another one.
          rw [follow] at h
          split at h
          · exact absurd h (by simp only [reduceCtorEq, not_false_eq_true])
          · split at h
            · exact absurd h (by simp only [reduceCtorEq, not_false_eq_true])
            · exact absurd h (by simp only [reduceCtorEq, not_false_eq_true])
  | cons step steps ih =>
      cases step with
      | cancel reach => exact ih _ h
      | work duration => exact ih _ h
      | wait duration =>
          rw [follow] at h
          split at h
          · exact absurd h (by simp only [reduceCtorEq, not_false_eq_true])
          · split at h
            · exact absurd h (by simp only [reduceCtorEq, not_false_eq_true])
            · exact ih _ h

theorem run_answered (s : Scope) (c : Call α) (a : α)
    (h : (s.run c).1 = .begun (.answered a)) : c.answer = some a := by
  cases hs : s.hindrance? with
  | some cause =>
      rw [run_of_hindrance s c cause hs] at h
      exact absurd h (by simp only [reduceCtorEq, not_false_eq_true])
  | none =>
      rw [run_of_alive s c hs] at h
      injection h with h
      exact follow_answered s c.answer c.steps a h

/-- A call is interrupted, or ends as it would without any disturbance. Time passes alike on both
    sides, since a wait that is not cut off takes as long as it takes. -/
theorem follow_undisturbed (s : Scope) (answer : Option α) (steps : List Call.Step) :
    (∃ cause, (s.follow answer steps).1 = .interrupted cause) ∨
      s.undisturbed.follow answer (Call.calmSteps steps)
        = ((s.follow answer steps).1, (s.follow answer steps).2.undisturbed) := by
  induction steps generalizing s with
  | nil =>
      cases answer with
      | some a => exact Or.inr rfl
      | none =>
          by_cases hc : s.isCancelled
          · exact Or.inl ⟨.cancelled, by rw [follow, if_pos hc]⟩
          · -- Without an answer, a deadline always ends the wait in the end.
            by_cases hd : s.deadline.isSome
            · exact Or.inl ⟨.deadlineExceeded, by rw [follow, if_neg hc, if_pos hd]⟩
            · refine Or.inr ?_
              rw [Call.calmSteps, List.filter_nil, follow, follow, if_neg hc, if_neg hd]
              rfl
  | cons step steps ih =>
      cases step with
      | cancel reach =>
          -- The undisturbed call has no such step, and the undisturbed scope does not see it.
          have h := ih (s.cancel reach)
          rw [undisturbed_cancel] at h
          exact h
      | work duration => exact ih { s with now := s.now + duration }
      | wait duration =>
          by_cases hc : s.isCancelled
          · exact Or.inl ⟨.cancelled, by rw [follow, if_pos hc]⟩
          · by_cases hd : s.isDue (s.now + duration)
            · exact Or.inl ⟨.deadlineExceeded, by rw [follow, if_neg hc, if_pos hd]⟩
            · -- A wait that is not cut off takes as long on both sides.
              have h := ih { s with now := s.now + duration }
              have hrun : s.follow answer (.wait duration :: steps)
                  = { s with now := s.now + duration }.follow answer steps := by
                rw [follow, if_neg hc, if_neg hd]
              rw [hrun]
              exact h

/-- A call that does not wait is answered, whoever cancels the request meanwhile. -/
theorem follow_immediate (s : Scope) (a : α) (steps : List Call.Step)
    (h : ∀ step ∈ steps, step.isWait = false) : (s.follow (some a) steps).1 = .answered a := by
  induction steps generalizing s with
  | nil => rfl
  | cons step steps ih =>
      have hrest : ∀ t ∈ steps, t.isWait = false := fun t ht => h t (List.mem_cons_of_mem _ ht)
      cases step with
      | cancel reach => exact ih (s.cancel reach) hrest
      | work duration => exact ih { s with now := s.now + duration } hrest
      | wait duration =>
          -- There is no such step in a call that does not wait.
          have hw : true = false := h (.wait duration) List.mem_cons_self
          exact absurd hw (by decide)

theorem run_immediate (s : Scope) (c : Call α) (hc : c.Immediate) :
    (∃ cause, s.run c = (.hindered cause, s)) ∨ ∃ a, (s.run c).1 = .begun (.answered a) := by
  cases hs : s.hindrance? with
  | some cause => exact Or.inl ⟨cause, run_of_hindrance s c cause hs⟩
  | none =>
      rcases hc.answers with ⟨a, ha⟩
      refine Or.inr ⟨a, ?_⟩
      rw [run_of_alive s c hs, ha, follow_immediate s a c.steps hc.no_wait]

/-- The first of several calls is received, and then the others are. -/
theorem receives_cons (s : Scope) (c : Call α) (calls : List (Call α)) (a : α) (answers : List α) :
    s.Receives (c :: calls) (a :: answers) ↔
      ∃ s', s.run c = (.begun (.answered a), s') ∧ s'.Receives calls answers := by
  unfold Receives
  rw [runAll, List.map_cons]
  -- Of all the ways in which the first call may end, only its answer starts the list of answers.
  rcases s.run c with ⟨run, s'⟩
  constructor
  · intro h
    cases run with
    | hindered cause =>
        rw [List.map_cons, List.cons_prefix_cons] at h
        exact absurd h.1 (by simp only [reduceCtorEq, not_false_eq_true])
    | begun ending =>
        cases ending with
        | answered b =>
            rw [List.map_cons, List.cons_prefix_cons] at h
            exact ⟨s', by rw [h.1], h.2⟩
        | interrupted cause =>
            rw [List.map_cons, List.cons_prefix_cons] at h
            exact absurd h.1 (by simp only [Run.begun.injEq, reduceCtorEq, not_false_eq_true])
        | pending =>
            rw [List.map_cons, List.cons_prefix_cons] at h
            exact absurd h.1 (by simp only [Run.begun.injEq, reduceCtorEq, not_false_eq_true])
  · rintro ⟨t, hrun, hrest⟩
    injection hrun with hrun hs
    rw [hrun, hs, List.map_cons, List.cons_prefix_cons]
    exact ⟨rfl, hrest⟩

end Scope

end ForwardAuth
