import ForwardAuth.Proofs.Suspensions

/-!
# Calls take turns

Calls that are run one after another in one scope share its cancellation, its deadline and its
clock. `Turn` has one rule for a call that is not started and one for a call that is, which ends as
its suspensions say. A run is a turn of each call in the scope that the one before left behind, up
to the first that is waited for without end. Nothing takes a cancellation back, so once the scope is
cancelled no further call is started.

## Main definitions

* `Scope.Turn`: What becomes of a call when its turn comes.
* `Scope.befores`: The scopes in which the turns of some calls begin.

## Theorems

* `run_eq_iff`: A call that is run has its turn.
* `run_suspended_of_isCancelled`: A call that is suspended in a cancelled scope is given up.
* `run_hanging`: A call that never answers is given up at the deadline.
* `turn_of_runAll`, `runAll_eq_none_iff`: Which calls have a turn, and in which scope.
* `hindered_of_isCancelled`: In a cancelled scope no call is started.
* `calls_take_turns`: Every call has its turn in the scope that the one before left.
-/

namespace ForwardAuth

open Call (Step)

variable {α : Type}

namespace Scope

/-- What becomes of a call when its turn comes, and which scope it leaves. -/
inductive Turn (s : Scope) (c : Call α) : Run α → Scope → Prop where
  | hindered {cause : Interruption} (h : s.GivesUp (some 0) cause) : Turn s c (.hindered cause) s
  | begun {ending : Ending α} {s' : Scope} (halive : s.Bears (some 0)) (h : s.Ends c ending s') :
      Turn s c (.begun ending) s'

/-- The scopes in which the turns of the calls begin, and the one that the last of them leaves. -/
def befores (s : Scope) (calls : List (Call α)) : List Scope :=
  s :: (s.runAll calls).map Prod.snd

/-! ## One turn -/

/-- A call that is run has its turn. -/
theorem run_eq_iff {s s' : Scope} {c : Call α} {run : Run α} :
    s.run c = (run, s') ↔ s.Turn c run s' := by
  rcases hindrance?_spec s with ⟨hnone, hbears⟩ | ⟨cause, hsome, hgives⟩
  · rw [run_of_alive s c hnone]
    constructor
    · rintro ⟨⟩
      exact .begun hbears (ends_follow s c)
    · intro h
      cases h with
      | hindered h => exact absurd hbears h.not_bears
      | begun _ h => rw [follow_eq_iff.mpr h]
  · rw [run_of_hindrance s c cause hsome]
    constructor
    · rintro ⟨⟩
      exact .hindered hgives
    · intro h
      cases h with
      | hindered h => rw [hgives.unique h]
      | begun halive _ => exact absurd halive hgives.not_bears

theorem run_of_ends {s s' : Scope} {c : Call α} {ending : Ending α} (halive : s.Bears (some 0))
    (h : s.Ends c ending s') : s.run c = (.begun ending, s') :=
  run_eq_iff.mpr (.begun halive h)

/-- A call that is suspended in a cancelled scope is given up as cancelled, whatever the deadline,
    unless this has ended an earlier suspension. -/
theorem run_suspended_of_isCancelled {s : Scope} {c : Call α} {before : List Step}
    {duration : Option Nat} (halive : s.Bears (some 0)) (h : c.Suspends before duration)
    (hcancelled : (s.after before).isCancelled = true)
    (hearlier : ∀ earlier d, c.Suspends earlier d → (s.after earlier).isCancelled = false →
      ¬ (s.after earlier).Expires d) : (s.run c).1 = .begun (.interrupted .cancelled) := by
  have hends := ends_follow s c
  rw [run_of_ends halive hends]
  rcases hfollow : s.follow c.answer c.steps with ⟨ending, s'⟩
  rw [hfollow] at hends
  cases hends with
  | answered _ hborne => exact absurd (hborne _ _ h) (GivesUp.cancelled hcancelled).not_bears
  | interrupted h' hgives hfirst =>
      cases hgives with
      | cancelled _ => rfl
      | expired hnot hexpires => exact absurd hexpires (hearlier _ _ h' hnot)
  | pending _ hborne => exact absurd (hborne _ _ h) (GivesUp.cancelled hcancelled).not_bears

/-- A call that never answers is given up at the deadline, if there is one and nobody cancels. -/
theorem run_hanging {s : Scope} {c : Call α} (halive : s.Bears (some 0)) (h : c.answer = none)
    (hcalm : (s.after c.steps).isCancelled = false) (hdeadline : s.deadline.isSome = true) :
    (s.run c).1 = .begun (.interrupted .deadlineExceeded) := by
  have hhang : (s.after c.steps).GivesUp none .deadlineExceeded := by
    refine .expired hcalm (expires_none_iff.mpr ?_)
    rw [deadline_after]
    exact hdeadline
  have hends := ends_follow s c
  rw [run_of_ends halive hends]
  rcases hfollow : s.follow c.answer c.steps with ⟨ending, s'⟩
  rw [hfollow] at hends
  cases hends with
  | answered _ hborne => exact absurd (hborne _ _ (.hang h)) hhang.not_bears
  | interrupted h' hgives hfirst =>
      cases hgives with
      | cancelled hcancelled =>
          exact absurd ((isCancelled_of_begins h'.isPrefix hcancelled).symm.trans hcalm) (by decide)
      | expired _ _ => rfl
  | pending _ hborne => exact absurd (hborne _ _ (.hang h)) hhang.not_bears

/-! ## One turn after another -/

-- A call that is waited for without end is the last. Any other one leaves its scope to the next.
theorem runAll_cons (s : Scope) (c : Call α) (calls : List (Call α)) :
    (∃ s', s.run c = (.begun .pending, s') ∧ s.runAll (c :: calls) = [(.begun .pending, s')]) ∨
      ∃ run s', run ≠ .begun .pending ∧ s.run c = (run, s') ∧
        s.runAll (c :: calls) = (run, s') :: s'.runAll calls := by
  rw [runAll]
  rcases hrun : s.run c with ⟨run, s'⟩
  cases run with
  | hindered cause => exact .inr ⟨.hindered cause, s', by rintro ⟨⟩, rfl, rfl⟩
  | begun ending =>
      cases ending with
      | answered a => exact .inr ⟨.begun (.answered a), s', by rintro ⟨⟩, rfl, rfl⟩
      | interrupted cause => exact .inr ⟨.begun (.interrupted cause), s', by rintro ⟨⟩, rfl, rfl⟩
      | pending => exact .inl ⟨s', rfl, rfl⟩

/-- Each turn is that of a call of its own, in the scope that the turn before it left. -/
theorem turn_of_runAll {s s' : Scope} {calls : List (Call α)} {i : Nat} {run : Run α}
    (h : (s.runAll calls)[i]? = some (run, s')) : ∃ c before, calls[i]? = some c ∧
      (s.befores calls)[i]? = some before ∧ before.Turn c run s' := by
  induction calls generalizing s i with
  | nil => cases h
  | cons c calls ih =>
      rcases runAll_cons s c calls with ⟨t, hrun, hall⟩ | ⟨first, t, -, hrun, hall⟩
      · rw [hall] at h
        cases i with
        | zero =>
            cases h
            exact ⟨c, s, rfl, rfl, run_eq_iff.mp hrun⟩
        | succ i => cases h
      · -- The other turns are those of the other calls, in the scope that this one left.
        rw [hall] at h
        cases i with
        | zero =>
            cases h
            exact ⟨c, s, rfl, rfl, run_eq_iff.mp hrun⟩
        | succ i =>
            rcases ih h with ⟨c', before, hc, hbefore, hturn⟩
            refine ⟨c', before, hc, ?_, hturn⟩
            rw [befores, hall]
            exact hbefore

/-- Every call has a turn, unless one before it is waited for without end. -/
theorem runAll_eq_none_iff (s : Scope) (calls : List (Call α)) (i : Nat) :
    (s.runAll calls)[i]? = none ↔ calls[i]? = none ∨
      ∃ j < i, ∃ s', (s.runAll calls)[j]? = some (.begun .pending, s') := by
  induction calls generalizing s i with
  | nil => exact ⟨fun _ => .inl rfl, fun _ => rfl⟩
  | cons c calls ih =>
      -- If the first call is waited for without end, no other call has a turn.
      rcases runAll_cons s c calls with ⟨t, -, hall⟩ | ⟨first, t, hfirst, -, hall⟩
      · rw [hall]
        cases i with
        | zero =>
            constructor
            · rintro ⟨⟩
            · rintro (h | ⟨j, hj, -⟩)
              · cases h
              · exact absurd hj (Nat.not_lt_zero j)
        | succ i => exact ⟨fun _ => .inr ⟨0, Nat.succ_pos i, t, rfl⟩, fun _ => rfl⟩
      · rw [hall]
        cases i with
        | zero =>
            constructor
            · rintro ⟨⟩
            · rintro (h | ⟨j, hj, -⟩)
              · cases h
              · exact absurd hj (Nat.not_lt_zero j)
        | succ i =>
            rw [List.getElem?_cons_succ, List.getElem?_cons_succ, ih]
            refine or_congr Iff.rfl ⟨?_, ?_⟩
            · rintro ⟨j, hj, s', h⟩
              exact ⟨j + 1, Nat.succ_lt_succ hj, s', h⟩
            · rintro ⟨j, hj, s', h⟩
              cases j with
              | zero =>
                  cases h
                  exact absurd rfl hfirst
              | succ j => exact ⟨j, Nat.lt_of_succ_lt_succ hj, s', h⟩

/-- In a cancelled scope no call is started. -/
theorem runAll_of_isCancelled {s : Scope} (h : s.isCancelled = true) (calls : List (Call α)) :
    s.runAll calls = calls.map fun _ => (.hindered .cancelled, s) := by
  induction calls with
  | nil => rfl
  | cons c calls ih =>
      have hrun : s.run c = (.hindered .cancelled, s) := run_eq_iff.mpr (.hindered (.cancelled h))
      rcases runAll_cons s c calls with ⟨t, hpending, -⟩ | ⟨first, t, -, hfirst, hall⟩
      · rw [hrun] at hpending
        cases hpending
      · rw [hrun] at hfirst
        cases hfirst
        rw [hall, ih, List.map_cons]

/-- Once the scope is cancelled, no further call is started. -/
theorem hindered_of_isCancelled {s before : Scope} {calls : List (Call α)} {i j : Nat}
    {turn : Run α × Scope} (hbefore : (s.befores calls)[i]? = some before)
    (hcancelled : before.isCancelled = true) (hij : i ≤ j)
    (hturn : (s.runAll calls)[j]? = some turn) : turn = (.hindered .cancelled, before) := by
  induction calls generalizing s i j with
  | nil => cases hturn
  | cons c calls ih =>
      cases i with
      | zero =>
          cases hbefore
          rw [runAll_of_isCancelled hcancelled, List.getElem?_map, Option.map_eq_some_iff] at hturn
          rcases hturn with ⟨_, -, rfl⟩
          rfl
      | succ i =>
          cases j with
          | zero => exact absurd hij (Nat.not_succ_le_zero i)
          | succ j =>
              rw [befores] at hbefore
              rcases runAll_cons s c calls with ⟨t, -, hall⟩ | ⟨first, t, -, -, hall⟩
              · rw [hall] at hturn
                cases hturn
              · rw [hall] at hbefore hturn
                exact ih hbefore (Nat.le_of_succ_le_succ hij) hturn

end Scope

/-- Every call has its turn in the scope that the one before left, unless one of them is waited for
    without end. It is not started if the scope is cancelled or the deadline has passed, and else it
    ends as its suspensions say. A call that is not suspended again is answered whoever cancels, one
    that is suspended in a cancelled scope is given up as cancelled, and one that never answers at
    the deadline. Once the scope is cancelled, no further call is started. -/
theorem calls_take_turns (s : Scope) (calls : List (Call α)) :
    (∀ (before after : Scope) (c : Call α) (run : Run α),
      before.run c = (run, after) ↔ before.Turn c run after) ∧
    (∀ (i : Nat) (run : Run α) (after : Scope), (s.runAll calls)[i]? = some (run, after) →
      ∃ c before, calls[i]? = some c ∧ (s.befores calls)[i]? = some before ∧
        before.Turn c run after) ∧
    (∀ i : Nat, (s.runAll calls)[i]? = none ↔ calls[i]? = none ∨
      ∃ j < i, ∃ after, (s.runAll calls)[j]? = some (.begun .pending, after)) ∧
    (∀ (i j : Nat) (before : Scope) (turn : Run α × Scope),
      (s.befores calls)[i]? = some before → before.isCancelled = true → i ≤ j →
      (s.runAll calls)[j]? = some turn → turn = (.hindered .cancelled, before)) ∧
    ∀ (before : Scope) (c : Call α), before.Bears (some 0) →
      (∀ a, c.answer = some a → (∀ step ∈ c.steps, step.isWait = false) →
        (before.run c).1 = .begun (.answered a)) ∧
      (∀ (steps : List Step) (duration : Option Nat), c.Suspends steps duration →
        (before.after steps).isCancelled = true →
        (∀ earlier d, c.Suspends earlier d → (before.after earlier).isCancelled = false →
          ¬ (before.after earlier).Expires d) →
        (before.run c).1 = .begun (.interrupted .cancelled)) ∧
      (c.answer = none → (before.after c.steps).isCancelled = false →
        before.deadline.isSome = true →
        (before.run c).1 = .begun (.interrupted .deadlineExceeded)) := by
  refine ⟨fun _ _ _ _ => Scope.run_eq_iff, fun _ _ _ => Scope.turn_of_runAll,
    Scope.runAll_eq_none_iff s calls, fun _ _ _ _ => Scope.hindered_of_isCancelled,
    fun before c halive => ⟨fun a ha hsteps => ?_, fun _ _ => ?_, ?_⟩⟩
  · rw [Scope.run_of_ends halive (Scope.ends_follow before c), ha,
      Scope.follow_immediate before a c.steps hsteps]
  · exact Scope.run_suspended_of_isCancelled halive
  · exact Scope.run_hanging halive

/-- A call that waits, one that cancels the request and answers, and one that is not started. Had
    the second one been suspended instead, it would have been given up before its deadline. -/
theorem calls_take_turns_cancelled :
    let s : Scope := ⟨false, false, some 100, 0⟩
    let calls : List (Call Nat) :=
      [⟨[.wait 10], some 1⟩, ⟨[.cancel .request, .work 5], some 2⟩, ⟨[], some 3⟩]
    (s.runAll calls)[2]? = some (.hindered .cancelled, ⟨false, true, some 100, 15⟩) ∧
      (∃ c before, calls[1]? = some c ∧ (s.befores calls)[1]? = some before ∧
        before.Turn c (.begun (.answered 2)) ⟨false, true, some 100, 15⟩) ∧
      (s.run ⟨[.cancel .request], (none : Option Nat)⟩).1 = .begun (.interrupted .cancelled) ∧
      (s.run ⟨[.wait 10], (none : Option Nat)⟩).1 = .begun (.interrupted .deadlineExceeded) := by
  intro s calls
  have halive : s.Bears (some 0) := by
    refine ⟨rfl, ?_⟩
    rintro ⟨time, htime, hwithin⟩
    cases htime
    exact absurd (hwithin 0 rfl) (by decide)
  rcases calls_take_turns s calls with ⟨-, hturns, -, hcancelled, hone⟩
  refine ⟨?_, hturns 1 _ _ rfl,
    (hone s ⟨[.cancel .request], none⟩ halive).2.1 _ _ (.hang rfl) rfl ?_,
    (hone s ⟨[.wait 10], none⟩ halive).2.2 rfl rfl rfl⟩
  · have hthird : (s.runAll calls)[2]? = some ((s.runAll calls)[2]) := rfl
    rw [hthird, hcancelled 2 2 ⟨false, true, some 100, 15⟩ _ rfl rfl (Nat.le_refl 2) hthird]
  · -- This call is suspended only once, behind the cancellation.
    intro earlier d hsuspends hnot
    cases hsuspends with
    | wait h =>
        have hmem : Step.wait _ ∈ [Step.cancel .request] :=
          h ▸ List.mem_append_right _ List.mem_cons_self
        cases List.mem_singleton.mp hmem
    | hang _ => cases hnot

end ForwardAuth
