import ForwardAuth.Proofs.Scope

/-!
# Where a call can be given up

A call gives way only where it is suspended: while it waits, or for ever if it never answers. At
each suspension the scope decides (`GivesUp`). If it is cancelled, the call is given up, and else if
the deadline is reached before the suspension ends. In between nobody looks, so a call may cancel
the scope and still be answered, as long as it is not suspended again.

So how a call ends can be said without following it step by step, from its suspensions alone
(`Ends`). It is answered, or never, if all of them are waited out, and else the first that is not
ends it. `ends_follow` says that this is what comes of following it, by induction on its steps. A
step either is a suspension itself, and then it is the first, or it changes the scope in which the
rest of the call ends.

## Main definitions

* `Call.Suspends`: Where a call is suspended, and for how long.
* `Scope.after`: The scope after some steps, if nobody interrupts them.
* `Scope.GivesUp`, `Scope.Bears`: What a scope decides about a suspension.
* `Scope.Ends`: How a call that was started ends.

## Theorems

* `suspends_after_iff`: The suspensions of a call with one more step before it.
* `hindrance?_spec`: Whether a call is started is decided like a suspension of no length.
* `isCancelled_after`: Nothing takes a cancellation back.
* `Ends.unique`: A call ends in one way.
* `Ends.after_step`: A step that is waited out only changes the scope.
* `ends_follow`, `follow_eq_iff`: A call that is followed ends as its suspensions say.
-/

namespace ForwardAuth

open Call (Step)

variable {α : Type}

/-- After the given steps the call is suspended: for so many milliseconds, or for ever if it never
    answers. -/
inductive Call.Suspends (c : Call α) : List Step → Option Nat → Prop where
  | wait {before : List Step} {duration : Nat} {rest : List Step}
      (h : c.steps = before ++ .wait duration :: rest) : Suspends c before (some duration)
  | hang (h : c.answer = none) : Suspends c c.steps none

theorem Call.Suspends.isPrefix {c : Call α} {before : List Step} {duration : Option Nat}
    (h : c.Suspends before duration) : before <+: c.steps := by
  cases h with
  | wait h =>
      rw [h]
      exact List.prefix_append _ _
  | hang h => exact List.prefix_refl _

theorem Call.Suspends.unique {c : Call α} {before : List Step} {duration duration' : Option Nat}
    (h : c.Suspends before duration) (h' : c.Suspends before duration') :
    duration = duration' := by
  cases h with
  | wait h =>
      cases h' with
      | wait h' =>
          rw [h] at h'
          injection List.append_cancel_left h' with hstep
          injection hstep with hstep
          rw [hstep]
      | hang h' => exact absurd (congrArg List.length h) (by simp)
  | hang h =>
      cases h' with
      | wait h' => exact absurd (congrArg List.length h') (by simp)
      | hang h' => rfl

/-- A call with one more step before it is suspended in this step, if it waits, and where it was. -/
theorem Call.suspends_after_iff {step : Step} {c : Call α} {before : List Step}
    {duration : Option Nat} : (c.after step).Suspends before duration ↔
      (∃ n, step = .wait n ∧ before = [] ∧ duration = some n) ∨
        ∃ rest, before = step :: rest ∧ c.Suspends rest duration := by
  constructor
  · intro h
    cases h with
    | hang h => exact .inr ⟨c.steps, rfl, .hang h⟩
    | wait h =>
        change step :: c.steps = _ at h
        cases before with
        | nil =>
            injection h with hstep
            exact .inl ⟨_, hstep, rfl, rfl⟩
        | cons first rest =>
            injection h with hstep hrest
            exact .inr ⟨rest, by rw [hstep], .wait hrest⟩
  · rintro (⟨n, rfl, rfl, rfl⟩ | ⟨rest, rfl, h⟩)
    · exact .wait rfl
    · cases h with
      | wait h => exact .wait (congrArg (step :: ·) h)
      | hang h => exact .hang h

namespace Scope

/-- The scope after a step that nobody interrupts. -/
def afterStep (s : Scope) : Step → Scope
  | .cancel reach => s.cancel reach
  | .work duration => { s with now := s.now + duration }
  | .wait duration => { s with now := s.now + duration }

/-- The scope after some steps that nobody interrupts. -/
def after (s : Scope) (steps : List Step) : Scope :=
  steps.foldl afterStep s

/-- The deadline is reached within so many milliseconds, or at any time. -/
def Expires (s : Scope) (within : Option Nat) : Prop :=
  ∃ time, s.deadline = some time ∧ ∀ duration ∈ within, time ≤ s.now + duration

/-- A suspension that begins in the scope is not waited out, and why. -/
inductive GivesUp (s : Scope) (duration : Option Nat) : Interruption → Prop where
  | cancelled (h : s.isCancelled = true) : GivesUp s duration .cancelled
  | expired (h : s.isCancelled = false) (hexpires : s.Expires duration) :
      GivesUp s duration .deadlineExceeded

/-- A suspension that begins in the scope is waited out. -/
structure Bears (s : Scope) (duration : Option Nat) : Prop where
  not_cancelled : s.isCancelled = false
  in_time : ¬ s.Expires duration

/-- The scope in which a suspension is given up. -/
def leave (s : Scope) : Interruption → Scope
  | .cancelled => s
  | .deadlineExceeded => s.atDeadline

/-- How a call that was started ends, and in which scope: with its answer or not at all if all its
    suspensions are waited out, and else with the first that is not. -/
inductive Ends (s : Scope) (c : Call α) : Ending α → Scope → Prop where
  | answered {a : α} (h : c.answer = some a)
      (hborne : ∀ before duration, c.Suspends before duration → (s.after before).Bears duration) :
      Ends s c (.answered a) (s.after c.steps)
  | interrupted {before : List Step} {duration : Option Nat} {cause : Interruption}
      (h : c.Suspends before duration) (hgives : (s.after before).GivesUp duration cause)
      (hfirst : ∀ earlier d, c.Suspends earlier d → earlier.length < before.length →
        (s.after earlier).Bears d) :
      Ends s c (.interrupted cause) ((s.after before).leave cause)
  | pending (h : c.answer = none)
      (hborne : ∀ before duration, c.Suspends before duration → (s.after before).Bears duration) :
      Ends s c .pending (s.after c.steps)

/-! ## What a scope decides -/

theorem GivesUp.not_bears {s : Scope} {duration : Option Nat} {cause : Interruption}
    (h : s.GivesUp duration cause) : ¬ s.Bears duration := by
  intro hbears
  cases h with
  | cancelled h => exact absurd (h.symm.trans hbears.not_cancelled) (by decide)
  | expired h hexpires => exact hbears.in_time hexpires

theorem GivesUp.unique {s : Scope} {duration : Option Nat} {cause cause' : Interruption}
    (h : s.GivesUp duration cause) (h' : s.GivesUp duration cause') : cause = cause' := by
  cases h with
  | cancelled h =>
      cases h' with
      | cancelled h' => rfl
      | expired h' hexpires => exact absurd (h.symm.trans h') (by decide)
  | expired h hexpires =>
      cases h' with
      | cancelled h' => exact absurd (h'.symm.trans h) (by decide)
      | expired h' hexpires' => rfl

theorem expires_some_iff {s : Scope} {duration : Nat} :
    s.Expires (some duration) ↔ s.isDue (s.now + duration) = true := by
  rw [isDue, Option.any_eq_true]
  constructor
  · rintro ⟨time, htime, h⟩
    exact ⟨time, htime, decide_eq_true (h duration rfl)⟩
  · rintro ⟨time, htime, h⟩
    refine ⟨time, htime, fun d hd => ?_⟩
    rw [← Option.mem_some_iff.mp hd]
    exact of_decide_eq_true h

theorem expires_none_iff {s : Scope} : s.Expires none ↔ s.deadline.isSome = true := by
  rw [Option.isSome_iff_exists]
  exact ⟨fun ⟨time, htime, _⟩ => ⟨time, htime⟩,
    fun ⟨time, htime⟩ => ⟨time, htime, fun d hd => absurd hd (Option.not_mem_none d)⟩⟩

theorem hindrance?_spec (s : Scope) :
    (s.hindrance? = none ∧ s.Bears (some 0)) ∨
      ∃ cause, s.hindrance? = some cause ∧ s.GivesUp (some 0) cause := by
  by_cases hc : s.isCancelled = true
  · exact .inr ⟨_, by rw [hindrance?, if_pos hc], .cancelled hc⟩
  · have halive := Bool.eq_false_iff.mpr hc
    by_cases hd : s.isDue s.now = true
    · exact .inr ⟨_, by rw [hindrance?, if_neg hc, if_pos hd],
        .expired halive (expires_some_iff.mpr hd)⟩
    · refine .inl ⟨by rw [hindrance?, if_neg hc, if_neg hd], halive, fun hexpires => ?_⟩
      exact hd (expires_some_iff.mp hexpires)

/-! ## The scope at a suspension -/

theorem isCancelled_afterStep {s : Scope} (h : s.isCancelled = true) (step : Step) :
    (s.afterStep step).isCancelled = true := by
  cases step with
  | cancel reach =>
      cases reach with
      | request => exact Bool.or_true _
      | server => exact Bool.true_or _
  | work duration => exact h
  | wait duration => exact h

-- Nothing takes a cancellation back.
theorem isCancelled_after {s : Scope} (h : s.isCancelled = true) (steps : List Step) :
    (s.after steps).isCancelled = true := by
  induction steps generalizing s with
  | nil => exact h
  | cons step steps ih => exact ih (isCancelled_afterStep h step)

theorem isCancelled_of_begins {s : Scope} {before steps : List Step} (hbegins : before <+: steps)
    (h : (s.after before).isCancelled = true) : (s.after steps).isCancelled = true := by
  rcases hbegins with ⟨rest, rfl⟩
  rw [after, List.foldl_append]
  exact isCancelled_after h rest

theorem deadline_after (s : Scope) (steps : List Step) : (s.after steps).deadline = s.deadline := by
  induction steps generalizing s with
  | nil => rfl
  | cons step steps ih =>
      refine (ih (s.afterStep step)).trans ?_
      cases step with
      | cancel reach =>
          cases reach with
          | request => rfl
          | server => rfl
      | work duration => rfl
      | wait duration => rfl

/-! ## How a call ends -/

theorem Ends.unique {s s' s'' : Scope} {c : Call α} {ending ending' : Ending α}
    (h : s.Ends c ending s') (h' : s.Ends c ending' s'') : ending = ending' ∧ s' = s'' := by
  cases h with
  | answered h hborne =>
      cases h' with
      | answered h' _ =>
          rw [h] at h'
          exact ⟨by rw [Option.some.inj h'], rfl⟩
      | interrupted h' hgives _ => exact absurd (hborne _ _ h') hgives.not_bears
      | pending h' _ => exact absurd (h.symm.trans h') (Option.some_ne_none _)
  | @interrupted before _ _ h hgives hfirst =>
      cases h' with
      | answered _ hborne => exact absurd (hborne _ _ h) hgives.not_bears
      | @interrupted before' _ _ h' hgives' hfirst' =>
          -- Neither of the two suspensions can come first.
          rcases Nat.lt_trichotomy before.length before'.length with hlt | heq | hlt
          · exact absurd (hfirst' _ _ h hlt) hgives.not_bears
          · have hsame : before = before' :=
              (List.prefix_of_prefix_length_le h.isPrefix h'.isPrefix
                (Nat.le_of_eq heq)).eq_of_length heq
            subst hsame
            rw [h.unique h'] at hgives
            rw [hgives.unique hgives']
            exact ⟨rfl, rfl⟩
          · exact absurd (hfirst _ _ h' hlt) hgives'.not_bears
      | pending _ hborne => exact absurd (hborne _ _ h) hgives.not_bears
  | pending h hborne =>
      cases h' with
      | answered h' _ => exact absurd (h'.symm.trans h) (Option.some_ne_none _)
      | interrupted h' hgives _ => exact absurd (hborne _ _ h') hgives.not_bears
      | pending _ _ => exact ⟨rfl, rfl⟩

-- No suspension comes earlier.
theorem Ends.of_first {s : Scope} {c : Call α} {duration : Option Nat} {cause : Interruption}
    (h : c.Suspends [] duration) (hgives : s.GivesUp duration cause) :
    s.Ends c (.interrupted cause) (s.leave cause) :=
  .interrupted h hgives fun _ _ _ hlt => absurd hlt (Nat.not_lt_zero _)

-- A suspension is in the first step, or it is one of the rest.
theorem bears_of_step {s : Scope} {c : Call α} {step : Step} {before : List Step}
    {duration : Option Nat} (hsuspends : (c.after step).Suspends before duration)
    (hstep : ∀ n, step = .wait n → s.Bears (some n))
    (hrest : ∀ rest, before = step :: rest → c.Suspends rest duration →
      ((s.afterStep step).after rest).Bears duration) : (s.after before).Bears duration := by
  rcases Call.suspends_after_iff.mp hsuspends with ⟨n, hwait, rfl, rfl⟩ | ⟨rest, rfl, hsame⟩
  · exact hstep n hwait
  · exact hrest rest rfl hsame

/-- A step before a call, if it is waited out, changes the scope in which the call ends and nothing
    else. -/
theorem Ends.after_step {s s' : Scope} {c : Call α} {step : Step} {ending : Ending α}
    (h : (s.afterStep step).Ends c ending s') (hstep : ∀ n, step = .wait n → s.Bears (some n)) :
    s.Ends (c.after step) ending s' := by
  cases h with
  | answered h hborne =>
      exact .answered (c := c.after step) h fun before d hsuspends =>
        bears_of_step hsuspends hstep fun rest _ hrest => hborne rest d hrest
  | interrupted h hgives hfirst =>
      refine .interrupted (Call.suspends_after_iff.mpr (.inr ⟨_, rfl, h⟩)) hgives ?_
      intro earlier d hsuspends hlt
      refine bears_of_step hsuspends hstep fun rest hrest hsame => hfirst rest d hsame ?_
      rw [hrest, List.length_cons, List.length_cons] at hlt
      omega
  | pending h hborne =>
      exact .pending (c := c.after step) h fun before d hsuspends =>
        bears_of_step hsuspends hstep fun rest _ hrest => hborne rest d hrest

/-- A call that is followed ends as its suspensions say. -/
theorem ends_follow (s : Scope) (c : Call α) :
    s.Ends c (s.follow c.answer c.steps).1 (s.follow c.answer c.steps).2 := by
  rcases c with ⟨steps, answer⟩
  induction steps generalizing s with
  | nil =>
      -- The one suspension that there may be here is that of a call that never answers.
      have hnothing : ∀ before d, (Call.mk [] answer).Suspends before d →
          before = [] ∧ d = none ∧ answer = none := by
        intro before d h
        cases h with
        | wait h => exact absurd h (by simp)
        | hang h => exact ⟨rfl, rfl, h⟩
      cases answer with
      | some a =>
          refine .answered (c := ⟨[], some a⟩) rfl fun before d h => ?_
          exact absurd (hnothing before d h).2.2 (Option.some_ne_none a)
      | none =>
          rw [follow]
          by_cases hc : s.isCancelled = true
          · rw [if_pos hc]
            exact .of_first (.hang rfl) (.cancelled hc)
          · have halive := Bool.eq_false_iff.mpr hc
            rw [if_neg hc]
            by_cases hd : s.deadline.isSome = true
            · rw [if_pos hd]
              exact .of_first (.hang rfl) (.expired halive (expires_none_iff.mpr hd))
            · rw [if_neg hd]
              refine .pending (c := ⟨[], none⟩) rfl fun before d h => ?_
              rcases hnothing before d h with ⟨rfl, rfl, -⟩
              exact ⟨halive, fun hexpires => hd (expires_none_iff.mp hexpires)⟩
  | cons step steps ih =>
      cases step with
      | cancel reach =>
          have hrest : (s.afterStep (.cancel reach)).Ends ⟨steps, answer⟩ _ _ := ih (s.cancel reach)
          exact hrest.after_step fun n hwait => by cases hwait
      | work duration =>
          have hrest : (s.afterStep (.work duration)).Ends ⟨steps, answer⟩ _ _ :=
            ih { s with now := s.now + duration }
          exact hrest.after_step fun n hwait => by cases hwait
      | wait duration =>
          have hfirst : Call.Suspends ⟨.wait duration :: steps, answer⟩ [] (some duration) :=
            .wait rfl
          change s.Ends _ (s.follow answer (.wait duration :: steps)).1
            (s.follow answer (.wait duration :: steps)).2
          rw [follow]
          by_cases hc : s.isCancelled = true
          · rw [if_pos hc]
            exact .of_first hfirst (.cancelled hc)
          · have halive := Bool.eq_false_iff.mpr hc
            rw [if_neg hc]
            by_cases hd : s.isDue (s.now + duration) = true
            · rw [if_pos hd]
              exact .of_first hfirst (.expired halive (expires_some_iff.mpr hd))
            · rw [if_neg hd]
              have hrest : (s.afterStep (.wait duration)).Ends ⟨steps, answer⟩ _ _ :=
                ih { s with now := s.now + duration }
              refine hrest.after_step fun n hwait => ?_
              cases hwait
              exact ⟨halive, fun hexpires => hd (expires_some_iff.mp hexpires)⟩

theorem follow_eq_iff {s s' : Scope} {c : Call α} {ending : Ending α} :
    s.follow c.answer c.steps = (ending, s') ↔ s.Ends c ending s' := by
  constructor
  · intro h
    have hends := ends_follow s c
    rw [h] at hends
    exact hends
  · intro h
    rcases (ends_follow s c).unique h with ⟨hending, hscope⟩
    rw [← hending, ← hscope]

end Scope

end ForwardAuth
