import ForwardAuth.Metrics.InFlight
import Mathlib.Data.Finset.Card
import Mathlib.Data.List.Induction

/-!
# The gauge of requests in flight

Each request changes the counter and sets the gauge when it begins, and does both again when it
ends. A change and its setting are two steps. Each of them happens at once, but steps of other
requests may fall between them, so the settings need not come in the order of the changes.

The counter does not mind, since it does not matter in which order ones are added and taken away. It
is the number of requests in flight at any time, and never falls below zero. The gauge does mind. It
shows how many requests were in flight after the change whose setting came last, and that need not
be the last change. Then the gauge stays wrong until it is set again, even when nothing is in
flight. It is right once all is settled if the settings come in the order of the changes, which
nobody sees to.

A request is followed through its steps by two relations that grow with them, at the end: `Pending`
for a request that has made a change and not shown it, and `Shown` for the change that the gauge
shows.

## Main definitions

* `course`, `stepsOf`, `Interleaved`: The steps of a request, and requests whose steps fall between
  each other's.
* `active`: The requests in flight.
* `Pending`, `Settled`: A change is not shown yet, or all are.
* `Shown`: The change that the gauge shows.
* `InOrder`: The settings come in the order of the changes.

## Theorems

* `counter_eq_card_active`: The counter is the number of requests in flight.
* `lookup_of_pending`: What a request is going to show.
* `gauge_of_shown`: What the gauge shows.
* `exists_shown`: Once the gauge was set, it shows a change.
* `InOrder.last_change`: Settings in order show the last change last.
* `gauge_shows_a_change`: The counter and the gauge under any interleaving.
* `gauge_drifts`: Two requests that leave the gauge at one.
-/

namespace ForwardAuth.Metrics.InFlight

variable {steps before upTo : List (Nat × Step)} {r r' : Nat} {s : Step}

/-! ## Interleaved requests -/

/-- The steps of a request, from its beginning to its end. -/
def course : List Step := [.begin, .show, .finish, .show]

/-- The steps that a request has made. -/
def stepsOf (request : Nat) (steps : List (Nat × Step)) : List Step :=
  (steps.filter fun s => s.1 = request).map (·.2)

/-- Every request goes its course, and is as far in it as its steps say. -/
def Interleaved (steps : List (Nat × Step)) : Prop :=
  ∀ r, stepsOf r steps <+: course

/-- No request is between a change and its setting. -/
def Settled (steps : List (Nat × Step)) : Prop :=
  ∀ r, ∀ s ∈ (stepsOf r steps).getLast?, s = .show

theorem stepsOf_append (r : Nat) (before after : List (Nat × Step)) :
    stepsOf r (before ++ after) = stepsOf r before ++ stepsOf r after := by
  rw [stepsOf, List.filter_append, List.map_append]
  rfl

theorem stepsOf_concat_self (r : Nat) (steps : List (Nat × Step)) (s : Step) :
    stepsOf r (steps ++ [(r, s)]) = stepsOf r steps ++ [s] := by
  rw [stepsOf_append, stepsOf, stepsOf, List.filter_singleton, decide_eq_true rfl]
  rfl

theorem stepsOf_concat_of_ne (h : r' ≠ r) (steps : List (Nat × Step)) (s : Step) :
    stepsOf r (steps ++ [(r', s)]) = stepsOf r steps := by
  rw [stepsOf_append, stepsOf, stepsOf, List.filter_singleton, decide_eq_false h]
  exact List.append_nil _

/-- Requests that go their courses have done so at any time before. -/
theorem Interleaved.of_append {after : List (Nat × Step)} (h : Interleaved (before ++ after)) :
    Interleaved before := by
  intro r
  have hcourse := h r
  rw [stepsOf_append] at hcourse
  exact (List.prefix_append _ _).trans hcourse

theorem course_cases {done : List Step} (h : done ++ [s] <+: course) :
    done = [] ∧ s = .begin ∨ done = [.begin] ∧ s = .show ∨ done = [.begin, .show] ∧ s = .finish ∨
      done = [.begin, .show, .finish] ∧ s = .show := by
  rcases done with _ | ⟨a, _ | ⟨b, _ | ⟨c, _ | ⟨d, done⟩⟩⟩⟩ <;>
    simp only [course, List.cons_append, List.nil_append, List.cons_prefix_cons] at h
  · exact .inl ⟨rfl, h.1⟩
  · rcases h with ⟨rfl, rfl, -⟩
    exact .inr (.inl ⟨rfl, rfl⟩)
  · rcases h with ⟨rfl, rfl, rfl, -⟩
    exact .inr (.inr (.inl ⟨rfl, rfl⟩))
  · rcases h with ⟨rfl, rfl, rfl, rfl, -⟩
    exact .inr (.inr (.inr ⟨rfl, rfl⟩))
  · have := h.2.2.2.2.length_le
    simp at this

/-- What a request does next is decided by what it has done. -/
theorem Interleaved.cases_last (h : Interleaved (steps ++ [(r, s)])) :
    stepsOf r steps = [] ∧ s = .begin ∨ stepsOf r steps = [.begin] ∧ s = .show ∨
      stepsOf r steps = [.begin, .show] ∧ s = .finish ∨
      stepsOf r steps = [.begin, .show, .finish] ∧ s = .show := by
  have hcourse := h r
  rw [stepsOf_concat_self] at hcourse
  exact course_cases hcourse

/-! ## Requests in flight -/

/-- The requests that have begun and not ended. -/
def active (steps : List (Nat × Step)) : Finset Nat :=
  (steps.map (·.1)).toFinset.filter fun r =>
    Step.begin ∈ stepsOf r steps ∧ Step.finish ∉ stepsOf r steps

theorem mem_active : r ∈ active steps ↔
    Step.begin ∈ stepsOf r steps ∧ Step.finish ∉ stepsOf r steps := by
  rw [active, Finset.mem_filter, List.mem_toFinset]
  refine ⟨fun h => h.2, fun h => ⟨?_, h⟩⟩
  rcases List.mem_map.mp h.1 with ⟨own, hown, -⟩
  rcases List.mem_filter.mp hown with ⟨hmem, heq⟩
  exact List.mem_map.mpr ⟨own, hmem, of_decide_eq_true heq⟩

theorem mem_active_concat_of_ne (h : r' ≠ r) :
    r ∈ active (steps ++ [(r', s)]) ↔ r ∈ active steps := by
  rw [mem_active, mem_active, stepsOf_concat_of_ne h]

theorem active_concat_show (r : Nat) (steps : List (Nat × Step)) :
    active (steps ++ [(r, .show)]) = active steps := by
  ext r'
  by_cases hr : r = r'
  · subst hr
    rw [mem_active, mem_active, stepsOf_concat_self, List.mem_append, List.mem_append]
    simp only [List.mem_singleton, reduceCtorEq, or_false]
  · exact mem_active_concat_of_ne hr

/-- A request that begins is one more in flight. -/
theorem card_active_begin (h : Interleaved (steps ++ [(r, .begin)])) :
    (active (steps ++ [(r, .begin)])).card = (active steps).card + 1 := by
  have hdone : stepsOf r steps = [] := by
    rcases h.cases_last with h | h | h | h
    · exact h.1
    · cases h.2
    · cases h.2
    · cases h.2
  have hnew : r ∉ active steps := by
    rw [mem_active, hdone]
    exact fun h => List.not_mem_nil h.1
  rw [← Finset.card_insert_of_notMem hnew]
  congr 1
  ext r'
  rw [Finset.mem_insert]
  by_cases hr : r = r'
  · subst hr
    rw [mem_active, stepsOf_concat_self, hdone]
    exact ⟨fun _ => .inl rfl, fun _ => by decide⟩
  · rw [mem_active_concat_of_ne hr]
    exact ⟨.inr, fun h => h.resolve_left (Ne.symm hr)⟩

/-- A request that ends was in flight, and the others still are. -/
theorem card_active_finish (h : Interleaved (steps ++ [(r, .finish)])) :
    (active (steps ++ [(r, .finish)])).card + 1 = (active steps).card := by
  have hdone : stepsOf r steps = [.begin, .show] := by
    rcases h.cases_last with h | h | h | h
    · cases h.2
    · cases h.2
    · exact h.1
    · cases h.2
  have hold : r ∈ active steps := by
    rw [mem_active, hdone]
    decide
  rw [← Finset.card_erase_add_one hold]
  congr 2
  ext r'
  rw [Finset.mem_erase]
  by_cases hr : r = r'
  · subst hr
    rw [mem_active, stepsOf_concat_self, hdone]
    exact ⟨fun h => absurd h.2 (by decide), fun h => absurd rfl h.1⟩
  · rw [mem_active_concat_of_ne hr]
    exact ⟨fun h => ⟨Ne.symm hr, h⟩, fun h => h.2⟩

/-! ## The counter -/

theorem run_concat (i : InFlight) (steps : List (Nat × Step)) (r : Nat) (s : Step) :
    run i (steps ++ [(r, s)]) = (run i steps).step r s := by
  rw [run, run, List.foldl_append]
  rfl

theorem counter_show (i : InFlight) (r : Nat) : (i.step r .show).counter = i.counter := by
  rw [step]
  split <;> rfl

/-- The counter is the number of requests in flight. -/
theorem counter_eq_card_active (h : Interleaved steps) :
    (run idle steps).counter = (active steps).card := by
  induction steps using List.reverseRecOn with
  | nil => rfl
  | append_singleton steps last ih =>
      rcases last with ⟨r, s⟩
      have hcounter := ih h.of_append
      rw [run_concat]
      cases s with
      | begin =>
          change (run idle steps).counter + 1 = _
          rw [hcounter, card_active_begin h]
          omega
      | finish =>
          change (run idle steps).counter + -1 = _
          rw [hcounter, ← card_active_finish h]
          omega
      | «show» => rw [counter_show, hcounter, active_concat_show]

/-- A request that ends finds a counter that it can take one from. -/
theorem counter_pos_of_finish (h : Interleaved (steps ++ [(r, .finish)])) :
    0 < (run idle steps).counter := by
  rw [counter_eq_card_active h.of_append, ← card_active_finish h]
  omega

/-! ## The gauge -/

/-- The request has made the change that these steps end with, and has not shown it since. -/
inductive Pending (r : Nat) : List (Nat × Step) → List (Nat × Step) → Prop where
  | now {before : List (Nat × Step)} {s : Step} (hs : s ≠ .show) :
      Pending r (before ++ [(r, s)]) (before ++ [(r, s)])
  | later {upTo steps : List (Nat × Step)} {r' : Nat} {s : Step} (h : Pending r upTo steps)
      (hr : r' ≠ r) : Pending r upTo (steps ++ [(r', s)])

/-- The gauge shows the change that these steps end with: it was set for that one, and not since. -/
inductive Shown (upTo : List (Nat × Step)) : List (Nat × Step) → Prop where
  | now {steps : List (Nat × Step)} {r : Nat} (h : Pending r upTo steps) :
      Shown upTo (steps ++ [(r, .show)])
  | later {steps : List (Nat × Step)} {r : Nat} {s : Step} (h : Shown upTo steps)
      (hs : s ≠ .show) : Shown upTo (steps ++ [(r, s)])

-- The numbers held for other requests pass a change or a setting untouched.
theorem lookup_filter_of_ne {held : List (Nat × Int)} (h : r' ≠ r) :
    (held.filter fun own => own.1 ≠ r').lookup r = held.lookup r := by
  induction held with
  | nil => rfl
  | cons own held ih =>
      rcases own with ⟨request, n⟩
      by_cases hown : request = r'
      · subst hown
        rw [List.filter_cons_of_neg (by simp), ih, List.lookup_cons, beq_false_of_ne h.symm]
      · rw [List.filter_cons_of_pos (by simpa using hown), List.lookup_cons, List.lookup_cons, ih]

theorem lookup_step_of_ne (i : InFlight) (h : r' ≠ r) (s : Step) :
    (i.step r' s).held.lookup r = i.held.lookup r := by
  cases s with
  | begin | finish =>
      rw [step, change, List.lookup_cons, beq_false_of_ne h.symm]
      exact lookup_filter_of_ne h
  | «show» =>
      rw [step]
      split
      · rfl
      · exact lookup_filter_of_ne h

-- A change is held by the request that made it and leaves the gauge alone.
theorem step_change {i : InFlight} (hs : s ≠ .show) :
    (i.step r s).held.lookup r = some (i.step r s).counter ∧ (i.step r s).gauge = i.gauge := by
  cases s with
  | begin | finish => exact ⟨List.lookup_cons_self, rfl⟩
  | «show» => exact absurd rfl hs

/-- What a request is going to show is how many requests were in flight after its last change. -/
theorem lookup_of_pending (h : Pending r upTo steps) (hinter : Interleaved steps) :
    (run idle steps).held.lookup r = some ((active upTo).card : Int) := by
  -- The change itself gives the number, and whatever other requests do leaves it held.
  induction h with
  | now hs => rw [← counter_eq_card_active hinter, run_concat, (step_change hs).1]
  | later h hr ih =>
      rw [run_concat, lookup_step_of_ne _ hr]
      exact ih hinter.of_append

/-- What the gauge shows is how many requests were in flight after the change that it shows. -/
theorem gauge_of_shown (h : Shown upTo steps) (hinter : Interleaved steps) :
    (run idle steps).gauge = (active upTo).card := by
  induction h with
  | now h => rw [run_concat, step, lookup_of_pending h hinter.of_append]
  | later h hs ih =>
      rw [run_concat, (step_change hs).2]
      exact ih hinter.of_append

theorem gauge_of_not_shown (h : ∀ s ∈ steps, s.2 ≠ .show) : (run idle steps).gauge = 0 := by
  induction steps using List.reverseRecOn with
  | nil => rfl
  | append_singleton steps last ih =>
      rcases List.forall_mem_append.mp h with ⟨hsteps, hlast⟩
      rw [run_concat, (step_change (hlast last List.mem_cons_self)).2]
      exact ih hsteps

/-- A request whose last step is a change has not shown it. -/
theorem exists_pending_of_last (hs : s ≠ .show) (done : List Step)
    (h : stepsOf r steps = done ++ [s]) : ∃ upTo, Pending r upTo steps := by
  induction steps using List.reverseRecOn with
  | nil => exact absurd h (List.append_ne_nil_of_right_ne_nil _ (List.cons_ne_nil _ _)).symm
  | append_singleton steps last ih =>
      rcases last with ⟨r', s'⟩
      by_cases hr : r' = r
      · subst hr
        rw [stepsOf_concat_self] at h
        have hlast : s' = s := List.singleton_inj.mp (List.append_inj_right' h rfl)
        subst hlast
        exact ⟨_, .now hs⟩
      · rw [stepsOf_concat_of_ne hr] at h
        rcases ih h with ⟨upTo, hpending⟩
        exact ⟨upTo, .later hpending hr⟩

/-- A request that sets the gauge has a change to show. -/
theorem Interleaved.exists_pending (h : Interleaved (steps ++ [(r, .show)])) :
    ∃ upTo, Pending r upTo steps := by
  rcases h.cases_last with h | h | h | h
  · cases h.2
  · exact exists_pending_of_last (by decide) [] h.1
  · cases h.2
  · exact exists_pending_of_last (by decide) [.begin, .show] h.1

/-- Once the gauge was set, it shows a change. -/
theorem exists_shown (hinter : Interleaved steps) (h : ∃ s ∈ steps, s.2 = .show) :
    ∃ upTo, Shown upTo steps := by
  induction steps using List.reverseRecOn with
  | nil =>
      rcases h with ⟨s, hs, -⟩
      cases hs
  | append_singleton steps last ih =>
      rcases last with ⟨r, s⟩
      by_cases hs : s = .show
      · subst hs
        rcases hinter.exists_pending with ⟨upTo, hpending⟩
        exact ⟨upTo, .now hpending⟩
      · rcases h with ⟨s', hmem, hshow⟩
        rcases List.mem_append.mp hmem with hmem | hmem
        · rcases ih hinter.of_append ⟨s', hmem, hshow⟩ with ⟨upTo, hshown⟩
          exact ⟨upTo, .later hshown hs⟩
        · rw [List.mem_singleton.mp hmem] at hshow
          exact absurd hshow hs

theorem active_append_of_show {after : List (Nat × Step)} (h : ∀ s ∈ after, s.2 = .show) :
    active (before ++ after) = active before := by
  induction after using List.reverseRecOn with
  | nil => rw [List.append_nil]
  | append_singleton after last ih =>
      rcases List.forall_mem_append.mp h with ⟨hafter, hlast⟩
      rcases last with ⟨r, s⟩
      have hs : s = .show := hlast (r, s) List.mem_cons_self
      rw [hs, ← List.append_assoc, active_concat_show, ih hafter]

/-! ## Settings in the order of the changes -/

/-- Each time the gauge is set, it is set for the oldest of the changes that are not shown yet. -/
inductive InOrder : List (Nat × Step) → Prop where
  | nil : InOrder []
  | change {steps : List (Nat × Step)} {r : Nat} {s : Step} (h : InOrder steps)
      (hs : s ≠ .show) : InOrder (steps ++ [(r, s)])
  | setting {upTo steps : List (Nat × Step)} {r : Nat} (h : InOrder steps)
      (hown : Pending r upTo steps)
      (holdest : ∀ r' upTo', Pending r' upTo' steps → upTo <+: upTo') :
      InOrder (steps ++ [(r, .show)])

/-- What is pending after a step was either begun by it, or pending before for another request. -/
theorem Pending.concat_cases (h : Pending r upTo (steps ++ [(r', s)])) :
    r' = r ∧ s ≠ .show ∧ upTo = steps ++ [(r', s)] ∨ r' ≠ r ∧ Pending r upTo steps := by
  generalize hall : steps ++ [(r', s)] = all at h
  cases h with
  | now hs =>
      cases List.append_inj_right' hall rfl
      exact .inl ⟨rfl, hs, rfl⟩
  | later h hr =>
      cases List.append_inj_right' hall rfl
      rw [List.append_inj_left' hall rfl]
      exact .inr ⟨hr, h⟩

theorem Pending.isPrefix (h : Pending r upTo steps) : upTo <+: steps := by
  induction h with
  | now => exact List.prefix_rfl
  | later _ _ ih => exact ih.trans (List.prefix_append _ _)

theorem Pending.ends_with_change (h : Pending r upTo steps) :
    ∃ before s, upTo = before ++ [(r, s)] ∧ s ≠ .show := by
  induction h with
  | now hs => exact ⟨_, _, rfl, hs⟩
  | later _ _ ih => exact ih

theorem Pending.unique {upTo' : List (Nat × Step)} (h : Pending r upTo steps)
    (h' : Pending r upTo' steps) : upTo = upTo' := by
  induction h with
  | now hs =>
      rcases h'.concat_cases with ⟨-, -, heq⟩ | ⟨hne, -⟩
      · exact heq.symm
      · exact absurd rfl hne
  | later _ hr ih =>
      rcases h'.concat_cases with ⟨heq, -⟩ | ⟨-, h'⟩
      · exact absurd heq hr
      · exact ih h'

theorem Pending.not_settled (h : Pending r upTo steps) : ¬ Settled steps := by
  suffices hlast : ∃ s ∈ (stepsOf r steps).getLast?, s ≠ .show by
    rcases hlast with ⟨s, hs, hne⟩
    exact fun hsettled => hne (hsettled r s hs)
  induction h with
  | @now before s hs =>
      refine ⟨s, ?_, hs⟩
      rw [stepsOf_concat_self, List.getLast?_concat]
      exact rfl
  | later _ hr ih => rwa [stepsOf_concat_of_ne hr]

/-- A change that only settings come after is the last one. Whoever has a change to show that is no
    older made that one. -/
theorem Pending.eq_of_isPrefix {after upTo' : List (Nat × Step)} (h : Pending r upTo steps)
    (h' : Pending r' upTo' (upTo ++ after)) (hle : upTo <+: upTo')
    (hafter : ∀ s ∈ after, s.2 = .show) : r = r' := by
  rcases hle with ⟨between, rfl⟩
  rcases h.ends_with_change with ⟨before, s, hupTo, -⟩
  rcases h'.ends_with_change with ⟨before', s', hends, hs'⟩
  rcases List.eq_nil_or_concat between with rfl | ⟨between, last, rfl⟩
  · rw [List.append_nil, hupTo] at hends
    cases List.append_inj_right' hends rfl
    rfl
  · rw [List.concat_eq_append] at hends h'
    rw [← List.append_assoc] at hends
    have hlast : last = (r', s') := List.singleton_inj.mp (List.append_inj_right' hends rfl)
    have hbetween := (List.prefix_append_right_inj upTo).mp h'.isPrefix
    have hmem : last ∈ after := hbetween.subset (List.mem_append_right _ List.mem_cons_self)
    rw [hlast] at hmem
    exact absurd (hafter _ hmem) hs'

/-- After the last change there are only settings. It is not shown yet, or it is and nothing is left
    to be shown. -/
theorem InOrder.last_change (h : InOrder steps) :
    ∃ upTo after, steps = upTo ++ after ∧ (∀ s ∈ after, s.2 = .show) ∧
      (steps = [] ∨ (∃ r, Pending r upTo steps) ∨
        Shown upTo steps ∧ ∀ r' upTo', ¬ Pending r' upTo' steps) := by
  induction h with
  | nil => exact ⟨[], [], rfl, fun _ h => (nomatch h), .inl rfl⟩
  | @change steps r s _ hs _ =>
      exact ⟨steps ++ [(r, s)], [], (List.append_nil _).symm, fun _ h => (nomatch h),
        .inr (.inl ⟨r, .now hs⟩)⟩
  | @setting upToOwn steps r _ hown holdest ih =>
      rcases ih with ⟨upTo, after, hsteps, hafter, hcase⟩
      refine ⟨upTo, after ++ [(r, .show)], by rw [hsteps, List.append_assoc],
        List.forall_mem_append.mpr ⟨hafter, fun s hs => by rw [List.mem_singleton.mp hs]⟩, .inr ?_⟩
      rcases hcase with rfl | ⟨r', hpending⟩ | ⟨-, hnone⟩
      · exact absurd (fun _ _ h => (nomatch h)) hown.not_settled
      · by_cases hr : r = r'
        · -- The last change is shown now. As the oldest one it was the only one left.
          subst hr
          refine .inr ⟨.now hpending, fun r' upTo' h => ?_⟩
          rcases h.concat_cases with ⟨-, hs, -⟩ | ⟨hne, hother⟩
          · exact absurd rfl hs
          · have holder := holdest r' upTo' hother
            rw [hown.unique hpending] at holder
            rw [hsteps] at hother
            exact hne (hpending.eq_of_isPrefix hother holder hafter)
        · exact .inl ⟨r', hpending.later hr⟩
      · exact absurd hown (hnone _ _)

theorem gauge_of_last_shown {after : List (Nat × Step)} (hinter : Interleaved steps)
    (hshown : Shown upTo steps) (hsteps : steps = upTo ++ after)
    (hafter : ∀ s ∈ after, s.2 = .show) :
    (run idle steps).gauge = (run idle steps).counter := by
  rw [gauge_of_shown hshown hinter, counter_eq_card_active hinter, hsteps,
    active_append_of_show hafter]

/-- Settings in the order of the changes leave the gauge right once all changes are shown. -/
theorem gauge_of_inOrder (hinter : Interleaved steps) (horder : InOrder steps)
    (hsettled : Settled steps) : (run idle steps).gauge = (run idle steps).counter := by
  rcases horder.last_change with ⟨upTo, after, hsteps, hafter, rfl | ⟨r, h⟩ | ⟨hshown, -⟩⟩
  · rfl
  · exact absurd hsettled h.not_settled
  · exact gauge_of_last_shown hinter hshown hsteps hafter

/-- Whatever steps of requests fall between each other, the counter is the number of requests in
    flight, and a request that ends never takes one from nothing. The gauge is at zero before it is
    set, and then it shows how many requests were in flight after a change: the one whose setting
    came last. So it agrees with the counter if no request has begun or ended since that change, and
    once all changes are shown if their settings came in their order. -/
theorem gauge_shows_a_change (h : Interleaved steps) :
    (run idle steps).counter = (active steps).card ∧
    (∀ before r after, steps = before ++ (r, .finish) :: after → 0 < (run idle before).counter) ∧
    ((∀ s ∈ steps, s.2 ≠ .show) → (run idle steps).gauge = 0) ∧
    ((∃ s ∈ steps, s.2 = .show) → ∃ upTo, Shown upTo steps) ∧
    (∀ upTo, Shown upTo steps → (run idle steps).gauge = (active upTo).card ∧
      ∀ after, steps = upTo ++ after → (∀ s ∈ after, s.2 = .show) →
        (run idle steps).gauge = (run idle steps).counter) ∧
    (InOrder steps → Settled steps → (run idle steps).gauge = (run idle steps).counter) := by
  refine ⟨counter_eq_card_active h, fun before r after hsteps => ?_, gauge_of_not_shown,
    exists_shown h, fun upTo hshown => ⟨gauge_of_shown hshown h, fun after hsteps hafter =>
      gauge_of_last_shown h hshown hsteps hafter⟩, gauge_of_inOrder h⟩
  rw [hsteps, List.append_cons] at h
  exact counter_pos_of_finish h.of_append

/-! ## Two requests that cross -/

/-- Only requests that have made a step need to be looked at, which decides what is asked of all. -/
theorem forall_stepsOf_iff {P : List Step → Prop} (hnil : P []) :
    (∀ r, P (stepsOf r steps)) ↔ ∀ r ∈ steps.map (·.1), P (stepsOf r steps) := by
  refine ⟨fun h r _ => h r, fun h r => ?_⟩
  by_cases hr : r ∈ steps.map (·.1)
  · exact h r hr
  · have hnone : stepsOf r steps = [] := by
      rw [stepsOf, List.map_eq_nil_iff, List.filter_eq_nil_iff]
      intro own hown heq
      exact hr (List.mem_map.mpr ⟨own, hown, of_decide_eq_true heq⟩)
    rw [hnone]
    exact hnil

instance (steps : List (Nat × Step)) : Decidable (Interleaved steps) :=
  decidable_of_iff _ (forall_stepsOf_iff (P := fun done => done <+: course) List.nil_prefix).symm

instance (steps : List (Nat × Step)) : Decidable (Settled steps) :=
  decidable_of_iff _ (forall_stepsOf_iff
    (P := fun done => ∀ s ∈ done.getLast?, s = .show) (fun _ h => nomatch h)).symm

/-- Two requests begin. If the second one sets the gauge first, it shows one in the end, with two in
    flight. If they set it in their order, it shows two. -/
theorem gauge_shows_a_change_of_two :
    let first := [(1, Step.begin)]
    let both := first ++ [(2, Step.begin)]
    let crossed := both ++ [(2, .show)] ++ [(1, .show)]
    let ordered := both ++ [(1, .show)] ++ [(2, .show)]
    (Interleaved crossed ∧ (run idle crossed).counter = 2 ∧ Shown first crossed ∧
      (run idle crossed).gauge = (active first).card) ∧
    Interleaved ordered ∧ InOrder ordered ∧ Settled ordered ∧
      (run idle ordered).gauge = (run idle ordered).counter := by
  intro first both crossed ordered
  have hfirst : Pending 1 first first := @Pending.now 1 [] .begin (by decide)
  have hsecond : Pending 2 both both := @Pending.now 2 first .begin (by decide)
  have hpending : ∀ r upTo, Pending r upTo both → r = 2 ∧ upTo = both ∨ r = 1 ∧ upTo = first := by
    intro r upTo h
    rcases h.concat_cases with ⟨hr, -, hupTo⟩ | ⟨-, h⟩
    · exact .inl ⟨hr.symm, hupTo⟩
    · rcases (show Pending r upTo ([] ++ [(1, Step.begin)]) from h).concat_cases with
        ⟨hr, -, hupTo⟩ | ⟨-, h⟩
      · exact .inr ⟨hr.symm, hupTo⟩
      · exact absurd (fun _ _ h => (nomatch h)) h.not_settled
  have hordered : InOrder ordered := by
    have hboth : InOrder both := .change (.change .nil (by decide) : InOrder ([] ++ _)) (by decide)
    refine .setting (.setting hboth (hfirst.later (by decide)) ?_) (hsecond.later (by decide)) ?_
    · intro r upTo h
      rcases hpending r upTo h with ⟨-, rfl⟩ | ⟨-, rfl⟩
      · exact List.prefix_append _ _
      · exact List.prefix_rfl
    · intro r upTo h
      rcases h.concat_cases with ⟨-, hs, -⟩ | ⟨hne, h⟩
      · exact absurd rfl hs
      · rcases hpending r upTo h with ⟨-, rfl⟩ | ⟨rfl, -⟩
        · exact List.prefix_rfl
        · exact absurd rfl hne
  have hshown : Shown first crossed := .now ((hfirst.later (by decide)).later (by decide))
  rcases gauge_shows_a_change (show Interleaved crossed by decide) with
    ⟨hcounter, -, -, -, hgauge, -⟩
  rcases gauge_shows_a_change (show Interleaved ordered by decide) with ⟨-, -, -, -, -, hinOrder⟩
  exact ⟨⟨by decide, hcounter, hshown, (hgauge first hshown).1⟩, by decide, hordered, by decide,
    hinOrder hordered (by decide)⟩

/-- Two requests begin and end, and the settings of the last two changes cross. Nobody is in flight
    then, and the gauge shows one. -/
theorem gauge_drifts :
    let steps := [(1, Step.begin), (2, .begin), (2, .show), (1, .show),
      (1, .finish), (2, .finish), (2, .show), (1, .show)]
    Interleaved steps ∧ Settled steps ∧ active steps = ∅ ∧ (run idle steps).counter = 0 ∧
      (run idle steps).gauge = 1 := by
  decide

end ForwardAuth.Metrics.InFlight
