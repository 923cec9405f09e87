import ForwardAuth.Proofs.Dialogue
import ForwardAuth.Resolution.Enforcement

/-!
# Impersonation is all or nothing

Enforcement walks over the targets of a request, a user before the groups, and puts one question for
each. `plan` is that walk written down as a list, and `enforce_eq_plan` says that enforcement is the
walk over its plan followed by one identity. The request that asks for nothing has an empty plan, so
it needs no case of its own.

The walk stops at the first answer that is no grant. `authorizeAll_of_receives` describes it, by
induction on the targets, for any answers beside them: `asked` are the targets it gets to, and
`firstFailure?` is the one that ends it, if any does. The questions are known beforehand, since none
of them depends on what was granted before: every one is about the caller as it came.

Answers are only what they are if the request lives to receive them. `Scope.Receives` states that
for the calls that the questions of a plan start, and it is the one hypothesis about time here.

## Main definitions

* `plan`: The targets of a request in the order in which they are asked for.
* `planQuery`: The question for one target of a plan.
* `accessCalls`: The calls that questions start, one after another.
* `grants`: The answer grants the access.
* `firstFailure?`, `asked`: Where a walk ends, and what it asks until then.
* `failure`: Why a caller is refused.
* `authorizeAll`: Asks for each of some targets.

## Theorems

* `accessQuery_eq_planQuery`: What is asked for a target is the question of the plan.
* `assumed_of_isEmpty`: Who asks for nothing acts as itself.
* `groups_assumed`: The groups of the identity that is acted as.
* `enforce_eq_plan`: Enforcement is the walk over the plan.
* `enforce_eq_ok`: Enforcement gives the identity that was asked for, or none.
* `uniform_enforce`: Enforcement is one dialogue with any authority.
* `authorize_of_received`: One question, once its answer is received.
* `authorizeAll_of_receives`: The walk over targets whose questions are answered.
* `enforce_all_or_nothing`: What enforcement asks, and what comes of it.
-/

namespace ForwardAuth.Resolution

open Impersonation (Subject Targets)

variable {σ : Type}

/-- The targets of a request in the order in which they are asked for. -/
def plan (t : Targets) : List (Subject × String) :=
  t.user.toList.map (fun name => (.user, name)) ++ t.groups.map fun name => (.group, name)

/-- The question for one target of a plan: may the caller, a member of its groups, impersonate the
    user or the group of that name? -/
def planQuery (caller : Identity) (target : Subject × String) : Review.AccessQuery where
  actingUser := caller.username
  actingGroups := caller.groups
  verb := "impersonate"
  resource := match target.1 with
    | .user => .users
    | .group => .groups
  name := target.2

/-- The calls that questions about accesses start, one after another. -/
def accessCalls (A : Authority σ) :
    List Review.AccessQuery → σ → List (Call (Except Review.Error Bool))
  | [], _ => []
  | query :: queries, memory =>
    (A.access query memory).1 :: accessCalls A queries (A.access query memory).2

/-- The answer grants the access. -/
def grants : Except Review.Error Bool → Bool
  | .ok true => true
  | _ => false

/-- The first target whose question is not answered with a grant, and the answer. -/
def firstFailure? (targets : List (Subject × String)) (answers : List (Except Review.Error Bool)) :
    Option ((Subject × String) × Except Review.Error Bool) :=
  (targets.zip answers).find? fun r => !grants r.2

/-- The targets that are asked for, each with its answer: those that are granted, and the first that
    is not. -/
def asked (targets : List (Subject × String)) (answers : List (Except Review.Error Bool)) :
    List ((Subject × String) × Except Review.Error Bool) :=
  (targets.zip answers).takeWhile (fun r => grants r.2) ++ (firstFailure? targets answers).toList

/-- Why a caller is refused whose question for a target is answered with no grant. -/
def failure (caller : Identity) (target : Subject × String) : Except Review.Error Bool → Refusal
  | .ok _ => .impersonationDenied target.1 caller.username target.2
  | .error e => .backendUnavailable e.message

/-- Asks for each of some targets, and refuses at the first that is not granted. -/
def authorizeAll (A : Authority σ) (caller : Identity) (targets : List (Subject × String)) :
    Resolving σ Unit :=
  forM targets fun target => authorize A caller target.1 target.2

theorem eq_ok_true_of_grants {answer : Except Review.Error Bool} (h : grants answer = true) :
    answer = .ok true := by
  rcases answer with e | allowed
  · exact absurd h (by simp only [grants, Bool.false_eq_true, not_false_eq_true])
  · cases allowed with
    | true => rfl
    | false => exact absurd h (by simp only [grants, Bool.false_eq_true, not_false_eq_true])

theorem accessVerdict_of_not_grants (caller : Identity) (target : Subject × String)
    (answer : Except Review.Error Bool) (h : grants answer = false) :
    accessVerdict caller target.1 target.2 answer = .error (failure caller target answer) := by
  rcases answer with e | allowed
  · rfl
  · cases allowed with
    | true => exact absurd h (by decide)
    | false => rfl

theorem asked_cons_of_grants (target : Subject × String) (targets : List (Subject × String))
    {answer : Except Review.Error Bool} (answers : List (Except Review.Error Bool))
    (h : grants answer = true) :
    asked (target :: targets) (answer :: answers) = (target, answer) :: asked targets answers := by
  unfold asked firstFailure?
  rw [List.zip_cons_cons, List.takeWhile_cons_of_pos (by exact h),
    List.find?_cons_of_neg (by simp only [h, Bool.not_true, Bool.false_eq_true, not_false_eq_true]),
    List.cons_append]

theorem firstFailure?_cons_of_not_grants (target : Subject × String)
    (targets : List (Subject × String)) {answer : Except Review.Error Bool}
    (answers : List (Except Review.Error Bool)) (h : grants answer = false) :
    firstFailure? (target :: targets) (answer :: answers) = some (target, answer) := by
  unfold firstFailure?
  rw [List.zip_cons_cons, List.find?_cons_of_pos (by simp only [h, Bool.not_false])]

theorem asked_cons_of_not_grants (target : Subject × String) (targets : List (Subject × String))
    {answer : Except Review.Error Bool} (answers : List (Except Review.Error Bool))
    (h : grants answer = false) :
    asked (target :: targets) (answer :: answers) = [(target, answer)] := by
  unfold asked
  rw [firstFailure?_cons_of_not_grants target targets answers h, List.zip_cons_cons,
    List.takeWhile_cons_of_neg (by simp only [h, Bool.false_eq_true, not_false_eq_true])]
  rfl

/-- What is asked for a target is the question of the plan. -/
theorem accessQuery_eq_planQuery (caller : Identity) (target : Subject × String) :
    accessQuery caller target.1 target.2 = planQuery caller target := by
  rcases target with ⟨subject, name⟩
  cases subject with
  | user => rfl
  | group => rfl

theorem assumed_of_isEmpty (caller : Identity) (t : Targets) (h : t.isEmpty = true) :
    assumed caller t = caller := by
  rcases t with ⟨user, groups⟩
  simp only [Targets.isEmpty, Bool.and_eq_true, Option.isNone_iff_eq_none,
    List.isEmpty_iff] at h
  rcases h with ⟨rfl, rfl⟩
  unfold assumed
  rw [List.append_nil]
  exact Identity.of_groups caller

/-- The groups of the identity that is acted as: those of the caller, then those that are new. -/
theorem groups_assumed (caller : Identity) (t : Targets) :
    (assumed caller t).groups
      = caller.groups ++ (t.groups.filter fun g => g ∉ caller.groups).eraseDups :=
  firstOccurrences_append caller.nodup_groups t.groups

/-- Enforcement is the walk over the plan, and then the identity that was asked for. -/
theorem enforce_eq_plan (A : Authority σ) (caller : Identity) (t : Targets) :
    enforce A caller t = authorizeAll A caller (plan t) >>= fun _ => pure (assumed caller t) := by
  rcases t with ⟨user, groups⟩
  have hgroups : authorizeAll A caller (groups.map fun name => (Subject.group, name))
      = forM groups (authorize A caller .group) := by
    unfold authorizeAll
    rw [List.forM_map]
  unfold enforce
  by_cases h : Targets.isEmpty ⟨user, groups⟩ = true
  · -- The plan is empty as well, and the caller acts as itself.
    rw [if_pos h, assumed_of_isEmpty caller _ h]
    simp only [Targets.isEmpty, Bool.and_eq_true, Option.isNone_iff_eq_none,
      List.isEmpty_iff] at h
    rcases h with ⟨rfl, rfl⟩
    rfl
  · rw [if_neg h]
    cases user with
    | none =>
        change _ = authorizeAll A caller (groups.map fun name => (Subject.group, name)) >>= _
        rw [hgroups]
        rfl
    | some name =>
        -- The user is the head of the plan, and the walk over the groups is the rest.
        change _ = authorizeAll A caller ((.user, name) ::
          groups.map fun name => (Subject.group, name)) >>= _
        unfold authorizeAll at hgroups ⊢
        rw [List.forM_cons, hgroups, bind_assoc]
        rfl

/-- Enforcement gives the identity that was asked for, after the walk over the plan, or none. -/
theorem enforce_eq_ok {A : Authority σ} {caller i : Identity} {t : Targets} {p p' : Progress σ}
    (h : (enforce A caller t).runFrom p = (.ok i, p')) :
    i = assumed caller t ∧ (authorizeAll A caller (plan t)).runFrom p = (.ok (), p') := by
  rw [enforce_eq_plan] at h
  rcases Resolving.runFrom_bind_eq_ok _ _ _ _ _ h with ⟨⟨⟩, p'', hwalk, hpure⟩
  rw [Resolving.runFrom_pure] at hpure
  injection hpure with hi hp
  rw [hp] at hwalk
  exact ⟨(Except.ok.inj hi).symm, hwalk⟩

theorem authorize_eq_put (A : Authority σ) (caller : Identity) (s : Subject) (name : String) :
    authorize A caller s name =
      Resolving.put A (.access (accessQuery caller s name)) >>= fun answer =>
        .ofExcept (accessVerdict caller s name answer) := rfl

theorem uniform_enforce (caller : Identity) (t : Targets) :
    Uniform fun _ A => enforce A caller t := by
  simp only [enforce_eq_plan]
  refine uniform_bind ?_ fun _ => uniform_ofExcept (.ok (assumed caller t))
  refine uniform_forM (plan t) fun target => ?_
  simp only [authorize_eq_put]
  exact uniform_bind (uniform_put _) fun answer => uniform_ofExcept _

/-- One question, once its answer is received: it adds one review, and the answer decides. -/
theorem authorize_of_received (A : Authority σ) (caller : Identity) (target : Subject × String)
    (p : Progress σ) (answer : Except Review.Error Bool) (scope : Scope)
    (h : p.scope.run (A.access (planQuery caller target) p.authority).1
      = (.begun (.answered answer), scope)) :
    (authorize A caller target.1 target.2).runFrom p =
      ((accessVerdict caller target.1 target.2 answer).mapError .refused,
        { p with
          scope, authority := (A.access (planQuery caller target) p.authority).2,
          reviews := p.reviews ++ [.access (planQuery caller target) (some answer)] }) := by
  rw [authorize_eq_put, Resolving.runFrom_bind, accessQuery_eq_planQuery,
    Resolving.runFrom_put_of_begun A (.access (planQuery caller target)) p _ scope h]
  exact Resolving.runFrom_ofExcept _ _

/-- Enforcement gives the identity that was asked for, once the walk over the plan is done. -/
theorem runFrom_enforce_of_granted (A : Authority σ) (caller : Identity) (t : Targets)
    (p : Progress σ) (h : ((authorizeAll A caller (plan t)).runFrom p).1 = .ok ()) :
    (enforce A caller t).runFrom p =
      (.ok (assumed caller t), ((authorizeAll A caller (plan t)).runFrom p).2) := by
  rw [enforce_eq_plan, Resolving.runFrom_bind]
  rcases hwalk : (authorizeAll A caller (plan t)).runFrom p with ⟨result, p'⟩
  rw [hwalk] at h
  rw [show result = .ok () from h]
  rfl

theorem runFrom_enforce_of_stopped (A : Authority σ) (caller : Identity) (t : Targets)
    (p : Progress σ) (stop : Stop)
    (h : ((authorizeAll A caller (plan t)).runFrom p).1 = .error stop) :
    (enforce A caller t).runFrom p =
      (.error stop, ((authorizeAll A caller (plan t)).runFrom p).2) := by
  rw [enforce_eq_plan, Resolving.runFrom_bind]
  rcases hwalk : (authorizeAll A caller (plan t)).runFrom p with ⟨result, p'⟩
  rw [hwalk] at h
  rw [show result = .error stop from h]

theorem authorizeAll_cons (A : Authority σ) (caller : Identity) (target : Subject × String)
    (targets : List (Subject × String)) (p : Progress σ) (answer : Except Review.Error Bool)
    (scope : Scope)
    (h : p.scope.run (A.access (planQuery caller target) p.authority).1
      = (.begun (.answered answer), scope)) :
    (authorizeAll A caller (target :: targets)).runFrom p =
      match accessVerdict caller target.1 target.2 answer with
      | .ok () => (authorizeAll A caller targets).runFrom { p with
          scope, authority := (A.access (planQuery caller target) p.authority).2,
          reviews := p.reviews ++ [.access (planQuery caller target) (some answer)] }
      | .error cause => (.error (.refused cause), { p with
          scope, authority := (A.access (planQuery caller target) p.authority).2,
          reviews := p.reviews ++ [.access (planQuery caller target) (some answer)] }) := by
  unfold authorizeAll
  rw [List.forM_cons, Resolving.runFrom_bind,
    authorize_of_received A caller target p answer scope h]
  rcases accessVerdict caller target.1 target.2 answer with cause | ⟨⟩
  · rfl
  · rfl

/-- The walk over targets whose questions are answered: it ends at the first answer that is no
    grant, and asks for nothing after it. -/
theorem authorizeAll_of_receives (A : Authority σ) (caller : Identity)
    (targets : List (Subject × String)) (answers : List (Except Review.Error Bool))
    (p : Progress σ)
    (hlive : p.scope.Receives (accessCalls A (targets.map (planQuery caller)) p.authority) answers)
    (henough : answers.length = targets.length ∨ ∃ a ∈ answers, grants a = false) :
    ((authorizeAll A caller targets).runFrom p).2.reviews
        = p.reviews ++ (asked targets answers).map
            (fun r => .access (planQuery caller r.1) (some r.2)) ∧
      ((authorizeAll A caller targets).runFrom p).1
        = (firstFailure? targets answers).elim (.ok ()) fun r =>
            .error (.refused (failure caller r.1 r.2)) := by
  induction targets generalizing answers p with
  | nil => exact ⟨(List.append_nil _).symm, rfl⟩
  | cons target targets ih =>
      cases answers with
      | nil =>
          -- Answers may run out only behind one that ends the walk.
          rcases henough with hlen | ⟨a, ha, _⟩
          · exact absurd hlen (by simp only [List.length_nil, List.length_cons]; omega)
          · exact absurd ha List.not_mem_nil
      | cons answer answers =>
          rw [List.map_cons, accessCalls, Scope.receives_cons] at hlive
          rcases hlive with ⟨scope, hrun, hrest⟩
          rw [authorizeAll_cons A caller target targets p answer scope hrun]
          by_cases hgrant : grants answer = true
          · -- A grant: the walk goes on, and so do both lists.
            have hok := eq_ok_true_of_grants hgrant
            subst hok
            have henough' : answers.length = targets.length ∨ ∃ a ∈ answers, grants a = false := by
              rcases henough with hlen | ⟨a, ha, hno⟩
              · exact Or.inl (Nat.succ.inj hlen)
              · rcases List.mem_cons.mp ha with rfl | ha
                · exact absurd hno (by decide)
                · exact Or.inr ⟨a, ha, hno⟩
            have hih := ih answers { p with
              scope, authority := (A.access (planQuery caller target) p.authority).2,
              reviews := p.reviews ++ [.access (planQuery caller target) (some (.ok true))] }
              hrest henough'
            refine ⟨?_, hih.2⟩
            refine hih.1.trans ?_
            rw [asked_cons_of_grants, List.map_cons, List.append_assoc, List.singleton_append]
            exact hgrant
          · -- No grant: the walk ends, and this is the first failure.
            rw [Bool.not_eq_true] at hgrant
            rw [accessVerdict_of_not_grants caller target answer hgrant,
              firstFailure?_cons_of_not_grants target targets answers hgrant,
              asked_cons_of_not_grants target targets answers hgrant]
            exact ⟨rfl, rfl⟩

/-- Enforcement is all or nothing. Put the questions of the plan beside the answers they get, as
    long as the request lives to receive them. The reviews are those of the targets that are asked
    for, up to the first that is not granted. If all are granted, the caller acts as the user it
    asked for, or as itself, with its own groups and then the new ones. If one is not, it alone
    decides the refusal. -/
theorem enforce_all_or_nothing (A : Authority σ) (caller : Identity) (t : Targets) (p : Progress σ)
    (answers : List (Except Review.Error Bool))
    (hlive : p.scope.Receives (accessCalls A ((plan t).map (planQuery caller)) p.authority) answers)
    (henough : answers.length = (plan t).length ∨ ∃ a ∈ answers, grants a = false) :
    ((enforce A caller t).runFrom p).2.reviews
        = p.reviews ++ (asked (plan t) answers).map
            (fun r => .access (planQuery caller r.1) (some r.2)) ∧
      (firstFailure? (plan t) answers = none →
        ∃ i, ((enforce A caller t).runFrom p).1 = .ok i ∧
          i.username = t.user.getD caller.username ∧
          i.groups = caller.groups ++ (t.groups.filter fun g => g ∉ caller.groups).eraseDups) ∧
      ∀ target answer, firstFailure? (plan t) answers = some (target, answer) →
        ((enforce A caller t).runFrom p).1 = .error (.refused (failure caller target answer)) := by
  rcases authorizeAll_of_receives A caller (plan t) answers p hlive henough with ⟨hreviews, hresult⟩
  rcases hfirst : firstFailure? (plan t) answers with _ | ⟨target, answer⟩
  · rw [hfirst] at hresult
    have hrun := runFrom_enforce_of_granted A caller t p hresult
    refine ⟨by rw [hrun]; exact hreviews, fun _ => ?_, fun target answer h => ?_⟩
    · exact ⟨assumed caller t, by rw [hrun], rfl, groups_assumed caller t⟩
    · exact absurd h (by simp only [reduceCtorEq, not_false_eq_true])
  · rw [hfirst] at hresult
    have hrun := runFrom_enforce_of_stopped A caller t p _ hresult
    refine ⟨by rw [hrun]; exact hreviews, fun h => ?_, fun target' answer' h => ?_⟩
    · exact absurd h (by simp only [reduceCtorEq, not_false_eq_true])
    · rw [Option.some.injEq, Prod.mk.injEq] at h
      rw [hrun, ← h.1, ← h.2]

/-- A user is granted at once and a group after a while, and both are lost with the next group. All
    three questions are about the caller as it came. -/
theorem enforce_denied_after_grants :
    let p : Progress Script :=
      ⟨⟨false, false, some 60, 0⟩, ⟨[.instant (.ok true), .after (.wait 5) (.instant (.ok true)),
        .instant (.ok false)], []⟩, [], []⟩
    let run := (enforce Authority.scripted ⟨"bob", ["eng"], by decide⟩
      ⟨some "carol", ["ops", "eng", "ops"]⟩).runFrom p
    run.2.reviews = [
        .access ⟨"bob", ["eng"], "impersonate", .users, "carol"⟩ (some (.ok true)),
        .access ⟨"bob", ["eng"], "impersonate", .groups, "ops"⟩ (some (.ok true)),
        .access ⟨"bob", ["eng"], "impersonate", .groups, "eng"⟩ (some (.ok false))] ∧
      run.1 = .error (.refused (.impersonationDenied .group "bob" "eng")) := by
  intro p run
  have hrun := enforce_all_or_nothing Authority.scripted ⟨"bob", ["eng"], by decide⟩
    ⟨some "carol", ["ops", "eng", "ops"]⟩ p [.ok true, .ok true, .ok false]
    ⟨[.begun (.answered (.ok true))], rfl⟩
    (Or.inr ⟨.ok false, by simp only [List.mem_cons, true_or, or_true], rfl⟩)
  exact ⟨hrun.1, hrun.2.2 (.group, "eng") (.ok false) rfl⟩

end ForwardAuth.Resolution
