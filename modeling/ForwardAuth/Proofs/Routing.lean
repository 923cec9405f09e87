import ForwardAuth.Proofs.Resolution

/-!
# Each bearer token goes one way

A bearer token is either structured, and then its claims speak for it once the verifier has accepted
it, or opaque, and then the authority is asked. Neither way ever leads into the other. The danger is
in the endings: a token that is refused by the verifier, or whose claims make no identity, must not
be tried as an opaque one, and an opaque one must not be shown to the verifier.

What is done with structured tokens is part of the progress of a run, in the order in which it is
done. So whether the verifier is asked, how often, and whether before the claims are looked at, can
be read off the run itself, beside the reviews and the result. For a structured token the whole run
is known from what the verifier and the claims say. For an opaque one the verifier has no part in
it, and the end of one review decides.

## Main definitions

* `Decides`: What the end of a token review means for the request.

## Theorems

* `answered_or_over`: An answer is received, or the request is over by then.
* `decides_reviewed`: What the end of a token review means for the request.
* `extract_bearer_one_way`: Each bearer token goes one way.
-/

namespace ForwardAuth

theorem Scope.hindrance?_atDeadline {s : Scope} (hcancelled : ¬ s.isCancelled = true)
    (hdeadline : s.deadline.isSome = true) :
    s.atDeadline.hindrance? = some .deadlineExceeded := by
  -- Time passes until the deadline, and the request is as little cancelled as before.
  have hstill : ¬ s.atDeadline.isCancelled = true := hcancelled
  rcases Option.isSome_iff_exists.mp hdeadline with ⟨time, htime⟩
  rw [hindrance?, if_neg hstill, if_pos]
  simp only [isDue, atDeadline, htime, Option.any_some, Option.elim, decide_eq_true_eq]
  exact Nat.le_max_right s.now time

/-- An answer is received, or the request is over by the time it would have come. -/
theorem Scope.answered_or_over {α : Type} (s : Scope) (a : α) (steps : List Call.Step) :
    (s.follow (some a) steps).1 = .answered a ∨
      ∃ cause, (s.follow (some a) steps).1 = .interrupted cause ∧
        (s.follow (some a) steps).2.hindrance? = some cause := by
  induction steps generalizing s with
  | nil => exact Or.inl rfl
  | cons step steps ih =>
      cases step with
      | cancel reach => exact ih (s.cancel reach)
      | work duration => exact ih { s with now := s.now + duration }
      | wait duration =>
          rw [follow]
          by_cases hc : s.isCancelled = true
          · rw [if_pos hc]
            exact Or.inr ⟨.cancelled, rfl, by rw [hindrance?, if_pos hc]⟩
          · rw [if_neg hc]
            by_cases hd : s.isDue (s.now + duration) = true
            · rw [if_pos hd]
              refine Or.inr ⟨.deadlineExceeded, rfl, hindrance?_atDeadline hc ?_⟩
              -- Only a scope with a deadline can be due.
              rcases (Option.any_eq_true _ _).mp hd with ⟨time, htime, -⟩
              rw [htime]
              rfl
            · rw [if_neg hd]
              exact ih { s with now := s.now + duration }

namespace Resolution

variable {σ : Type}

/-- What the end of a token review means for the request. -/
structure Decides (ending : Ending (Except Review.Error Review.TokenVerdict))
    (result : Except Stop Identity) : Prop where
  failed : ∀ error, ending = .answered (.error error) →
    result = .error (.refused (.tokenReviewFailed error.message))
  denied : ∀ verdict reason, ending = .answered (.ok verdict) → verdict.statusError = some reason →
    reason ≠ "" → result = .error (.refused (.tokenReviewDenied reason))
  accepted : ∀ verdict, ending = .answered (.ok verdict) →
    (verdict.statusError = none ∨ verdict.statusError = some "") →
    ∃ i, result = .ok i ∧ i.username = verdict.username ∧ i.groups = verdict.groups.eraseDups
  interrupted : ∀ cause, ending = .interrupted cause → result = .error (.refused cause.refusal)
  pending : ending = .pending → result = .error .pending

theorem reviewed_of_reason {verdict : Review.TokenVerdict} {reason : String}
    (h : verdict.statusError = some reason) (hne : reason ≠ "") :
    Extractor.reviewed (.ok verdict) = .error (.tokenReviewDenied reason) := by
  have hkept : (verdict.statusError.filter fun reason => !reason.isEmpty) = some reason := by
    rw [h, Option.filter_some, if_pos]
    rw [Bool.not_eq_true', Bool.eq_false_iff, Ne, String.isEmpty_iff]
    exact hne
  rw [Extractor.reviewed, hkept]
  rfl

theorem reviewed_of_no_reason {verdict : Review.TokenVerdict}
    (h : verdict.statusError = none ∨ verdict.statusError = some "") :
    Extractor.reviewed (.ok verdict) = .ok (.of verdict.username verdict.groups) := by
  have hdropped : (verdict.statusError.filter fun reason => !reason.isEmpty) = none := by
    rcases h with h | h
    · rw [h, Option.filter_none]
    · rw [h]
      rfl
  rw [Extractor.reviewed, hdropped]
  rfl

/-- What the end of a token review means for the request. -/
theorem decides_reviewed (ending : Ending (Except Review.Error Review.TokenVerdict)) :
    Decides ending
      (ending.result >>= fun answer => (Extractor.reviewed answer).mapError .refused) where
  failed error h := by
    rw [h]
    rfl
  denied verdict reason h hreason hne := by
    rw [h]
    exact congrArg (Except.mapError Stop.refused) (reviewed_of_reason hreason hne)
  accepted verdict h hreason := by
    refine ⟨.of verdict.username verdict.groups, ?_, rfl, firstOccurrences_eq_eraseDups _⟩
    rw [h]
    exact congrArg (Except.mapError Stop.refused) (reviewed_of_no_reason hreason)
  interrupted cause h := by
    rw [h]
    rfl
  pending h := by
    rw [h]
    rfl

-- A review that is begun ends the extraction with what its end means.
theorem runFrom_extract_unstructured [Wording] (e : Extractor) (A : Authority σ) {token : String}
    (h : Token.Structured.parse? token = none) (p : Progress σ)
    (ending : Ending (Except Review.Error Review.TokenVerdict)) (scope : Scope)
    (hrun : p.scope.run (A.token ⟨token⟩ p.authority).1 = (.begun ending, scope)) :
    (e.extract A (.bearer token)).runFrom p =
      (ending.result >>= fun answer => (Extractor.reviewed answer).mapError .refused,
        { p with
          scope, authority := (A.token ⟨token⟩ p.authority).2,
          reviews := p.reviews ++ [.token ⟨token⟩ ending.answer?] }) := by
  rw [extract_unstructured e A token h, Resolving.runFrom_bind,
    Resolving.runFrom_put_of_begun A (.token ⟨token⟩) p ending scope hrun]
  cases ending with
  | answered answer => exact Resolving.runFrom_ofExcept _ _
  | interrupted cause => rfl
  | pending => rfl

/-- Each bearer token goes one way. A structured token is put to the verifier, once and before
    anything else, and whatever comes of it, the authority is asked nothing and no time passes. If
    the verifier refuses, its refusal is the result and no claim is looked at; if it accepts, the
    claims are read, and they decide. An opaque token is never put to the verifier. As long as the
    request is alive it is put to the authority, once and as it was received, and the answer
    decides, unless the request is over before it comes. -/
theorem extract_bearer_one_way [Wording] (e : Extractor) (A : Authority σ) (token : String)
    (p : Progress σ) :
    (∀ structured, Token.Structured.parse? token = some structured →
      (∀ cause, e.verifier p.inspections structured = .error cause →
        (e.extract A (.bearer token)).runFrom p =
          (.error (.refused cause),
            { p with inspections := p.inspections ++ [.verify structured] })) ∧
      (e.verifier p.inspections structured = .ok () →
        (e.extract A (.bearer token)).runFrom p =
          (((Token.Claims.decode structured.claims e.usernameClaim).map
              Token.Claims.identity).mapError .refused,
            { p with inspections := p.inspections ++
              [.verify structured, .read structured.claims] }))) ∧
    (Token.Structured.parse? token = none →
      (∀ cause, p.scope.hindrance? = some cause →
        (e.extract A (.bearer token)).runFrom p = (.error (.refused cause.refusal), p)) ∧
      (p.scope.hindrance? = none →
        ∃ ending scope,
          p.scope.run (A.token ⟨token⟩ p.authority).1 = (.begun ending, scope) ∧
          ((e.extract A (.bearer token)).runFrom p).2
            = { p with
              scope, authority := (A.token ⟨token⟩ p.authority).2,
              reviews := p.reviews ++ [.token ⟨token⟩ ending.answer?] } ∧
          Decides ending ((e.extract A (.bearer token)).runFrom p).1 ∧
          ∀ answer, (A.token ⟨token⟩ p.authority).1.answer = some answer →
            ending = .answered answer ∨
              ∃ cause, ending = .interrupted cause ∧ scope.hindrance? = some cause)) := by
  refine ⟨fun structured hparse => ?_, fun hparse => ⟨fun cause hcause => ?_, fun hlive => ?_⟩⟩
  · rw [extract_structured e A token structured hparse]
    exact ⟨fun cause hrefused => runFrom_claimed_of_refused hrefused,
      fun haccepted => runFrom_claimed_of_accepted haccepted⟩
  · rw [extract_unstructured e A token hparse, Resolving.runFrom_bind,
      Resolving.runFrom_put_of_hindrance A _ p cause hcause]
  · have hrun := Scope.run_of_alive p.scope (A.token ⟨token⟩ p.authority).1 hlive
    refine ⟨_, _, hrun, ?_, ?_, fun answer hanswer => ?_⟩
    · rw [runFrom_extract_unstructured e A hparse p _ _ hrun]
    · rw [runFrom_extract_unstructured e A hparse p _ _ hrun]
      exact decides_reviewed _
    · rw [hanswer]
      exact Scope.answered_or_over p.scope answer _

/-- A verifier that accepts one token only. A structured token is accepted in a request that is
    cancelled already, and refused when it comes again. An opaque one is denied although the
    authority names someone, and the verifier hears nothing of it. -/
theorem extract_bearer_refused_either_way :
    let _ : Wording := .own
    let e : Extractor := ⟨"sub", fun before _ =>
      if before.isEmpty then .ok () else .error (.tokenRejected "seen before")⟩
    let script : Script := ⟨[],
      [.after (.wait 5) (.instant (.ok ⟨"alice", ["eng", "eng"], some "expired"⟩))]⟩
    let p : Progress Script := ⟨⟨false, true, none, 0⟩, script, [], []⟩
    let live : Progress Script := ⟨⟨false, false, some 60, 0⟩, script, [], []⟩
    let own := e.extract Authority.scripted
      (.bearer "eyJhbGciOiJub25lIn0.eyJzdWIiOiJib2IiLCJncm91cHMiOlsiZW5nIl19.")
    let foreign := e.extract Authority.scripted (.bearer "e30.e30.")
    ∃ token : Token.Structured,
      own.runFrom p = (.ok (.of "bob" ["eng"]),
        { p with inspections := [.verify token, .read token.claims] }) ∧
      own.runFrom { p with inspections := [.verify token] }
        = (.error (.refused (.tokenRejected "seen before")),
          { p with inspections := [.verify token, .verify token] }) ∧
      (foreign.runFrom live).1 = .error (.refused (.tokenReviewDenied "expired")) ∧
      (foreign.runFrom live).2.inspections = [] := by
  intro _ e script p live own foreign
  have hparsed : (Token.Structured.parse?
      "eyJhbGciOiJub25lIn0.eyJzdWIiOiJib2IiLCJncm91cHMiOlsiZW5nIl19.").map
      (fun t => (Token.Claims.decode t.claims "sub").toOption)
      = some (some (.generic "bob" ["eng"])) := by
    decide +kernel
  rcases Option.map_eq_some_iff.mp hparsed with ⟨token, hparse, hclaims⟩
  have hdecoded : Token.Claims.decode token.claims e.usernameClaim
      = .ok (.generic "bob" ["eng"]) := by
    rcases hdecode : Token.Claims.decode token.claims "sub" with cause | claims
    · rw [hdecode] at hclaims
      cases hclaims
    · rw [hdecode] at hclaims
      exact congrArg _ (Option.some.inj hclaims)
  have hone := fun p => (extract_bearer_one_way e Authority.scripted
    "eyJhbGciOiJub25lIn0.eyJzdWIiOiJib2IiLCJncm91cHMiOlsiZW5nIl19." p).1 token hparse
  have hnone : (Token.Structured.parse? "e30.e30.").isNone = true := by decide +kernel
  rcases (extract_bearer_one_way e Authority.scripted "e30.e30." live).2
    (Option.isNone_iff_eq_none.mp hnone) with ⟨-, hreview⟩
  rcases hreview rfl with ⟨ending, scope, hrun, hprogress, hdecides, -⟩
  refine ⟨token, ?_, (hone { p with inspections := [.verify token] }).1 _ rfl, ?_, ?_⟩
  · refine ((hone p).2 rfl).trans ?_
    rw [hdecoded]
    rfl
  · -- The call answers after five of the sixty milliseconds.
    cases hrun
    exact hdecides.denied _ "expired" rfl rfl (by decide)
  · exact congrArg Progress.inspections hprogress

end Resolution

end ForwardAuth
