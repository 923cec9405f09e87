import ForwardAuth.Proofs.Enforcement
import ForwardAuth.Resolution.Resolver

/-!
# The stages of a resolution

A resolution first finds out who the caller is, and then who the caller may act as. The two stages
meet in one value, the identity of the caller, and the second stage looks at nothing else that the
first has found. `Resolver.acting` is the second stage, and `resolving_eq` says that a resolution is
the first stage followed by it. An anonymous request is refused before the first stage, but the
first stage would refuse it in the same way, so it needs no case of its own.

What later statements need of each stage is collected here: the questions it asks, that it is one
dialogue with any authority, and what a successful run has gone through. A structured token is the
one thing that the first stage looks into; what is done with it, and in which order, can be read off
the progress of the run.

## Main definitions

* `Review.Question.IsToken`: The question is about a token.
* `Resolver.acting`: The stage of a resolution that follows once the caller is known.

## Theorems

* `resolving_eq`: A resolution is its two stages.
* `runFrom_claimed_of_refused`: A token that the verifier refuses is looked into no further.
* `runFrom_claimed_of_accepted`: The claims of a token that the verifier accepts are read once.
* `extract_eq_ok`: Where the identity of a credential comes from.
* `uniform_resolving`: A resolution is one dialogue with any authority.
* `asksOnly_extract`: The first stage asks about tokens only.
* `asksOnly_acting`: The second stage asks about accesses of the caller only.
* `resolve_eq_ok`: What a successful resolution has gone through.
-/

namespace ForwardAuth

/-- The question is about a token. -/
def Review.Question.IsToken : Review.Question → Prop
  | .access _ => False
  | .token _ => True

namespace Resolution

variable {σ : Type}

namespace Resolver

/-- The stage of a resolution that follows once the caller is known. -/
def acting (r : Resolver σ) (request : Request) (caller : Identity) : Resolving σ Identity :=
  if caller.username.isEmpty then .refuse .emptyUsername
  else
    Resolving.ofExcept (Impersonation.Targets.ofHeaders request.headers) >>=
      enforce r.authority caller

end Resolver

section Stages

variable [Wording]

/-- A resolution finds the caller, and then the identity that the caller acts as. -/
theorem resolving_eq (r : Resolver σ) (request : Request) (credential : Credential) :
    r.resolving request credential
      = r.extractor.extract r.authority credential >>= r.acting request := by
  unfold Resolver.resolving
  by_cases hanonymous : credential = .anonymous
  · -- The first stage refuses an anonymous request for the same cause.
    rw [if_pos hanonymous, hanonymous]
    rfl
  · rw [if_neg hanonymous]
    refine congrArg (r.extractor.extract r.authority credential >>= ·) (funext fun caller => ?_)
    unfold Resolver.acting
    by_cases hempty : caller.username.isEmpty = true
    · rw [if_pos hempty, if_pos hempty]
      rfl
    · rw [if_neg hempty, if_neg hempty]

theorem extract_unstructured (e : Extractor) (A : Authority σ) (token : String)
    (h : Token.Structured.parse? token = none) :
    e.extract A (.bearer token) =
      Resolving.put A (.token ⟨token⟩) >>= fun answer => .ofExcept (Extractor.reviewed answer) := by
  rw [Extractor.extract, Extractor.bearer, h]
  rfl

theorem extract_structured (e : Extractor) (A : Authority σ) (token : String)
    (structured : Token.Structured) (h : Token.Structured.parse? token = some structured) :
    e.extract A (.bearer token) = e.claimed structured := by
  rw [Extractor.extract, Extractor.bearer, h]

end Stages

/-- The verifier is asked about a structured token, and if it refuses, that is all. -/
theorem runFrom_claimed_of_refused {e : Extractor} {structured : Token.Structured} {p : Progress σ}
    {cause : Refusal} (h : e.verifier p.inspections structured = .error cause) :
    (e.claimed structured).runFrom p =
      (.error (.refused cause),
        { p with inspections := p.inspections ++ [.verify structured] }) := by
  unfold Extractor.claimed Extractor.verify
  rw [Resolving.runFrom_bind, Resolving.runFrom_inspect, h]
  rfl

/-- The verifier is asked about a structured token, and if it accepts, the claims are read. -/
theorem runFrom_claimed_of_accepted {e : Extractor} {structured : Token.Structured}
    {p : Progress σ} (h : e.verifier p.inspections structured = .ok ()) :
    (e.claimed structured).runFrom p =
      (((Token.Claims.decode structured.claims e.usernameClaim).map
          Token.Claims.identity).mapError .refused,
        { p with inspections := p.inspections ++
          [.verify structured, .read structured.claims] }) := by
  unfold Extractor.claimed Extractor.verify Extractor.readClaims
  rw [Resolving.runFrom_bind, Resolving.runFrom_inspect, h]
  change (Resolving.inspect _ _ >>= _).runFrom _ = _
  rw [Resolving.runFrom_bind, Resolving.runFrom_inspect]
  rw [List.append_assoc]
  rcases Token.Claims.decode structured.claims e.usernameClaim with cause | claims
  · rfl
  · rfl

/-- The identity of a structured token comes from its claims, once the verifier accepts it. -/
theorem claimed_eq_ok {e : Extractor} {structured : Token.Structured} {caller : Identity}
    {p p' : Progress σ} (h : (e.claimed structured).runFrom p = (.ok caller, p')) :
    e.verifier p.inspections structured = .ok () ∧
      (∃ claims, Token.Claims.decode structured.claims e.usernameClaim = .ok claims ∧
        claims.identity = caller) ∧
      p' = { p with inspections := p.inspections ++
        [.verify structured, .read structured.claims] } := by
  rcases hverified : e.verifier p.inspections structured with cause | ⟨⟩
  · rw [runFrom_claimed_of_refused hverified] at h
    exact absurd (congrArg Prod.fst h) (by simp only [reduceCtorEq, not_false_eq_true])
  · rw [runFrom_claimed_of_accepted hverified] at h
    injection h with hresult hp
    rcases hdecoded : Token.Claims.decode structured.claims e.usernameClaim with cause | claims
    · rw [hdecoded] at hresult
      cases hresult
    · rw [hdecoded] at hresult
      exact ⟨rfl, ⟨claims, rfl, Except.ok.inj hresult⟩, hp.symm⟩

/-- What is done with a structured token takes no questions. -/
theorem uniform_claimed (e : Extractor) (structured : Token.Structured) :
    Uniform fun _ _ => e.claimed structured :=
  uniform_bind (uniform_inspect _ _) fun _ =>
    uniform_bind (uniform_inspect _ _) fun claims => uniform_ofExcept (.ok claims.identity)

theorem asksOnly_claimed (P : Review.Question → Prop) (e : Extractor)
    (structured : Token.Structured) : AsksOnly P (e.claimed structured : Resolving σ Identity) :=
  asksOnly_bind (asksOnly_inspect _ _ _) fun _ =>
    asksOnly_bind (asksOnly_inspect _ _ _) fun claims => asksOnly_ofExcept _ (.ok claims.identity)

/-- The identity of a reviewed token comes from a verdict that holds nothing against it. -/
theorem reviewed_eq_ok {answer : Except Review.Error Review.TokenVerdict} {caller : Identity}
    (h : Extractor.reviewed answer = .ok caller) :
    ∃ verdict, answer = .ok verdict ∧
      (verdict.statusError.filter fun reason => !reason.isEmpty) = none ∧
      caller = .of verdict.username verdict.groups := by
  rcases answer with e | verdict
  · exact absurd h (by simp only [Extractor.reviewed, throw, throwThe, MonadExceptOf.throw,
      reduceCtorEq, not_false_eq_true])
  · rw [Extractor.reviewed] at h
    rcases hreason : verdict.statusError.filter fun reason => !reason.isEmpty with _ | reason
    · rw [hreason] at h
      exact ⟨verdict, rfl, hreason, (Except.ok.inj h).symm⟩
    · rw [hreason] at h
      exact absurd h (by simp only [throw, throwThe, MonadExceptOf.throw, reduceCtorEq,
        not_false_eq_true])

theorem asksOnly_enforce (A : Authority σ) (caller : Identity) (t : Impersonation.Targets) :
    AsksOnly (fun q => ∃ target, q = .access (planQuery caller target)) (enforce A caller t) := by
  rw [enforce_eq_plan]
  refine asksOnly_bind ?_ fun _ => asksOnly_ofExcept _ (.ok _)
  refine asksOnly_forM (plan t) fun target => ?_
  rw [authorize_eq_put]
  exact asksOnly_bind (asksOnly_put _ A _ ⟨target, rfl⟩) fun answer => asksOnly_ofExcept _ _

/-- The second stage asks about accesses of the caller only, and only if it has a name. -/
theorem asksOnly_acting (r : Resolver σ) (request : Request) (caller : Identity) :
    AsksOnly (fun q => caller.username ≠ "" ∧ ∃ target, q = .access (planQuery caller target))
      (r.acting request caller) := by
  unfold Resolver.acting
  by_cases hempty : caller.username.isEmpty = true
  · rw [if_pos hempty]
    exact asksOnly_ofExcept _ (.error .emptyUsername)
  · rw [if_neg hempty]
    have hname : caller.username ≠ "" := fun h => hempty (by rw [h]; rfl)
    -- Reading the headers asks nobody; the questions are those of enforcement.
    refine asksOnly_bind (asksOnly_ofExcept _ _) fun targets => ?_
    exact asksOnly_mono (fun q hq => ⟨hname, hq⟩) (asksOnly_enforce r.authority caller targets)

section Stages

variable [Wording]

/-- Where the identity of a credential comes from: a certificate, the claims of a structured token,
    or the answer to a review. Only the last of them takes a question. -/
theorem extract_eq_ok (e : Extractor) (A : Authority σ) (credential : Credential)
    (p p' : Progress σ) (caller : Identity)
    (h : (e.extract A credential).runFrom p = (.ok caller, p')) :
    (∃ leaf issuers, credential = .certificate (leaf :: issuers) ∧
      Certificate.identity leaf = .ok caller ∧ p' = p) ∨
    (∃ token structured, credential = .bearer token ∧
      Token.Structured.parse? token = some structured ∧
      (e.claimed structured).runFrom p = (.ok caller, p')) ∨
    ∃ token answer, credential = .bearer token ∧ Token.Structured.parse? token = none ∧
      (Resolving.put A (.token ⟨token⟩)).runFrom p = (.ok answer, p') ∧
      Extractor.reviewed answer = .ok caller := by
  cases credential with
  | certificate chain =>
      cases chain with
      | nil =>
          exact absurd h (Resolving.runFrom_refuse_ne_ok .missingPeerCertificate caller p p')
      | cons leaf issuers =>
          rcases Resolving.runFrom_ofExcept_eq_ok _ _ _ _ h with ⟨hidentity, hp⟩
          exact Or.inl ⟨leaf, issuers, rfl, hidentity, hp⟩
  | bearer token =>
      rcases hparse : Token.Structured.parse? token with _ | structured
      · rw [extract_unstructured e A token hparse] at h
        rcases Resolving.runFrom_bind_eq_ok _ _ _ _ _ h with ⟨answer, p'', hput, hread⟩
        rcases Resolving.runFrom_ofExcept_eq_ok _ _ _ _ hread with ⟨hreviewed, rfl⟩
        exact Or.inr (Or.inr ⟨token, answer, rfl, hparse, hput, hreviewed⟩)
      · rw [extract_structured e A token structured hparse] at h
        exact Or.inr (Or.inl ⟨token, structured, rfl, hparse, h⟩)
  | anonymous => exact absurd h (Resolving.runFrom_refuse_ne_ok .noCredentials caller p p')

theorem uniform_extract (e : Extractor) (credential : Credential) :
    Uniform fun _ A => e.extract A credential := by
  cases credential with
  | certificate chain =>
      cases chain with
      | nil => exact uniform_ofExcept (.error .missingPeerCertificate)
      | cons leaf issuers => exact uniform_ofExcept (Certificate.identity leaf)
  | bearer token =>
      rcases hparse : Token.Structured.parse? token with _ | structured
      · simp only [extract_unstructured e _ token hparse]
        exact uniform_bind (uniform_put _) fun answer => uniform_ofExcept _
      · simp only [extract_structured e _ token structured hparse]
        exact uniform_claimed e structured
  | anonymous => exact uniform_ofExcept (.error .noCredentials)

/-- A resolution is one dialogue with any authority. -/
theorem uniform_resolving (e : Extractor) (request : Request) (credential : Credential) :
    Uniform fun _ A => (Resolver.mk e A).resolving request credential := by
  simp only [resolving_eq]
  refine uniform_bind (uniform_extract e credential) fun caller => ?_
  unfold Resolver.acting
  by_cases hempty : caller.username.isEmpty = true
  · simp only [if_pos hempty]
    exact uniform_ofExcept (.error .emptyUsername)
  · simp only [if_neg hempty]
    exact uniform_bind (uniform_ofExcept _) fun targets => uniform_enforce caller targets

theorem asksOnly_extract (e : Extractor) (A : Authority σ) (credential : Credential) :
    AsksOnly Review.Question.IsToken (e.extract A credential) := by
  cases credential with
  | certificate chain =>
      cases chain with
      | nil => exact asksOnly_ofExcept _ (.error .missingPeerCertificate)
      | cons leaf issuers => exact asksOnly_ofExcept _ (Certificate.identity leaf)
  | bearer token =>
      rcases hparse : Token.Structured.parse? token with _ | structured
      · rw [extract_unstructured e A token hparse]
        exact asksOnly_bind (asksOnly_put _ A _ trivial) fun answer => asksOnly_ofExcept _ _
      · rw [extract_structured e A token structured hparse]
        exact asksOnly_claimed _ e structured
  | anonymous => exact asksOnly_ofExcept _ (.error .noCredentials)

/-- What a successful resolution has gone through: a caller with a name was found, its targets were
    read, and enforcement gave the identity. -/
theorem resolve_eq_ok (r : Resolver σ) (request : Request) (scope : Scope) (memory : σ)
    (i : Identity) (h : (r.resolve request scope memory).result = .ok i) :
    ∃ caller p targets,
      (r.extractor.extract r.authority (.ofRequest request)).runFrom ⟨scope, memory, [], []⟩
        = (.ok caller, p) ∧
      caller.username ≠ "" ∧
      Impersonation.Targets.ofHeaders request.headers = .ok targets ∧
      (enforce r.authority caller targets).runFrom p
        = (.ok i, (r.resolve request scope memory).progress) := by
  have hrun : (r.resolving request (.ofRequest request)).runFrom ⟨scope, memory, [], []⟩
      = (.ok i, (r.resolve request scope memory).progress) := by
    rw [← h]
    rfl
  rw [resolving_eq] at hrun
  rcases Resolving.runFrom_bind_eq_ok _ _ _ _ _ hrun with ⟨caller, p, hextract, hacting⟩
  unfold Resolver.acting at hacting
  by_cases hempty : caller.username.isEmpty = true
  · rw [if_pos hempty] at hacting
    exact absurd hacting (Resolving.runFrom_refuse_ne_ok .emptyUsername i p _)
  · rw [if_neg hempty] at hacting
    rcases Resolving.runFrom_bind_eq_ok _ _ _ _ _ hacting with ⟨targets, p', htargets, henforce⟩
    rcases Resolving.runFrom_ofExcept_eq_ok _ _ _ _ htargets with ⟨hread, rfl⟩
    refine ⟨caller, p', targets, hextract, fun hname => hempty ?_, hread, henforce⟩
    rw [hname]
    rfl

end Stages

end Resolution

end ForwardAuth
