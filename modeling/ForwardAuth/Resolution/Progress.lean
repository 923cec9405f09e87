import ForwardAuth.Authority.Basic
import ForwardAuth.Refusal
import ForwardAuth.Token.Structured

/-!
# The progress of a resolution

Finding the identity of a request takes reviews, and every review goes through the scope of the
request. A resolution is a computation that carries the scope, what the authority remembers and the
list of reviews begun so far, and that stops at the first refusal.

A review that is hindered is not begun: it changes nothing and is not listed. A review that is
begun is listed, with its answer if one is received.

Structured tokens are looked into without a review. What is done with them is listed as well, in the
order in which it is done: the verifier is asked about a token, or the claims of a token are looked
at.

## Main definitions

* `Inspection`: Something that is done with a structured token.
* `Progress`: What a resolution carries along.
* `Stop`: Why a resolution ends without an identity.
* `Resolving`: A computation that is part of a resolution.
* `Resolving.reviewAccess`, `Resolving.reviewToken`: The two questions, asked within the scope.
* `Resolving.inspect`: Something is done with a structured token.
-/

namespace ForwardAuth

/-- The refusal of a request whose review was not started or not waited for. -/
def Interruption.refusal : Interruption → Refusal
  | cancelled => .cancelled
  | deadlineExceeded => .deadlineExceeded

namespace Resolution

/-- Something that is done with a structured token. -/
inductive Inspection where
  /-- The verifier is asked about the token. -/
  | verify (token : Token.Structured)
  /-- The claims of a token are looked at. -/
  | read (claims : Json.Members)

/-- What a resolution carries along. -/
structure Progress (σ : Type) where
  scope : Scope
  /-- What the authority remembers. -/
  authority : σ
  /-- The reviews that were begun, in order. -/
  reviews : List Review.Entry
  /-- What was done with structured tokens, in order. -/
  inspections : List Inspection

/-- Why a resolution ends without an identity. -/
inductive Stop where
  | refused (cause : Refusal)
  /-- A review never answers, and nothing ends the wait for it. -/
  | pending
  deriving DecidableEq, Repr

/-- A computation that is part of a resolution. -/
abbrev Resolving (σ α : Type) := ExceptT Stop (StateM (Progress σ)) α

namespace Resolving

variable {σ α : Type}

/-- Ends the resolution with a refusal. -/
def refuse (cause : Refusal) : Resolving σ α :=
  throw (.refused cause)

/-- Goes on with the result of a step that asks nobody. -/
def ofExcept (result : Except Refusal α) : Resolving σ α :=
  match result with
  | .ok a => pure a
  | .error cause => refuse cause

/-- Asks the authority within the scope of the request. -/
def ask (question : σ → Call α × σ) (entry : Option α → Review.Entry) : Resolving σ α :=
  fun p =>
    let (call, authority) := question p.authority
    match p.scope.run call with
    | (.hindered cause, _) => (.error (.refused cause.refusal), p)
    | (.begun ending, scope) =>
      let p := { p with scope, authority, reviews := p.reviews ++ [entry ending.answer?] }
      match ending with
      | .answered a => (.ok a, p)
      | .interrupted cause => (.error (.refused cause.refusal), p)
      | .pending => (.error .pending, p)

/-- Asks whether an access is allowed. -/
def reviewAccess (authority : Authority σ) (query : Review.AccessQuery) :
    Resolving σ (Except Review.Error Bool) :=
  ask (authority.access query) (.access query)

/-- Asks whom a token belongs to. -/
def reviewToken (authority : Authority σ) (query : Review.TokenQuery) :
    Resolving σ (Except Review.Error Review.TokenVerdict) :=
  ask (authority.token query) (.token query)

/-- Does something with a structured token. What comes of it may depend on what was done before. -/
def inspect (inspection : Inspection) (result : List Inspection → Except Refusal α) :
    Resolving σ α :=
  fun p =>
    ((result p.inspections).mapError .refused,
      { p with inspections := p.inspections ++ [inspection] })

end Resolving

end Resolution

end ForwardAuth
