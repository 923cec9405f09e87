import ForwardAuth.Certificate.Identity
import ForwardAuth.Credential
import ForwardAuth.Resolution.Progress
import ForwardAuth.Token.Claims
import ForwardAuth.Token.Structured

/-!
# From a credential to an identity

A certificate speaks for itself. So does a structured token, once the verifier accepts it: its
claims are read here, and the authority is never asked about it. Only an opaque token is put to the
authority, exactly as it was received. A structured token that is refused stays refused; it is not
tried as an opaque one.

## Main definitions

* `Verifier`: The check of a structured token before its claims are believed.
* `Extractor`: How credentials are read.
* `Extractor.verify`, `Extractor.readClaims`: What is done with a structured token.
* `Extractor.extract`: The identity that a credential gives.
-/

namespace ForwardAuth.Resolution

/-- The check of a structured token before its claims are believed. It remembers what was done with
    tokens before. -/
abbrev Verifier := List Inspection → Token.Structured → Except Refusal Unit

/-- The check that accepts every structured token, for a place where someone else has checked. -/
def Verifier.trusting : Verifier := fun _ _ => pure ()

/-- How credentials are read. -/
structure Extractor where
  /-- The claim that names the user. -/
  usernameClaim : String
  verifier : Verifier

namespace Extractor

variable {σ : Type}

/-- Asks the verifier about a structured token. -/
def verify (e : Extractor) (token : Token.Structured) : Resolving σ Unit :=
  .inspect (.verify token) fun before => e.verifier before token

/-- Reads the claims of a structured token. -/
def readClaims (e : Extractor) (token : Token.Structured) : Resolving σ Token.Claims :=
  .inspect (.read token.claims) fun _ => Token.Claims.decode token.claims e.usernameClaim

/-- The identity that a structured token gives. -/
def claimed (e : Extractor) (token : Token.Structured) : Resolving σ Identity := do
  e.verify token
  let claims ← e.readClaims token
  return claims.identity

/-- The identity that the answer to a token review gives. -/
def reviewed (answer : Except Review.Error Review.TokenVerdict) : Except Refusal Identity :=
  match answer with
  | .error error => throw (.tokenReviewFailed error.message)
  | .ok verdict =>
    match verdict.statusError.filter fun reason => !reason.isEmpty with
    | some reason => throw (.tokenReviewDenied reason)
    | none => pure (.of verdict.username verdict.groups)

/-- The identity that a bearer token gives. -/
def bearer (e : Extractor) (authority : Authority σ) (token : String) : Resolving σ Identity :=
  match Token.Structured.parse? token with
  | some structured => e.claimed structured
  | none => do
    let answer ← Resolving.reviewToken authority ⟨token⟩
    .ofExcept (reviewed answer)

/-- The identity that a credential gives. It may have an empty user name. -/
def extract [Wording] (e : Extractor) (authority : Authority σ) : Credential → Resolving σ Identity
  | .certificate [] => .refuse .missingPeerCertificate
  | .certificate (leaf :: _) => .ofExcept (Certificate.identity leaf)
  | .bearer token => e.bearer authority token
  | .anonymous => .refuse .noCredentials

end Extractor

end ForwardAuth.Resolution
