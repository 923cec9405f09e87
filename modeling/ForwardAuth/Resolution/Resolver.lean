import ForwardAuth.Metrics.Sample
import ForwardAuth.Resolution.Enforcement
import ForwardAuth.Resolution.Extraction

/-!
# Resolving the identity of a request

The credential of a request gives an identity, which must have a name; then the impersonation
headers are read and enforced. The order matters for what a client is told: a request without a
credential or without a name is refused before its impersonation headers are looked at.

Each resolution that comes to an end is counted once, under the method of its credential and the
kind of its result.

## Main definitions

* `Resolver`: How requests are resolved.
* `Resolver.resolving`: The computation for one request.
* `Resolver.resolve`: Its run in a scope, with what is counted.
-/

namespace ForwardAuth.Resolution

/-- How requests are resolved: how credentials are read, and whom to ask. -/
structure Resolver (σ : Type) where
  extractor : Extractor
  authority : Authority σ

/-- The end of a resolution: its result, and the progress made until then. -/
structure Outcome (σ : Type) where
  result : Except Stop Identity
  progress : Progress σ

/-- The sample that counts the end of a resolution. One that never ends is not counted. -/
def sample? (credential : Credential) (result : Except Stop Identity) : Option Metrics.Sample :=
  match result with
  | .ok _ => some (.resolution credential.method "success")
  | .error (.refused cause) => some (.resolution credential.method cause.kind)
  | .error .pending => none

namespace Resolver

variable [Wording] {σ : Type}

/-- The identity that a request is resolved to by its credential and its headers. -/
def resolving (r : Resolver σ) (request : Request) (credential : Credential) :
    Resolving σ Identity := do
  if credential = .anonymous then .refuse .noCredentials
  let caller ← r.extractor.extract r.authority credential
  if caller.username.isEmpty then .refuse .emptyUsername
  let targets ← .ofExcept (Impersonation.Targets.ofHeaders request.headers)
  enforce r.authority caller targets

/-- Resolves a request within a scope. -/
def resolve (r : Resolver σ) (request : Request) (scope : Scope) (authority : σ) : Outcome σ :=
  let (result, progress) :=
    (r.resolving request (.ofRequest request)).run.run ⟨scope, authority, [], []⟩
  ⟨result, progress⟩

end Resolver

end ForwardAuth.Resolution
