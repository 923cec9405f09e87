import ForwardAuth.Lifetime
import ForwardAuth.Resolution.Resolver

/-!
# Sessions

Requests are resolved one after another under lifetimes that begin and end. A session keeps what
outlives a single request: which lifetimes are over, and the events that were counted.

## Main definitions

* `Session`: The lifetimes and the events.
* `Session.resolve`: Resolves a request that lives for a lifetime.
-/

namespace ForwardAuth.Resolution

/-- What outlives a single request. -/
structure Session where
  lifetimes : Lifetimes
  /-- The events that were counted, in order. -/
  events : List Metrics.Sample
  deriving Repr

namespace Session

variable [Wording] {σ : Type}

/-- Nothing has happened yet. -/
def empty : Session :=
  ⟨.empty, []⟩

/-- Resolves a request that lives for a lifetime. The resolution is counted, and a cancellation that
    arrived on the way is recorded. -/
def resolve (s : Session) (r : Resolver σ) (request : Request) (life : Lifetime)
    (deadline : Option Nat) (now : Nat) (authority : σ) : Outcome σ × Session :=
  let outcome := r.resolve request (s.lifetimes.scope life deadline now) authority
  let counted := sample? (.ofRequest request) outcome.result
  (outcome,
    { lifetimes := s.lifetimes.record life outcome.progress.scope
      events := s.events ++ counted.toList })

end Session

end ForwardAuth.Resolution
