import ForwardAuth.Metrics.Exposition
import ForwardAuth.Metrics.InFlight
import ForwardAuth.Resolution.Session
import ForwardAuth.Server.Basic
import ForwardAuth.Server.Response

/-!
# Serving requests

Every request but one is a question about itself: it is resolved, and answered with its identity or
with a refusal. Only `GET /metrics` is not resolved and shows what was counted so far.

A request lives for a lifetime of its own, within that of the server, and has to be resolved before
the time for it runs out. It is in flight while it is served, and counted once it is answered.

## Main definitions

* `Activity`: What changes while requests are served.
* `Context.metered`: How requests are resolved, with what the reviews count.
* `Context.resolveWithin`, `Context.resolve`: Resolves a request in a lifetime, and in one of its
  own.
* `Context.respond`: The response to a request.
* `serve`: Serves a request: in flight, answered, counted.
-/

namespace ForwardAuth.Server

open Resolution (Session Outcome Resolver Stop)

/-- What changes while requests are served. -/
structure Activity (σ : Type) where
  session : Session
  inFlight : Metrics.InFlight
  /-- What the network remembers. -/
  network : σ

variable [Wording] {σ : Type}

/-- How requests are resolved with a context. -/
def Context.resolver (c : Context) (network : Review.Network σ) : Resolver σ :=
  ⟨c.extractor, c.client.authority network⟩

/-- The same, with what each review counts at its end. -/
def Context.metered (c : Context) (network : Review.Network σ) :
    Resolver (σ × List (List Metrics.Sample)) :=
  ⟨c.extractor, c.client.metered network⟩

/-- Resolves a request that lives for a lifetime and gives up at a deadline, and counts what its
    reviews count. -/
def Context.resolveWithin (c : Context) (network : Review.Network σ) (session : Session)
    (life : Lifetime) (deadline now : Nat) (request : Request) (memory : σ) :
    Outcome (σ × List (List Metrics.Sample)) × Session :=
  let (outcome, session) :=
    session.resolve (c.metered network) request life (some deadline) now (memory, [])
  let ends := outcome.progress.authority.2
  (outcome, { session with
    events := session.events ++ Review.samples ends outcome.progress.reviews })

/-- Resolves a request that arrives at a time, in a lifetime of its own. -/
def Context.resolve (c : Context) (network : Review.Network σ) (now : Nat) (request : Request)
    (a : Activity σ) : Except Stop Identity × Activity σ :=
  let (life, lifetimes) := a.session.lifetimes.startWithin c.shutdown
  let (outcome, session) := c.resolveWithin network { a.session with lifetimes } life
    (now + c.resolveTimeout) now request a.network
  (outcome.result, { a with session, network := outcome.progress.authority.1 })

/-- The request asks for the metrics. -/
def isMetricsRequest (r : Request) : Bool :=
  r.method == "GET" && r.path == "/metrics"

/-- The response to the end of a resolution. One that waits without end has none. -/
def responseTo : Except Stop Identity → Option Response
  | .ok i => some (.ofResult (.ok i))
  | .error (.refused cause) => some (.ofResult (.error cause))
  | .error .pending => none

/-- The response to a request that arrives at a time. -/
def Context.respond (c : Context) (network : Review.Network σ) (now : Nat) (request : Request)
    (a : Activity σ) : Option Response × Activity σ :=
  if isMetricsRequest request then
    (some (.metrics (Metrics.exposition a.session.events a.inFlight.gauge)), a)
  else
    let (result, a) := c.resolve network now request a
    (responseTo result, a)

/-- The events of a request that was answered. -/
def answered : List Metrics.Sample :=
  [.request, .requestDuration]

/-- Serves a request that arrives at a time. While it is in flight it goes by the number of the
    lifetime that comes next. A request that is never answered stays in flight. -/
def Context.serve (c : Context) (network : Review.Network σ) (now : Nat) (request : Request)
    (a : Activity σ) : Option Response × Activity σ :=
  let number := a.session.lifetimes.begun
  let (response, a) := c.respond network now request
    { a with inFlight := a.inFlight.enter number }
  match response with
  | none => (none, a)
  | some response =>
    (some response,
      { a with
        session := { a.session with events := a.session.events ++ answered }
        inFlight := a.inFlight.leave number })

/-- Serves a request under the configuration that the server has now. -/
def serve (s : Server) (network : Review.Network σ) (now : Nat) (request : Request)
    (a : Activity σ) : Option Response × Activity σ :=
  s.context.serve network now request a

end ForwardAuth.Server
