/-!
# Requests in flight

How many requests are being served is shown by a gauge. A counter, shared by all requests, goes up
by one when a request begins and down by one when it ends. After each change the request sets the
gauge to the number that its own change has given. The change and the setting are two steps, and
steps of other requests may fall between them.

## Main definitions

* `InFlight`: The counter, the gauge, and the numbers that are still to be shown.
* `InFlight.Step`, `InFlight.step`: The four steps of a request.
* `InFlight.run`: The state after steps of any requests.
-/

namespace ForwardAuth.Metrics

/-- The state of the gauge. -/
structure InFlight where
  /-- The requests that have begun and not ended. -/
  counter : Int
  /-- What the gauge shows. -/
  gauge : Int
  /-- For each request between a change and its setting, the number that it is going to show. -/
  held : List (Nat × Int)
  deriving DecidableEq, Repr

namespace InFlight

/-- Nothing is in flight. -/
def idle : InFlight :=
  ⟨0, 0, []⟩

/-- A step of a request. -/
inductive Step where
  /-- The request begins, and the counter goes up. -/
  | begin
  /-- The request ends, and the counter goes down. -/
  | finish
  /-- The gauge is set to the number that the last change of this request has given. -/
  | show
  deriving DecidableEq, Repr

/-- The counter is changed, and the request holds the number that this gives. -/
def change (s : InFlight) (request : Nat) (amount : Int) : InFlight :=
  { s with
    counter := s.counter + amount
    held := (request, s.counter + amount) :: s.held.filter fun h => h.1 ≠ request }

/-- The state after a step of a request. -/
def step (s : InFlight) (request : Nat) : Step → InFlight
  | .begin => s.change request 1
  | .finish => s.change request (-1)
  | .show =>
    match s.held.lookup request with
    | none => s
    | some n => { s with gauge := n, held := s.held.filter fun h => h.1 ≠ request }

/-- The state after steps of any requests, each step with the number of its request. -/
def run (s : InFlight) (steps : List (Nat × Step)) : InFlight :=
  steps.foldl (fun s (request, step) => s.step request step) s

/-- A request has begun. -/
def enter (s : InFlight) (request : Nat) : InFlight :=
  s.run [(request, .begin), (request, .show)]

/-- A request has ended. -/
def leave (s : InFlight) (request : Nat) : InFlight :=
  s.run [(request, .finish), (request, .show)]

end InFlight

end ForwardAuth.Metrics
