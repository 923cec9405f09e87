/-!
# The scope of a request

A request that is cancelled, or whose time has run out, starts no further review, and gives up the
review it is waiting for. The scope of a request says when that is so: the server may be shutting
down, the request itself may be cancelled, and the deadline may have passed.

A review is a call to someone else. While it runs, time passes and cancellations arrive, so a call
is written down as the steps it takes and the answer it ends with, if it ends at all. Waiting is
the only point at which the caller is asked whether it still wants the answer: a call that
cancels the request and answers without waiting again has answered in time, and so has one that
works past the deadline and then answers. A wait that would reach the deadline is cut off there.

## Main definitions

* `Call`: A call, as the steps it takes and the answer it ends with.
* `Interruption`: Why a call is not made, or not waited for.
* `Scope`: The state that decides whether a request is still alive.
* `Scope.hindrance?`: Why no call may be started.
* `Scope.follow`: Waits for a call that was started.
* `Scope.run`: Starts a call if the request is alive, and waits for it.
* `Scope.runAll`: Runs one call after another.
-/

namespace ForwardAuth

/-- Whom a cancellation reaches. -/
inductive Reach where
  /-- One request only. -/
  | request
  /-- The server, and so every request it has or will have. -/
  | server
  deriving DecidableEq, Repr

/-- What happens while a call is under way. -/
inductive Call.Step where
  /-- Someone cancels the request or shuts the server down. -/
  | cancel (reach : Reach)
  /-- The call works for so many milliseconds, without letting anyone else go on. -/
  | work (milliseconds : Nat)
  /-- The call waits for so many milliseconds. -/
  | wait (milliseconds : Nat)
  deriving DecidableEq, Repr

/-- A call: the steps it takes, and the answer after them, or `none` if it never answers. -/
structure Call (α : Type) where
  steps : List Call.Step
  answer : Option α
  deriving DecidableEq, Repr, Inhabited

namespace Call

variable {α β : Type}

/-- A call that answers at once. -/
def instant (a : α) : Call α :=
  ⟨[], some a⟩

/-- A call that never answers. -/
def silent : Call α :=
  ⟨[], none⟩

/-- A call that takes a step before it goes on. -/
def after (step : Step) (c : Call α) : Call α :=
  { c with steps := step :: c.steps }

/-- The same call with another reading of its answer. -/
def map (f : α → β) (c : Call α) : Call β :=
  ⟨c.steps, c.answer.map f⟩

end Call

/-- Why a call is not made, or not waited for. -/
inductive Interruption where
  | cancelled
  | deadlineExceeded
  deriving DecidableEq, Repr

/-- How a call that was started ends for the one who waits for it. -/
inductive Ending (α : Type) where
  | answered (a : α)
  | interrupted (cause : Interruption)
  /-- The call never answers and nothing ends the wait. -/
  | pending
  deriving DecidableEq, Repr

/-- The answer that was received. -/
def Ending.answer? {α : Type} : Ending α → Option α
  | .answered a => some a
  | _ => none

/-- What became of a call: it was not started, or it was and ended. -/
inductive Run (α : Type) where
  | hindered (cause : Interruption)
  | begun (ending : Ending α)
  deriving DecidableEq, Repr

/-- The scope of a request. Times are in milliseconds. -/
structure Scope where
  /-- The server is shutting down. -/
  shutdown : Bool
  /-- This request was cancelled. -/
  cancelled : Bool
  /-- The time at which the request gives up. -/
  deadline : Option Nat
  /-- The time now. -/
  now : Nat
  deriving DecidableEq, Repr

namespace Scope

variable {α : Type}

/-- The scope of a request that nothing has ended and nothing bounds. -/
def unbounded : Scope :=
  ⟨false, false, none, 0⟩

/-- The request is cancelled, by itself or with its server. -/
def isCancelled (s : Scope) : Bool :=
  s.shutdown || s.cancelled

/-- The deadline lies at or before the given time. -/
def isDue (s : Scope) (time : Nat) : Bool :=
  s.deadline.any (· ≤ time)

/-- Why no call may be started now. Cancellation comes before the deadline. -/
def hindrance? (s : Scope) : Option Interruption :=
  if s.isCancelled then some .cancelled
  else if s.isDue s.now then some .deadlineExceeded
  else none

/-- The scope once a cancellation has arrived. -/
def cancel (s : Scope) : Reach → Scope
  | .request => { s with cancelled := true }
  | .server => { s with shutdown := true }

/-- The scope once the deadline has been reached. -/
def atDeadline (s : Scope) : Scope :=
  { s with now := s.deadline.elim s.now (max s.now) }

/-- Waits for a call: through its steps, then for its answer. A wait is given up when the request
    is cancelled, and cut off when it would reach the deadline. One that would end exactly at the
    deadline is cut off as well: it is assumed of whoever measures the time that what comes at the
    deadline comes too late. -/
def follow (s : Scope) (answer : Option α) : List Call.Step → Ending α × Scope
  | [] =>
    match answer with
    | some a => (.answered a, s)
    | none =>
      if s.isCancelled then (.interrupted .cancelled, s)
      else if s.deadline.isSome then (.interrupted .deadlineExceeded, s.atDeadline)
      else (.pending, s)
  | .cancel reach :: steps => (s.cancel reach).follow answer steps
  | .work duration :: steps => { s with now := s.now + duration }.follow answer steps
  | .wait duration :: steps =>
    if s.isCancelled then (.interrupted .cancelled, s)
    else if s.isDue (s.now + duration) then (.interrupted .deadlineExceeded, s.atDeadline)
    else { s with now := s.now + duration }.follow answer steps

/-- Starts a call if nothing hinders it, and waits for it. -/
def run (s : Scope) (c : Call α) : Run α × Scope :=
  match s.hindrance? with
  | some cause => (.hindered cause, s)
  | none =>
    let (ending, s) := s.follow c.answer c.steps
    (.begun ending, s)

/-- Runs calls one after another. A call that is waited for without end is the last. -/
def runAll (s : Scope) : List (Call α) → List (Run α × Scope)
  | [] => []
  | c :: cs =>
    let (run, s) := s.run c
    match run with
    | .begun .pending => [(run, s)]
    | _ => (run, s) :: s.runAll cs

end Scope

end ForwardAuth
