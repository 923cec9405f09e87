import ForwardAuth.Scope

/-!
# Lifetimes

A server lives until it is shut down, and a request until it is cancelled or its server is shut
down. Each has a lifetime, and the lifetime of a request is part of the lifetime of the server. Once
a lifetime is over it stays over, and with it every lifetime that is part of it, also one that
begins later.

The registry of lifetimes only ever grows: it counts those that have begun and lists those that were
ended.

## Main definitions

* `Lifetime`: A lifetime, by its number and the one it is part of.
* `Lifetimes`: Which lifetimes have begun and which were ended.
* `Lifetimes.isOver`: A lifetime, or the one it is part of, was ended.
* `Lifetimes.scope`: The scope of a request that lives for a lifetime.
* `Lifetimes.record`: What the scope of a request says about its lifetime afterwards.
-/

namespace ForwardAuth

/-- A lifetime, by its number, and the number of the lifetime it is part of. -/
structure Lifetime where
  number : Nat
  outer : Option Nat
  deriving DecidableEq, Repr

/-- The registry of lifetimes. -/
structure Lifetimes where
  /-- So many lifetimes have begun. They are numbered from zero. -/
  begun : Nat
  /-- The numbers of the lifetimes that were ended themselves. -/
  ended : List Nat
  deriving DecidableEq, Repr

namespace Lifetimes

/-- No lifetime has begun. -/
def empty : Lifetimes :=
  ⟨0, []⟩

/-- A lifetime of its own begins. -/
def start (ls : Lifetimes) : Lifetime × Lifetimes :=
  (⟨ls.begun, none⟩, { ls with begun := ls.begun + 1 })

/-- A lifetime begins that is part of another. -/
def startWithin (ls : Lifetimes) (outer : Lifetime) : Lifetime × Lifetimes :=
  (⟨ls.begun, some outer.number⟩, { ls with begun := ls.begun + 1 })

/-- The lifetime with a number is ended. -/
def endNumber (ls : Lifetimes) (number : Nat) : Lifetimes :=
  { ls with ended := number :: ls.ended }

/-- A lifetime is ended, and with it those that are part of it. -/
def finish (ls : Lifetimes) (l : Lifetime) : Lifetimes :=
  ls.endNumber l.number

/-- The lifetime was ended itself. -/
def isEnded (ls : Lifetimes) (l : Lifetime) : Bool :=
  ls.ended.contains l.number

/-- The lifetime that this one is part of was ended. -/
def isOuterEnded (ls : Lifetimes) (l : Lifetime) : Bool :=
  l.outer.any ls.ended.contains

/-- The lifetime is over: it was ended, or the one it is part of was. -/
def isOver (ls : Lifetimes) (l : Lifetime) : Bool :=
  ls.isOuterEnded l || ls.isEnded l

/-- The scope of a request that lives for a lifetime and gives up at the deadline. -/
def scope (ls : Lifetimes) (l : Lifetime) (deadline : Option Nat) (now : Nat) : Scope :=
  ⟨ls.isOuterEnded l, ls.isEnded l, deadline, now⟩

/-- The registry after a request has run: a cancellation that reached its scope ends its lifetime,
    and a shutdown the lifetime that this is part of. -/
def record (ls : Lifetimes) (l : Lifetime) (s : Scope) : Lifetimes :=
  let ls := if s.cancelled then ls.finish l else ls
  match l.outer with
  | some number => if s.shutdown then ls.endNumber number else ls
  | none => ls

end Lifetimes

end ForwardAuth
