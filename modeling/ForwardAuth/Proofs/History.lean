import ForwardAuth.Proofs.Cancellation
import ForwardAuth.Proofs.Delivery
import ForwardAuth.Proofs.Reloading

/-!
# Histories of a server

Between its start and its end a server is told configurations, takes requests, resolves them and has
some of them cancelled, in any order. A request keeps the context it arrived under, so requests of
old configurations go on beside those of new ones, and one may even arrive under a context that was
replaced before. `State.step` is one of these events, and nothing is asked of the order they come
in.

Nothing tells a request of the others but the lifetimes: which of them have begun, and which were
ended. So what matters about an event is the lifetimes that it ends, which is `ends`, and how new
ones are given out. `Sound` says the latter: every context hands on the lifetime of the server,
every request has a number to itself, and only what has begun was ended. A context that came with a
lifetime of its own, or a request that lived for that of the server, would break it.

## Main definitions

* `Event`, `State.step`: What happens to a server, and what comes of it.
* `State.Step`: The cases of a step.
* `State.ends`: The lifetimes that an event ends.
* `State.Sound`: How lifetimes are given out.

## Theorems

* `isEnded_record`: The lifetimes that are ended once a request has run.
* `resolve_eq`: What becomes of a request that is resolved.
* `step_spec`: Every event is one of the cases of a step.
* `isEnded_of_step`: An event ends certain lifetimes, and no others.
* `sound_of_step`, `sound_after`: Lifetimes are given out soundly.
* `isDown_of_step`, `isDown_after`: When a server is shut down, and that it stays so.
-/

namespace ForwardAuth

theorem Lifetimes.isEnded_endNumber (ls : Lifetimes) (number : Nat) (l : Lifetime) :
    (ls.endNumber number).isEnded l = (l.number == number || ls.isEnded l) :=
  List.contains_cons

/-- The lifetimes that are ended once a request has run. -/
theorem Lifetimes.isEnded_record (ls : Lifetimes) (l : Lifetime) (scope : Scope) (m : Lifetime) :
    (ls.record l scope).isEnded m
      = ((scope.shutdown && l.outer == some m.number) || (scope.cancelled && m.number == l.number)
        || ls.isEnded m) := by
  have hfirst : (if scope.cancelled then ls.finish l else ls).isEnded m
      = ((scope.cancelled && m.number == l.number) || ls.isEnded m) := by
    cases scope.cancelled with
    | false => rfl
    | true => exact isEnded_endNumber ls l.number m
  -- The server is shut down last, and only where the request is a part of it.
  rw [record, Bool.or_assoc, ← hfirst]
  rcases l.outer with _ | outer
  · rw [show (none == some m.number) = false from rfl, Bool.and_false, Bool.false_or]
  · cases scope.shutdown with
    | false => rfl
    | true =>
        refine (isEnded_endNumber _ outer m).trans ?_
        rw [Bool.true_and, Bool.beq_comm]
        rfl

theorem Lifetimes.begun_record (ls : Lifetimes) (l : Lifetime) (scope : Scope) :
    (ls.record l scope).begun = ls.begun := by
  have hfirst : (if scope.cancelled then ls.finish l else ls).begun = ls.begun := by
    cases scope.cancelled with
    | false => rfl
    | true => rfl
  rw [record, ← hfirst]
  rcases l.outer with _ | outer
  · rfl
  · cases scope.shutdown with
    | false => rfl
    | true => rfl

namespace Server

open Resolution (Outcome Session)
open Review (Network)

variable {σ : Type}

/-- A request that has arrived: the context that it arrived under, its lifetime, and the time at
    which it gives up. -/
structure Arrival where
  context : Context
  life : Lifetime
  deadline : Nat

/-- A server and what became of it and of its requests. -/
structure State where
  server : Server
  /-- Every context that the server had, in order; the one it has now is the last. -/
  generations : List Context
  session : Session
  /-- The requests that have arrived, each by the name it goes by. -/
  arrivals : Nat → Option Arrival

/-- What happens to a server. -/
inductive Event (σ : Type) where
  /-- The server is told a configuration, or new files for its listener. -/
  | change (change : Change)
  /-- A request arrives under one of the contexts that the server had. -/
  | arrive (id generation now : Nat)
  /-- Someone cancels a request. -/
  | cancel (id : Nat)
  /-- Someone shuts the server down. -/
  | shutDown
  /-- A request is resolved; its reviews go to the given network. -/
  | resolve (id : Nat) (network : Network σ) (request : Request) (memory : σ) (now : Nat)

/-- The request that the event is about. -/
def Event.request? : Event σ → Option Nat
  | .arrive id _ _ | .cancel id | .resolve id .. => some id
  | .change _ | .shutDown => none

/-- The event cancels the request that it is about: from outside, or by an exchange for it. -/
def Event.Cancels : Event σ → Prop
  | .cancel _ => True
  | .resolve _ network _ _ _ => network.Cancels
  | _ => False

variable [Wording]

/-- Resolves a request that has arrived. Of what the authority remembers, what the network does is
    looked at. -/
def Arrival.resolve (a : Arrival) (session : Session) (network : Network σ) (request : Request)
    (memory : σ) (now : Nat) : Outcome σ × Session :=
  let (outcome, session) :=
    a.context.resolveWithin network session a.life a.deadline now request memory
  (⟨outcome.result, outcome.progress.map Prod.fst⟩, session)

/-- A request that has arrived is resolved within its lifetime and before its deadline. -/
theorem Arrival.resolve_eq (a : Arrival) (session : Session) (network : Network σ)
    (request : Request) (memory : σ) (now : Nat) :
    (a.resolve session network request memory now).1
      = (a.context.resolver network).resolve request
          (session.lifetimes.scope a.life (some a.deadline) now) memory :=
  a.context.resolveWithin_projected network session a.life a.deadline now request memory

theorem Arrival.begun_resolve (a : Arrival) (session : Session) (network : Network σ)
    (request : Request) (memory : σ) (now : Nat) :
    (a.resolve session network request memory now).2.lifetimes.begun = session.lifetimes.begun :=
  Lifetimes.begun_record _ _ _

namespace State

/-- A server that has just been built. -/
def initial (s : Server) : State :=
  ⟨s, [s.context], ⟨Lifetimes.empty.start.2, []⟩, fun _ => none⟩

/-- The state after a change of the server, whether it was taken or not. -/
def changed (st : State) (change : Change) : State :=
  let server := (st.server.apply change).2
  { st with server, generations := st.generations ++ [server.context] }

/-- The state once a request has arrived under a context. -/
def enter (st : State) (id : Nat) (context : Context) (now : Nat) : State :=
  let (life, lifetimes) := st.session.lifetimes.startWithin context.shutdown
  { st with
    session := { st.session with lifetimes }
    arrivals := fun other =>
      if other = id then some ⟨context, life, now + context.resolveTimeout⟩
      else st.arrivals other }

/-- The state once a lifetime was ended. -/
def finish (st : State) (life : Lifetime) : State :=
  { st with session := { st.session with lifetimes := st.session.lifetimes.finish life } }

/-- The state after an event. An event about a request that has not arrived changes nothing, and so
    does one more arrival of a request that has, or one under a context that the server never had.
    -/
def step (st : State) : Event σ → State
  | .change change => st.changed change
  | .arrive id generation now =>
    match st.arrivals id, st.generations[generation]? with
    | none, some context => st.enter id context now
    | _, _ => st
  | .cancel id =>
    match st.arrivals id with
    | some a => st.finish a.life
    | none => st
  | .shutDown => st.finish st.server.shutdown
  | .resolve id network request memory now =>
    match st.arrivals id with
    | some a => { st with session := (a.resolve st.session network request memory now).2 }
    | none => st

/-- The state after several events, one after another. -/
def after (st : State) (events : List (Event σ)) : State :=
  events.foldl step st

/-- The server is shut down. -/
def isDown (st : State) : Bool :=
  st.session.lifetimes.isOver st.server.shutdown

/-- A request that has arrived is over. -/
def isOver? (st : State) (id : Nat) : Option Bool :=
  (st.arrivals id).map fun a => st.session.lifetimes.isOver a.life

/-- The outcome of resolving a request now, if it has arrived. -/
def outcome? (st : State) (id : Nat) (network : Network σ) (request : Request) (memory : σ)
    (now : Nat) : Option (Outcome σ) :=
  (st.arrivals id).map fun a => (a.resolve st.session network request memory now).1

/-- The event is about a request that is not there, or that is there already, or under a context
    that never was. -/
def Ignores (st : State) : Event σ → Prop
  | .arrive id generation _ => st.arrivals id ≠ none ∨ st.generations[generation]? = none
  | .cancel id | .resolve id .. => st.arrivals id = none
  | .change _ | .shutDown => False

/-- The cases of a step. -/
inductive Step (st : State) : Event σ → State → Prop where
  | ignored {e : Event σ} (h : st.Ignores e) : Step st e st
  | change (change : Change) : Step st (.change change) (st.changed change)
  | arrive {id generation : Nat} {context : Context} (now : Nat) (hid : st.arrivals id = none)
    (hcontext : st.generations[generation]? = some context) :
    Step st (.arrive id generation now) (st.enter id context now)
  | cancel {id : Nat} {a : Arrival} (ha : st.arrivals id = some a) :
    Step st (.cancel id) (st.finish a.life)
  | shutDown : Step st .shutDown (st.finish st.server.shutdown)
  | resolve {id : Nat} {a : Arrival} (network : Network σ) (request : Request) (memory : σ)
    (now : Nat) (ha : st.arrivals id = some a) :
    Step st (.resolve id network request memory now)
      { st with session := (a.resolve st.session network request memory now).2 }

theorem step_spec (st : State) (e : Event σ) : st.Step e (st.step e) := by
  cases e with
  | change change => exact .change change
  | arrive id generation now =>
      rcases hid : st.arrivals id with _ | a
      · rcases hcontext : st.generations[generation]? with _ | context
        · rw [step, hid, hcontext]
          exact .ignored (Or.inr hcontext)
        · rw [step, hid, hcontext]
          exact .arrive now hid hcontext
      · rw [step, hid]
        exact .ignored (Or.inl (by rw [hid]; exact Option.some_ne_none a))
  | cancel id =>
      rcases ha : st.arrivals id with _ | a
      · rw [step, ha]
        exact .ignored ha
      · rw [step, ha]
        exact .cancel ha
  | shutDown => exact .shutDown
  | resolve id network request memory now =>
      rcases ha : st.arrivals id with _ | a
      · rw [step, ha]
        exact .ignored ha
      · rw [step, ha]
        exact .resolve network request memory now ha

/-! ## How lifetimes are given out -/

/-- The event ends the lifetime, whether it is over already or not. -/
def ends (st : State) (l : Lifetime) : Event σ → Bool
  | .cancel id => (st.arrivals id).any fun a => l.number == a.life.number
  | .shutDown => l.number == st.server.shutdown.number
  | .resolve id network request memory now => (st.arrivals id).any fun a =>
    let scope := (a.resolve st.session network request memory now).1.progress.scope
    (scope.shutdown && a.life.outer == some l.number)
      || (scope.cancelled && l.number == a.life.number)
  | _ => false

theorem ends_of_ignores {st : State} {e : Event σ} (h : st.Ignores e) (l : Lifetime) :
    st.ends l e = false := by
  cases e with
  | change change => exact h.elim
  | arrive id generation now => rfl
  | cancel id => rw [ends, show st.arrivals id = none from h, Option.any_none]
  | shutDown => exact h.elim
  | resolve id network request memory now =>
      rw [ends, show st.arrivals id = none from h, Option.any_none]

/-- An event ends certain lifetimes, and what has ended stays so. -/
theorem isEnded_of_step {st st' : State} {e : Event σ} (h : st.Step e st') (l : Lifetime) :
    st'.session.lifetimes.isEnded l = (st.ends l e || st.session.lifetimes.isEnded l) := by
  cases h with
  | ignored h => rw [ends_of_ignores h, Bool.false_or]
  | change change => rfl
  | arrive now hid hcontext => rfl
  | cancel ha =>
      rw [ends, ha]
      exact Lifetimes.isEnded_endNumber _ _ l
  | shutDown => exact Lifetimes.isEnded_endNumber _ _ l
  | resolve network request memory now ha =>
      rw [ends, ha]
      exact Lifetimes.isEnded_record _ _ _ l

/-- How lifetimes are given out: the server has the first, and hands it on to every context; every
    request has one to itself, which is part of that of the server. -/
structure Sound (st : State) : Prop where
  kept : ∃ c, Kept c ⟨0, none⟩ st.server
  generations : ∀ context ∈ st.generations, context.shutdown = ⟨0, none⟩
  begun : 0 < st.session.lifetimes.begun
  ended : ∀ l : Lifetime, st.session.lifetimes.isEnded l = true →
    l.number < st.session.lifetimes.begun
  arrivals : ∀ id a, st.arrivals id = some a →
    a.life.outer = some 0 ∧ 0 < a.life.number ∧ a.life.number < st.session.lifetimes.begun
  apart : ∀ id id' a a', st.arrivals id = some a → st.arrivals id' = some a' →
    a.life.number = a'.life.number → id = id'

theorem sound_initial {files : Files} {c : Configuration} {s : Server}
    (h : ofConfiguration files c Lifetimes.empty.start.1 = .ok s) : (initial s).Sound where
  kept := ⟨c, kept_after h []⟩
  generations context hcontext := by
    rw [List.mem_singleton.mp hcontext]
    exact (kept_after h []).context_shutdown
  begun := Nat.one_pos
  ended l hl := absurd hl Bool.false_ne_true
  arrivals id a ha := nomatch ha
  apart id id' a a' ha := nomatch ha

omit [Wording] in
theorem arrivals_enter {st : State} {id now other : Nat} {context : Context} {a : Arrival}
    (h : (st.enter id context now).arrivals other = some a) :
    (other = id ∧ a = ⟨context, (st.session.lifetimes.startWithin context.shutdown).1,
      now + context.resolveTimeout⟩) ∨ st.arrivals other = some a := by
  change (if other = id then _ else st.arrivals other) = some a at h
  by_cases hid : other = id
  · rw [if_pos hid] at h
    exact Or.inl ⟨hid, (Option.some.inj h).symm⟩
  · rw [if_neg hid] at h
    exact Or.inr h

-- The lifetime of a new request is the next one, and nobody else has it.
omit [Wording] in
theorem sound_enter {st : State} (h : st.Sound) (id now : Nat) {context : Context}
    (hcontext : context.shutdown = ⟨0, none⟩) : (st.enter id context now).Sound where
  kept := h.kept
  generations := h.generations
  begun := Nat.succ_pos _
  ended l hl := Nat.lt_succ_of_lt (h.ended l hl)
  arrivals other a ha := by
    rcases arrivals_enter ha with ⟨-, rfl⟩ | hold
    · exact ⟨congrArg (fun l : Lifetime => some l.number) hcontext, h.begun, Nat.lt_succ_self _⟩
    · rcases h.arrivals other a hold with ⟨houter, hpos, hlt⟩
      exact ⟨houter, hpos, Nat.lt_succ_of_lt hlt⟩
  apart i j a b ha hb hnumber := by
    rcases arrivals_enter ha with ⟨hi, rfl⟩ | hold
    · -- The next number is above all that were given out.
      rcases arrivals_enter hb with ⟨hj, -⟩ | hold'
      · exact hi.trans hj.symm
      · exact absurd hnumber (Nat.ne_of_gt (h.arrivals j b hold').2.2)
    · rcases arrivals_enter hb with ⟨-, rfl⟩ | hold'
      · exact absurd hnumber (Nat.ne_of_lt (h.arrivals i a hold).2.2)
      · exact h.apart i j a b hold hold' hnumber

-- An event ends only lifetimes that have begun.
theorem begun_of_ends {st : State} (h : st.Sound) {e : Event σ} {l : Lifetime}
    (hl : st.ends l e = true) : l.number < st.session.lifetimes.begun := by
  rcases h.kept with ⟨c, hkept⟩
  cases e with
  | change change => exact absurd hl Bool.false_ne_true
  | arrive id generation now => exact absurd hl Bool.false_ne_true
  | cancel id =>
      rcases (Option.any_eq_true _ _).mp hl with ⟨a, ha, hnumber⟩
      exact eq_of_beq hnumber ▸ (h.arrivals id a ha).2.2
  | shutDown =>
      rw [ends, hkept.shutdown] at hl
      exact eq_of_beq hl ▸ h.begun
  | resolve id network request memory now =>
      rcases (Option.any_eq_true _ _).mp hl with ⟨a, ha, hends⟩
      -- It is the number of the server, or that of the request itself.
      rcases h.arrivals id a ha with ⟨houter, -, hlt⟩
      rw [Bool.or_eq_true, Bool.and_eq_true, Bool.and_eq_true, houter] at hends
      rcases hends with ⟨-, hroot⟩ | ⟨-, hnumber⟩
      · exact Option.some.inj (eq_of_beq hroot) ▸ h.begun
      · exact eq_of_beq hnumber ▸ hlt

theorem sound_of_step {st st' : State} (h : st.Sound) {e : Event σ} (hstep : st.Step e st') :
    st'.Sound := by
  -- What an event ends has begun, as long as the event begins nothing itself.
  have hended : st'.session.lifetimes.begun = st.session.lifetimes.begun →
      ∀ l : Lifetime, st'.session.lifetimes.isEnded l = true →
        l.number < st'.session.lifetimes.begun := by
    intro hbegun l hl
    rw [isEnded_of_step hstep, Bool.or_eq_true] at hl
    exact hbegun ▸ hl.elim (begun_of_ends h) (h.ended l)
  cases hstep with
  | ignored _ => exact h
  | change change =>
      rcases h.kept with ⟨c, hkept⟩
      -- The context that is added has the lifetime that the server has kept.
      have hkept' := kept_apply hkept change
      refine ⟨⟨c, hkept'⟩, fun context hcontext => ?_, h.begun, h.ended, h.arrivals, h.apart⟩
      rcases List.mem_append.mp hcontext with hold | hnew
      · exact h.generations context hold
      · rw [List.mem_singleton.mp hnew]
        exact hkept'.context_shutdown
  | arrive now hid hcontext =>
      exact sound_enter h _ now (h.generations _ (List.mem_of_getElem? hcontext))
  | cancel ha => exact ⟨h.kept, h.generations, h.begun, hended rfl, h.arrivals, h.apart⟩
  | shutDown => exact ⟨h.kept, h.generations, h.begun, hended rfl, h.arrivals, h.apart⟩
  | @resolve id a network request memory now ha =>
      have hbegun := a.begun_resolve st.session network request memory now
      exact ⟨h.kept, h.generations, hbegun ▸ h.begun, hended hbegun,
        fun id a ha => hbegun ▸ h.arrivals id a ha, h.apart⟩

theorem sound_after {st : State} (h : st.Sound) (events : List (Event σ)) :
    (st.after events).Sound := by
  induction events generalizing st with
  | nil => exact h
  | cons e events ih => exact ih (sound_of_step h (st.step_spec e))

omit [Wording] in
theorem isDown_eq_isEnded {st : State} (h : st.Sound) :
    st.isDown = st.session.lifetimes.isEnded ⟨0, none⟩ := by
  rcases h.kept with ⟨c, hkept⟩
  rw [isDown, hkept.shutdown]
  rfl

omit [Wording] in
theorem isOuterEnded_eq_isDown {st : State} (h : st.Sound) {id : Nat} {a : Arrival}
    (ha : st.arrivals id = some a) : st.session.lifetimes.isOuterEnded a.life = st.isDown := by
  rw [isDown_eq_isEnded h, Lifetimes.isOuterEnded, (h.arrivals id a ha).1]
  rfl

theorem isDown_of_step {st st' : State} (h : st.Sound) {e : Event σ} (hstep : st.Step e st') :
    st'.isDown = (st.ends ⟨0, none⟩ e || st.isDown) := by
  rw [isDown_eq_isEnded (sound_of_step h hstep), isDown_eq_isEnded h]
  exact isEnded_of_step hstep _

/-- A server that is shut down stays so. -/
theorem isDown_after {st : State} (h : st.Sound) (events : List (Event σ))
    (hdown : st.isDown = true) : (st.after events).isDown = true := by
  induction events generalizing st with
  | nil => exact hdown
  | cons e events ih =>
      refine ih (sound_of_step h (st.step_spec e)) ?_
      rw [isDown_of_step h (st.step_spec e), hdown, Bool.or_true]

end State

end Server

end ForwardAuth
