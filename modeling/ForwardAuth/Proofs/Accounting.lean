import ForwardAuth.Proofs.ReviewCounts

/-!
# Every resolution is counted once

A resolution is counted by two labels that come from different ends of it: the method is known once
the credential is classified, and the result only when the last stage has spoken. Whatever happens
in between, an early refusal or an interruption, the resolution must be counted once and under both.

`Session.ended` lists the resolutions of a session with what is known of each from outside, the
credential that its request offers and the result that it was given. The counters are compared with
this list. For a server the list is that of the requests it was sent, one after another, and then
there is more to count: each request is answered, and leaves the gauge of requests in flight as it
found it.

That every request is answered is no assumption. A resolution may wait for a review that never
comes, but only within a scope without a deadline, and a server gives every request a deadline.

The reviews of a resolution are counted as well, from what the authority remembers at the end of it.
That this is of another sort is an invariant of the authority: it holds before the first review, and
every review keeps it (`hold_keeps`).

## Main definitions

* `Refusal.kinds`: The names of the causes.
* `Ended`, `Ended.isOf`: A resolution that has ended, and the labels it belongs to.
* `Session.Event`, `Session.after`, `Session.ended`: A session and the resolutions in it.
* `Server.Visit`, `Activity.after`, `Activity.ended`: The same for requests to a server.

## Theorems

* `kind_eq_kind_iff`, `kind_ne_success`: Causes with one name are of one sort, and none is named
  like a success.
* `hold_ne_pending`: With a deadline, every dialogue comes to an end.
* `hold_keeps`: What every review keeps of the authority's memory is kept by a dialogue.
* `alike_of_isOf`: The labels of a resolution tell what came of it.
* `count_step`, `count_after`: What is counted in one event of a session, and in all of them.
* `serve_spec`, `after_spec`: What one request to a server leaves behind, and what many do.
* `every_resolution_counted_once`: Every resolution is counted once, and every request.
-/

namespace ForwardAuth

variable {σ α : Type}

/-! ## The names of the causes -/

namespace Refusal

/-- The names of the causes, in the order of the causes. -/
def kinds : List String :=
  ["no_credentials", "missing_peer_certificate", "malformed_certificate", "missing_username_claim",
    "missing_groups_claim", "claim_type_error", "token_rejected", "token_review_failed",
    "token_review_denied", "empty_username", "invalid_impersonation_header", "impersonation_denied",
    "backend_unavailable", "cancelled", "deadline_exceeded"]

theorem getElem?_kinds (cause : Refusal) : kinds[cause.ctorIdx]? = some cause.kind := by
  cases cause <;> rfl

theorem nodup_kinds : ("success" :: kinds).Nodup := by
  decide

/-- Causes have one name if they are of one sort, and only then. -/
theorem kind_eq_kind_iff {cause cause' : Refusal} :
    cause.kind = cause'.kind ↔ cause.ctorIdx = cause'.ctorIdx := by
  have hcause := getElem?_kinds cause
  have hcause' := getElem?_kinds cause'
  constructor
  · intro hkind
    have hlt : cause.ctorIdx < kinds.length := (List.getElem?_eq_some_iff.mp hcause).1
    rw [hkind, ← hcause'] at hcause
    exact (List.getElem?_inj hlt (List.nodup_cons.mp nodup_kinds).2).mp hcause
  · intro hsort
    rw [hsort, hcause'] at hcause
    exact (Option.some.inj hcause).symm

/-- No cause has the name of a success. -/
theorem kind_ne_success (cause : Refusal) : cause.kind ≠ "success" := by
  intro hkind
  have hmem := List.mem_of_getElem? (getElem?_kinds cause)
  rw [hkind] at hmem
  exact (List.nodup_cons.mp nodup_kinds).1 hmem

end Refusal

/-! ## With a deadline there is an end -/

theorem Scope.deadline_follow (s : Scope) (answer : Option α) (steps : List Call.Step) :
    (s.follow answer steps).2.deadline = s.deadline := by
  induction steps generalizing s with
  | nil =>
      cases answer with
      | some a => rfl
      | none =>
          rw [follow]
          split
          · rfl
          · split
            · rfl
            · rfl
  | cons step steps ih =>
      cases step with
      | cancel reach =>
          refine (ih (s.cancel reach)).trans ?_
          cases reach with
          | request => rfl
          | server => rfl
      | work duration => exact ih { s with now := s.now + duration }
      | wait duration =>
          rw [follow]
          split
          · rfl
          · split
            · rfl
            · exact ih { s with now := s.now + duration }

theorem Scope.follow_ne_pending {s : Scope} (h : s.deadline.isSome = true) (answer : Option α)
    (steps : List Call.Step) : (s.follow answer steps).1 ≠ .pending := by
  induction steps generalizing s with
  | nil =>
      cases answer with
      | some a => rintro ⟨⟩
      | none =>
          -- What never answers is given up by a cancelled request, and else at the deadline.
          rw [follow, if_pos h]
          split
          · rintro ⟨⟩
          · rintro ⟨⟩
  | cons step steps ih =>
      cases step with
      | cancel reach =>
          refine ih (s := s.cancel reach) ?_
          cases reach with
          | request => exact h
          | server => exact h
      | work duration => exact ih (s := { s with now := s.now + duration }) h
      | wait duration =>
          rw [follow]
          split
          · rintro ⟨⟩
          · split
            · rintro ⟨⟩
            · exact ih (s := { s with now := s.now + duration }) h

namespace Resolution

open Review (Question)

theorem put_of_deadline (A : Authority σ) (q : Question) {p : Progress σ}
    (h : p.scope.deadline.isSome = true) :
    ((Resolving.put A q).runFrom p).1 ≠ .error .pending ∧
      ((Resolving.put A q).runFrom p).2.scope.deadline = p.scope.deadline := by
  rcases hs : p.scope.hindrance? with _ | cause
  · have hpending := Scope.follow_ne_pending h (A.put q p.authority).1.answer
      (A.put q p.authority).1.steps
    rw [Resolving.runFrom_put_of_begun A q p _ _ (Scope.run_of_alive _ _ hs)]
    refine ⟨fun hresult => ?_, Scope.deadline_follow _ _ _⟩
    rcases hending : (p.scope.follow (A.put q p.authority).1.answer
      (A.put q p.authority).1.steps).1 with a | cause | _
    · rw [hending] at hresult
      cases hresult
    · rw [hending] at hresult
      cases hresult
    · exact hpending hending
  · rw [Resolving.runFrom_put_of_hindrance A q p cause hs]
    exact ⟨by rintro ⟨⟩, rfl⟩

/-- With a deadline, every dialogue comes to an end. -/
theorem hold_ne_pending (A : Authority σ) (d : Dialogue α) {p : Progress σ}
    (h : p.scope.deadline.isSome = true) : ((d.hold A).runFrom p).1 ≠ .error .pending := by
  induction d generalizing p with
  | settled result =>
      rw [Dialogue.hold_settled, Resolving.runFrom_ofExcept]
      cases result with
      | ok a => rintro ⟨⟩
      | error cause => rintro ⟨⟩
  | ask q next ih =>
      rw [Dialogue.hold_ask, Resolving.runFrom_bind]
      rcases put_of_deadline A q h with ⟨hput, hdeadline⟩
      rcases hrun : (Resolving.put A q).runFrom p with ⟨stop | a, p'⟩
      · rw [hrun] at hput
        exact fun hpending => hput (congrArg Except.error (Except.error.inj hpending))
      · -- The deadline is still there for the rest of the dialogue.
        rw [hrun] at hdeadline
        refine ih a ?_
        rw [hdeadline]
        exact h
  | inspect inspection next ih =>
      rw [Dialogue.hold_inspect, Resolving.runFrom_bind]
      exact ih p.inspections h

theorem resolve_ne_pending [Wording] (r : Resolver σ) (request : Request) {scope : Scope}
    (memory : σ) (h : scope.deadline.isSome = true) :
    (r.resolve request scope memory).result ≠ .error .pending := by
  rcases uniform_resolving r.extractor request (.ofRequest request) with ⟨d, hd⟩
  have hhold := hold_ne_pending r.authority d (p := ⟨scope, memory, [], []⟩) h
  rw [← hd σ r.authority] at hhold
  exact hhold

/-! ## What a review keeps, a resolution keeps -/

/-- What every review keeps of the authority's memory is kept by a dialogue. -/
theorem hold_keeps {A : Authority σ} {P : σ → Prop}
    (hkeeps : ∀ q memory, P memory → P (A.put q memory).2) (d : Dialogue α) {p : Progress σ}
    (h : P p.authority) : P ((d.hold A).runFrom p).2.authority := by
  induction d generalizing p with
  | settled result =>
      rw [Dialogue.hold_settled, Resolving.runFrom_ofExcept]
      exact h
  | ask q next ih =>
      -- The review is begun and changes the memory, or it is hindered and changes nothing.
      have hput : P ((Resolving.put A q).runFrom p).2.authority := by
        rcases hs : p.scope.hindrance? with _ | cause
        · rw [Resolving.runFrom_put_of_begun A q p _ _ (Scope.run_of_alive _ _ hs)]
          exact hkeeps q p.authority h
        · rw [Resolving.runFrom_put_of_hindrance A q p cause hs]
          exact h
      rw [Dialogue.hold_ask, Resolving.runFrom_bind]
      rcases hrun : (Resolving.put A q).runFrom p with ⟨stop | a, p'⟩
      · rw [hrun] at hput
        exact hput
      · rw [hrun] at hput
        exact ih a hput
  | inspect inspection next ih =>
      rw [Dialogue.hold_inspect, Resolving.runFrom_bind]
      exact ih p.inspections h

theorem resolve_keeps [Wording] (r : Resolver σ) (request : Request) (scope : Scope) {memory : σ}
    {P : σ → Prop} (hkeeps : ∀ q memory, P memory → P (r.authority.put q memory).2)
    (h : P memory) : P (r.resolve request scope memory).progress.authority := by
  rcases uniform_resolving r.extractor request (.ofRequest request) with ⟨d, hd⟩
  have hhold := hold_keeps hkeeps d (p := ⟨scope, memory, [], []⟩) h
  rw [← hd σ r.authority] at hhold
  exact hhold

/-! ## The resolutions of a session -/

/-- A resolution that has ended: the credential that the request offers, and the result. -/
structure Ended where
  credential : Credential
  result : Except Stop Identity

/-- The credential is of the method, and the result of the kind: `success`, or that of a refusal. -/
def Ended.isOf (method result : String) (e : Ended) : Bool :=
  e.credential.method == method &&
    match e.result with
    | .ok _ => result == "success"
    | .error (.refused cause) => result == cause.kind
    | .error .pending => false

/-- The labels of a resolution tell what came of it: there is an identity, or there is none for a
    cause of one sort. -/
theorem Ended.alike_of_isOf {method result : String} {e e' : Ended}
    (h : e.isOf method result = true) (h' : e'.isOf method result = true) :
    e.credential.method = e'.credential.method ∧
    ((∃ i i', e.result = .ok i ∧ e'.result = .ok i') ∨
      ∃ cause cause', e.result = .error (.refused cause) ∧ e'.result = .error (.refused cause') ∧
        cause.ctorIdx = cause'.ctorIdx) := by
  rcases e with ⟨credential, ending⟩
  rcases e' with ⟨credential', ending'⟩
  rcases (Bool.and_eq_true _ _).mp h with ⟨hmethod, hresult⟩
  rcases (Bool.and_eq_true _ _).mp h' with ⟨hmethod', hresult'⟩
  refine ⟨(eq_of_beq hmethod).trans (eq_of_beq hmethod').symm, ?_⟩
  rcases ending with (cause | _) | i
  · rcases ending' with (cause' | _) | i'
    · exact Or.inr ⟨cause, cause', rfl, rfl,
        Refusal.kind_eq_kind_iff.mp ((eq_of_beq hresult).symm.trans (eq_of_beq hresult'))⟩
    · exact absurd hresult' Bool.false_ne_true
    · exact absurd ((eq_of_beq hresult).symm.trans (eq_of_beq hresult')) cause.kind_ne_success
  · exact absurd hresult Bool.false_ne_true
  · rcases ending' with (cause' | _) | i'
    · exact absurd ((eq_of_beq hresult').symm.trans (eq_of_beq hresult)) cause'.kind_ne_success
    · exact absurd hresult' Bool.false_ne_true
    · exact Or.inl ⟨i, i', rfl, rfl⟩

theorem count_resolution (method result method' result' : String) :
    Metrics.count [.resolution method' result'] (.resolution method result)
      = if method' == method && result == result' then 1 else 0 := by
  rw [Metrics.count, List.count_singleton]
  congr 1
  simp only [beq_eq_decide, Metrics.Sample.resolution.injEq, Bool.and_eq_true, decide_eq_true_eq,
    eq_comm (a := result)]

theorem exists_of_sample? {credential : Credential} {ending : Except Stop Identity}
    {s : Metrics.Sample} (h : sample? credential ending = some s) :
    ∃ method result, s = .resolution method result := by
  rcases ending with (cause | _) | i
  · exact ⟨_, _, (Option.some.inj h).symm⟩
  · cases h
  · exact ⟨_, _, (Option.some.inj h).symm⟩

/-- A resolution that has ended counts under the labels it belongs to, and under no others. -/
theorem count_sample? (e : Ended) (method result : String) :
    Metrics.count (sample? e.credential e.result).toList (.resolution method result)
      = [e].countP (Ended.isOf method result) := by
  rw [List.countP_singleton]
  rcases e with ⟨credential, (cause | _) | i⟩
  · exact count_resolution method result credential.method cause.kind
  · rw [Ended.isOf, Bool.and_false]
    rfl
  · exact count_resolution method result credential.method "success"

namespace Session

variable [Wording]

/-- What happens to a session. -/
inductive Event (σ : Type) where
  /-- Lifetimes begin and end, of whatever requests there are. -/
  | pass (lifetimes : Lifetimes)
  /-- A request is resolved. -/
  | resolve (request : Request) (life : Lifetime) (deadline : Option Nat) (now : Nat) (memory : σ)

/-- The session after an event. -/
def step (r : Resolver σ) (s : Session) : Event σ → Session
  | .pass lifetimes => { s with lifetimes }
  | .resolve request life deadline now memory => (s.resolve r request life deadline now memory).2

/-- The resolution that an event is. -/
def ended? (r : Resolver σ) (s : Session) : Event σ → Option Ended
  | .pass _ => none
  | .resolve request life deadline now memory =>
    some ⟨.ofRequest request, (s.resolve r request life deadline now memory).1.result⟩

/-- The session after several events. -/
def after (r : Resolver σ) (s : Session) (events : List (Event σ)) : Session :=
  events.foldl (step r) s

/-- The resolutions among several events, in order. -/
def ended (r : Resolver σ) (s : Session) : List (Event σ) → List Ended
  | [] => []
  | e :: events => (s.ended? r e).toList ++ (s.step r e).ended r events

theorem count_step (r : Resolver σ) (s : Session) (e : Event σ) (method result : String) :
    Metrics.count (s.step r e).events (.resolution method result)
      = Metrics.count s.events (.resolution method result)
        + (s.ended? r e).toList.countP (Ended.isOf method result) := by
  cases e with
  | pass lifetimes => rfl
  | resolve request life deadline now memory =>
      rw [ended?, Option.toList_some, ← count_sample?]
      exact List.count_append

theorem count_after (r : Resolver σ) (s : Session) (events : List (Event σ))
    (method result : String) :
    Metrics.count (s.after r events).events (.resolution method result)
      = Metrics.count s.events (.resolution method result)
        + (s.ended r events).countP (Ended.isOf method result) := by
  induction events generalizing s with
  | nil => rfl
  | cons e events ih =>
      rw [ended, List.countP_append, ← Nat.add_assoc, ← count_step]
      exact ih (s.step r e)

end Session

end Resolution

/-! ## The requests to a server -/

/-- Nothing but reviews is remembered to be counted. -/
def CountsReviews (memory : σ × List (List Metrics.Sample)) : Prop :=
  ∀ counted ∈ memory.2, ∀ s ∈ counted, ∃ kind result, s = .review kind result

theorem countsReviews_put [Wording] (c : Review.Client) (network : Review.Network σ)
    (q : Review.Question) {memory : σ × List (List Metrics.Sample)} (h : CountsReviews memory) :
    CountsReviews ((c.metered network).put q memory).2 := by
  -- Every question comes to an answer, and what is counted for it is known.
  rcases Review.Completion.exists_of_question c network q memory.1 with ⟨x, rfl, hmemory⟩
  have hremembered := Review.metered_eq x.completes memory.2
  rw [hmemory] at hremembered
  intro counted hcounted s hs
  rw [show ((c.metered network).put x.question memory).2.2 = _ from hremembered] at hcounted
  rcases List.mem_append.mp hcounted with hold | hnew
  · exact h counted hold s hs
  · rw [List.mem_singleton.mp hnew] at hs
    split at hs
    · exact ⟨_, _, List.mem_singleton.mp hs⟩
    · exact absurd hs List.not_mem_nil

-- What is counted for reviews is of other families.
theorem count_samples {memory : σ × List (List Metrics.Sample)} (hmemory : CountsReviews memory)
    (reviews : List Review.Entry) {s : Metrics.Sample}
    (h : ∀ kind result, s ≠ .review kind result ∧ s ≠ .reviewDuration kind) :
    Metrics.count (Review.samples memory.2 reviews) s = 0 := by
  refine List.count_eq_zero.mpr fun hs => ?_
  rcases List.mem_flatten.mp hs with ⟨samples, hsamples, hs⟩
  rcases List.mem_iff_getElem?.mp hsamples with ⟨i, hi⟩
  rcases List.getElem?_zipWith_eq_some.mp hi with ⟨counted, entry, hcounted, -, rfl⟩
  -- A sample of a review is its duration or one that was remembered.
  have hreview : ∀ answered : Bool, s ∉ if answered then counted else [] := by
    intro answered hmem
    cases answered with
    | false => exact absurd hmem List.not_mem_nil
    | true =>
        rcases hmemory counted (List.mem_of_getElem? hcounted) s hmem with ⟨kind, result, rfl⟩
        exact (h kind result).1 rfl
  cases entry with
  | access q answer =>
      rcases List.mem_cons.mp hs with hduration | hmem
      · exact (h .access .error).2 hduration
      · exact hreview _ hmem
  | token q answer =>
      rcases List.mem_cons.mp hs with hduration | hmem
      · exact (h .token .error).2 hduration
      · exact hreview _ hmem

namespace Metrics.InFlight

-- What is held for a request after a change is what it shows next.
theorem show_change (s : InFlight) (request : Nat) (amount : Int) :
    ((s.change request amount).step request .show).counter = s.counter + amount ∧
      ((s.change request amount).step request .show).gauge = s.counter + amount := by
  rw [step, change, List.lookup_cons_self]
  exact ⟨rfl, rfl⟩

/-- A request that comes and goes leaves the counter as it was, and the gauge at the counter. -/
theorem leave_enter (s : InFlight) (request : Nat) :
    ((s.enter request).leave request).counter = s.counter ∧
      ((s.enter request).leave request).gauge = s.counter := by
  have hback : (s.enter request).counter + -1 = s.counter := by
    rw [show (s.enter request).counter = s.counter + 1 from (show_change s request 1).1]
    omega
  have hleave := show_change (s.enter request) request (-1)
  rw [hback] at hleave
  exact hleave

end Metrics.InFlight

namespace Server

open Resolution (Ended sample?)
open Review (Network)

/-- A request that a server is sent: the context it is resolved with, and what the server finds when
    it arrives, the lifetimes that have begun and ended, the network, and the time. -/
structure Visit (σ : Type) where
  context : Context
  lifetimes : Lifetimes
  network : Network σ
  now : Nat
  request : Request

theorem exists_responseTo [Wording] {result : Except Resolution.Stop Identity}
    (h : result ≠ .error .pending) : ∃ response, responseTo result = some response := by
  rcases result with (cause | _) | i
  · exact ⟨_, rfl⟩
  · exact absurd rfl h
  · exact ⟨_, rfl⟩

namespace Activity

variable [Wording]

/-- The activity that a request finds. -/
def found (a : Activity σ) (v : Visit σ) : Activity σ :=
  { a with session := { a.session with lifetimes := v.lifetimes } }

/-- The activity once a request was served. -/
def served (a : Activity σ) (v : Visit σ) : Activity σ :=
  (v.context.serve v.network v.now v.request (a.found v)).2

/-- The resolution that serving a request takes. The metrics are shown without one. -/
def ended? (a : Activity σ) (v : Visit σ) : Option Ended :=
  if isMetricsRequest v.request then none
  else some ⟨.ofRequest v.request,
    (v.context.outcome v.network v.now v.request (a.found v)).result⟩

/-- The activity once several requests were served, one after another. -/
def after (a : Activity σ) (visits : List (Visit σ)) : Activity σ :=
  visits.foldl served a

/-- The resolutions that serving several requests takes, in order. -/
def ended (a : Activity σ) : List (Visit σ) → List Ended
  | [] => []
  | v :: visits => (a.ended? v).toList ++ (a.served v).ended visits

/-- One request to a server is answered. What is counted for it is its resolution, the reviews that
    this took, and the request itself. -/
theorem serve_spec (a : Activity σ) (v : Visit σ) :
    ∃ response memory reviews, CountsReviews (σ := σ) memory ∧
      (v.context.serve v.network v.now v.request (a.found v)).1 = some response ∧
      (a.served v).session.events
        = a.session.events ++ ((a.ended? v).bind fun e => sample? e.credential e.result).toList
            ++ Review.samples memory.2 reviews ++ answered ∧
      (a.served v).inFlight = (a.inFlight.enter v.lifetimes.begun).leave v.lifetimes.begun := by
  have hempty : CountsReviews (a.network, []) := fun counted hcounted =>
    absurd hcounted List.not_mem_nil
  by_cases hmetrics : isMetricsRequest v.request = true
  · refine ⟨.metrics (Metrics.exposition a.session.events
      (a.inFlight.enter v.lifetimes.begun).gauge), _, [], hempty, ?_⟩
    rw [served, ended?, if_pos hmetrics, Context.serve, Context.respond, if_pos hmetrics,
      Option.bind_none, Option.toList_none, List.append_nil,
      show Review.samples [] [] = [] from rfl, List.append_nil]
    exact ⟨rfl, rfl, rfl⟩
  · -- The deadline of the request sees to it that there is a response.
    have hended : (v.context.outcome v.network v.now v.request (a.found v)).result
        ≠ .error .pending :=
      Resolution.resolve_ne_pending (v.context.resolver v.network) v.request a.network rfl
    rcases exists_responseTo hended with ⟨response, hresponse⟩
    have hresolve := resolve_of_outcome v.context v.network v.now v.request (a.found v)
    have hrespond : v.context.respond v.network v.now v.request
        { a.found v with inFlight := a.inFlight.enter v.lifetimes.begun }
        = (some response, (v.context.resolve v.network v.now v.request
            { a.found v with inFlight := a.inFlight.enter v.lifetimes.begun }).2) := by
      rw [Context.respond, if_neg hmetrics]
      exact Prod.ext ((congrArg responseTo hresolve.1).trans hresponse) rfl
    -- The events are those of the resolution that remembers what its reviews count.
    let life := v.lifetimes.startWithin v.context.shutdown
    let outcome := (v.context.resolveWithin v.network { a.session with lifetimes := life.2 } life.1
      (v.now + v.context.resolveTimeout) v.now v.request a.network).1
    have hcounts : CountsReviews outcome.progress.authority :=
      Resolution.resolve_keeps (v.context.metered v.network) v.request _
        (fun q memory h => countsReviews_put v.context.client v.network q h) hempty
    refine ⟨response, outcome.progress.authority, outcome.progress.reviews, hcounts, ?_⟩
    rw [served, ended?, if_neg hmetrics, Context.serve]
    rw [show (a.found v).session.lifetimes.begun = v.lifetimes.begun from rfl,
      show (a.found v).inFlight = a.inFlight from rfl, hrespond]
    refine ⟨rfl, ?_, rfl⟩
    rw [Option.bind_some, ← hresolve.1]
    rfl

theorem count_served (a : Activity σ) (v : Visit σ) {s : Metrics.Sample}
    (h : ∀ kind result, s ≠ .review kind result ∧ s ≠ .reviewDuration kind) :
    Metrics.count (a.served v).session.events s
      = Metrics.count a.session.events s
        + Metrics.count ((a.ended? v).bind fun e => sample? e.credential e.result).toList s
        + Metrics.count answered s := by
  rcases serve_spec a v with ⟨-, memory, reviews, hmemory, -, hevents, -⟩
  have hreviews := count_samples hmemory reviews h
  rw [hevents]
  simp only [Metrics.count, List.count_append] at hreviews ⊢
  rw [hreviews, Nat.add_zero]

theorem count_resolution_served (a : Activity σ) (v : Visit σ) (method result : String) :
    Metrics.count (a.served v).session.events (.resolution method result)
      = Metrics.count a.session.events (.resolution method result)
        + (a.ended? v).toList.countP (Ended.isOf method result) := by
  rw [count_served a v (s := .resolution method result) fun _ _ => ⟨nofun, nofun⟩]
  rcases a.ended? v with _ | e
  · rfl
  · exact congrArg (_ + ·) (Resolution.count_sample? e method result)

/-- Each request is counted once, whatever becomes of it. -/
theorem count_request_served (a : Activity σ) (v : Visit σ) {s : Metrics.Sample}
    (h : s ∈ [.request, .requestDuration]) :
    Metrics.count (a.served v).session.events s = Metrics.count a.session.events s + 1 := by
  have hresolution : ∀ e : Ended, Metrics.count (sample? e.credential e.result).toList s = 0 := by
    intro e
    refine List.count_eq_zero.mpr fun hs => ?_
    rcases Resolution.exists_of_sample? (Option.mem_toList.mp hs) with ⟨method, result, rfl⟩
    exact absurd h (by simp)
  have hanswered : ∀ s' ∈ [.request, .requestDuration], Metrics.count answered s' = 1 ∧
      ∀ kind result, s' ≠ .review kind result ∧ s' ≠ .reviewDuration kind := by
    simp [answered, Metrics.count]
  rcases hanswered s h with ⟨hone, hreview⟩
  rw [count_served a v hreview, hone]
  rcases a.ended? v with _ | e
  · rfl
  · exact congrArg (_ + · + 1) (hresolution e)

theorem inFlight_served (a : Activity σ) (v : Visit σ) :
    (a.served v).inFlight.counter = a.inFlight.counter ∧
      (a.served v).inFlight.gauge = a.inFlight.counter := by
  rcases serve_spec a v with ⟨-, -, -, -, -, -, hflight⟩
  rw [hflight]
  exact Metrics.InFlight.leave_enter a.inFlight v.lifetimes.begun

/-- What several requests leave behind: each counted once, each resolution under its labels, and
    nothing in flight that was not before. -/
theorem after_spec (a : Activity σ) (visits : List (Visit σ)) :
    (∀ method result, Metrics.count (a.after visits).session.events (.resolution method result)
      = Metrics.count a.session.events (.resolution method result)
        + (a.ended visits).countP (Ended.isOf method result)) ∧
    (∀ s ∈ [.request, .requestDuration], Metrics.count (a.after visits).session.events s
      = Metrics.count a.session.events s + visits.length) ∧
    (a.inFlight.gauge = a.inFlight.counter →
      (a.after visits).inFlight.gauge = a.inFlight.gauge) := by
  induction visits generalizing a with
  | nil => exact ⟨fun _ _ => rfl, fun _ _ => rfl, fun _ => rfl⟩
  | cons v visits ih =>
      rcases ih (a.served v) with ⟨hresolution, hrequest, hflight⟩
      rcases inFlight_served a v with ⟨hcounter, hgauge⟩
      refine ⟨fun method result => ?_, fun s hs => ?_, fun hshown => ?_⟩
      · rw [ended, List.countP_append, ← Nat.add_assoc, ← count_resolution_served]
        exact hresolution method result
      · rw [List.length_cons, Nat.add_comm visits.length, ← Nat.add_assoc,
          ← count_request_served a v hs]
        exact hrequest s hs
      · -- After the first request the gauge is at the counter again, and this is where it was.
        rw [hshown, ← hgauge]
        exact hflight (hgauge.trans hcounter.symm)

end Activity

end Server

open Metrics (count)
open Resolution (Ended Resolver Session)
open Server (Activity Visit isMetricsRequest)

/-- Every resolution is counted once, under the method of its credential and what came of it, and
    under no other labels. The same holds for the requests to a server, of which each is counted
    once as well, and leaves the gauge as it was. Showing the metrics is a request but no
    resolution. -/
theorem every_resolution_counted_once [Wording] :
    (∀ (r : Resolver σ) (s : Session) (events : List (Session.Event σ)) (method result : String),
      count (s.after r events).events (.resolution method result)
        = count s.events (.resolution method result)
          + (s.ended r events).countP (Ended.isOf method result)) ∧
    (∀ (a : Activity σ) (visits : List (Visit σ)),
      (∀ method result, count (a.after visits).session.events (.resolution method result)
        = count a.session.events (.resolution method result)
          + (a.ended visits).countP (Ended.isOf method result)) ∧
      (∀ s ∈ [.request, .requestDuration], count (a.after visits).session.events s
        = count a.session.events s + visits.length) ∧
      (a.inFlight.gauge = a.inFlight.counter →
        (a.after visits).inFlight.gauge = a.inFlight.gauge)) ∧
    ∀ (a : Activity σ) (v : Visit σ), isMetricsRequest v.request = true →
      ∀ method result, count (a.served v).session.events (.resolution method result)
        = count a.session.events (.resolution method result) := by
  refine ⟨Session.count_after, Activity.after_spec, fun a v hmetrics method result => ?_⟩
  rw [Activity.count_resolution_served, Activity.ended?, if_pos hmetrics]
  rfl

/-- A request without a credential, one for the metrics, and one with a token that the authority
    knows. The metrics are asked for once more. -/
theorem every_resolution_counted_once_mixed :
    let _ : Wording := .own
    let network : Review.Network Unit := ⟨fun _ memory =>
      (.instant (.response ⟨201⟩ "[[true,[\"bob\"]]]".toUTF8.toList), memory)⟩
    let c : Server.Context :=
      ⟨⟨"sub", .trusting⟩, ⟨"http://authority", none, 1000, ⟨none, none⟩⟩, 5000, ⟨0, none⟩⟩
    let visit : String → Http.Headers → Visit Unit := fun path headers =>
      ⟨c, ⟨1, []⟩, network, 0, ⟨"GET", path, headers, none⟩⟩
    let token : Http.Headers :=
      ((Http.HeaderValue.ofString? "Bearer t").map fun v => (⟨"authorization"⟩, v)).toList
    let a : Activity Unit := ⟨⟨⟨1, []⟩, []⟩, .idle, ()⟩
    let visits := [visit "/" [], visit "/metrics" [], visit "/" token]
    count (a.after visits).session.events (.resolution "anonymous" "no_credentials") = 1 ∧
      count (a.after visits).session.events (.resolution "bearer" "success") = 1 ∧
      count (a.after visits).session.events .request = 3 ∧
      (a.after visits).inFlight.gauge = 0 ∧
      count ((a.after visits).served (visit "/metrics" [])).session.events
          (.resolution "anonymous" "no_credentials")
        = count (a.after visits).session.events (.resolution "anonymous" "no_credentials") := by
  intro _ network c visit token a visits
  rcases every_resolution_counted_once (σ := Unit) with ⟨-, hafter, hmetrics⟩
  rcases hafter a visits with ⟨hresolution, hrequest, hgauge⟩
  refine ⟨(hresolution _ _).trans ?_, (hresolution _ _).trans ?_,
    hrequest _ (List.mem_cons_self ..), hgauge rfl,
    hmetrics (a.after visits) (visit "/metrics" []) (by decide +kernel) _ _⟩
  · decide +kernel
  · decide +kernel

end ForwardAuth
