import ForwardAuth.Proofs.Encoding
import ForwardAuth.Proofs.Resolution
import ForwardAuth.Server.Router

/-!
# What was sent, and what came back

A review is a question to the authority, and behind it is a request that was sent over a network. A
statement about what the authority was told, and about which reply decided, has to look at these
requests. `Network.recorded` is the same network with a record of them, each beside the call that
its own reply comes from.

A record must not change what it records. `hold_projected` is the general reason why it does not: a
dialogue with one authority is a dialogue with another, once what the first remembers can be mapped
to what the second remembers so that both start the same calls.

`Delivery.Confirms` is what one entry of the record can prove: this body was sent, and the reply to
it was a success that reads as this answer. A review that is answered has an entry that confirms it,
because a client that gives up waiting, that gets no response or one that is no success, gives no
answer at all.

## Main definitions

* `Review.Delivery`: A request that was sent, with the call that its reply comes from.
* `Review.Network.recorded`: A network with a record.
* `Review.Delivery.Confirms`: A question was sent, and the reply to it was a success with an answer.
* `Authority.Projects`: One authority is another that remembers more.

## Theorems

* `hold_projected`, `resolve_projected`: A dialogue, and so a resolution, does not depend on what an
  authority remembers in addition.
* `recorded_projects`, `metered_projects`: Neither the record nor the counting changes anything.
* `resolveWithin_projected`: A request is resolved as if nothing were counted.
* `answer_within`: A call that may be given up is answered by itself or given up.
* `post_cases`, `interpret_eq_ok`: How a review ends, and when with an answer.
* `post_eq_ok`: A request whose answer was read is recorded with the reply it was read from.
* `access_eq_ok`, `token_eq_ok`: An answered review is confirmed by the record.
-/

namespace ForwardAuth

variable {σ τ α : Type}

namespace Review

/-- A request that was sent, with the call that its reply comes from. -/
structure Delivery where
  request : Outgoing
  reply : Call Exchange

/-- The network, with a record of the requests that it was given. -/
def Network.recorded (network : Network σ) : Network (σ × List Delivery) where
  send request s :=
    ((network.send request s.1).1,
      ((network.send request s.1).2, s.2 ++ [⟨request, (network.send request s.1).1⟩]))

/-- The question was sent, and the reply to it was a success that is read as the answer. -/
def Delivery.Confirms (d : Delivery) (question : Json) (read? : List UInt8 → Option α)
    (answer : α) : Prop :=
  d.request.body = Json.encode question ∧
  ∃ status body, d.reply.answer = some (.response status body) ∧ status.isSuccess = true ∧
    read? body = some answer

end Review

open Review (Question Delivery Exit Network Client Outgoing)

/-- One authority is another that remembers more: what it remembers is mapped to what the other
    remembers, and both start the same calls. -/
def Authority.Projects (f : σ → τ) (A : Authority σ) (B : Authority τ) : Prop :=
  ∀ q memory, B.put q (f memory) = ((A.put q memory).1, f (A.put q memory).2)

namespace Resolution

/-- The same progress with an authority that remembers something else. -/
def Progress.map (f : σ → τ) (p : Progress σ) : Progress τ :=
  ⟨p.scope, f p.authority, p.reviews, p.inspections⟩

theorem put_projected {f : σ → τ} {A : Authority σ} {B : Authority τ} (h : A.Projects f B)
    (q : Question) (p : Progress σ) :
    (Resolving.put B q).runFrom (p.map f)
      = (((Resolving.put A q).runFrom p).1, ((Resolving.put A q).runFrom p).2.map f) := by
  rcases hs : p.scope.hindrance? with _ | cause
  · -- Both authorities start the same call, so it ends alike in the same scope.
    have hrun := Scope.run_of_alive p.scope (A.put q p.authority).1 hs
    have hrun' : (p.map f).scope.run (B.put q (p.map f).authority).1
        = p.scope.run (A.put q p.authority).1 := by
      rw [show B.put q (p.map f).authority = _ from h q p.authority]
      rfl
    rw [Resolving.runFrom_put_of_begun A q p _ _ hrun,
      Resolving.runFrom_put_of_begun B q (p.map f) _ _ (hrun'.trans hrun),
      show B.put q (p.map f).authority = _ from h q p.authority]
    rfl
  · rw [Resolving.runFrom_put_of_hindrance A q p cause hs,
      Resolving.runFrom_put_of_hindrance B q (p.map f) cause hs]

theorem hold_projected {f : σ → τ} {A : Authority σ} {B : Authority τ} (h : A.Projects f B)
    (d : Dialogue α) (p : Progress σ) :
    (d.hold B).runFrom (p.map f) = (((d.hold A).runFrom p).1, ((d.hold A).runFrom p).2.map f) := by
  induction d generalizing p with
  | settled result =>
      rw [Dialogue.hold_settled, Dialogue.hold_settled, Resolving.runFrom_ofExcept,
        Resolving.runFrom_ofExcept]
  | ask q next ih =>
      rw [Dialogue.hold_ask, Dialogue.hold_ask, Resolving.runFrom_bind, Resolving.runFrom_bind,
        put_projected h q p]
      rcases (Resolving.put A q).runFrom p with ⟨stop | a, p'⟩
      · rfl
      · exact ih a p'
  | inspect inspection next ih =>
      rw [Dialogue.hold_inspect, Dialogue.hold_inspect, Resolving.runFrom_bind,
        Resolving.runFrom_bind]
      exact ih p.inspections { p with inspections := p.inspections ++ [inspection] }

/-- A resolution does not depend on what an authority remembers in addition. -/
theorem resolve_projected [Wording] {f : σ → τ} {A : Authority σ} {B : Authority τ}
    (h : A.Projects f B) (e : Extractor) (request : Request) (scope : Scope) (memory : σ) :
    (Resolver.mk e B).resolve request scope (f memory) =
      ⟨((Resolver.mk e A).resolve request scope memory).result,
        ((Resolver.mk e A).resolve request scope memory).progress.map f⟩ := by
  rcases uniform_resolving e request (.ofRequest request) with ⟨d, hd⟩
  have hhold := hold_projected h d ⟨scope, memory, [], []⟩
  rw [← hd σ A, ← hd τ B] at hhold
  exact congrArg (fun run => Outcome.mk run.1 run.2) hhold

end Resolution

/-- A call that may be given up is answered by itself, or given up. -/
theorem Call.answer_within_go {late : α} {c : Call α} {a : α} (left : Nat) (steps : List Step)
    (h : (within.go late c left steps).answer = some a) : a = late ∨ c.answer = some a := by
  induction steps generalizing left with
  | nil =>
      rw [within.go] at h
      rcases hc : c.answer with _ | b
      · rw [hc] at h
        injection h with h
        exact Or.inl h.symm
      · rw [hc] at h
        exact Or.inr h
  | cons step steps ih =>
      cases step with
      | cancel reach => exact ih left h
      | work duration => exact ih (left - duration) h
      | wait duration =>
          rw [within.go] at h
          by_cases hlate : left ≤ duration
          · rw [if_pos hlate] at h
            injection h with h
            exact Or.inl h.symm
          · rw [if_neg hlate] at h
            exact ih (left - duration) h

theorem Call.answer_within {late : α} {c : Call α} {limit : Nat} {a : α}
    (h : (c.within limit late).answer = some a) : a = late ∨ c.answer = some a :=
  answer_within_go limit c.steps h

namespace Review

/-- How a review ends whose request is posted, if there is one: without a request, given up in time,
    or as the exchange says. -/
theorem post_cases [Wording] {c : Client} {network : Network σ} {kind : Metrics.ReviewKind}
    {path : String} {read? : List UInt8 → Option α} {request : Option Outgoing} {memory : σ}
    {x : Exit α} (h : (c.post network kind path read? request memory).1.answer = some x) :
    (request = none ∧ x = ⟨.error (.transport (c.unaskable path)), []⟩) ∨
      ∃ r, request = some r ∧ (x = .failed kind .timeout ∨
        ∃ exchange, (network.send r memory).1.answer = some exchange ∧
          x = Client.interpret kind read? exchange) := by
  cases request with
  | none => exact .inl ⟨rfl, (Option.some.inj h).symm⟩
  | some r =>
      refine .inr ⟨r, rfl, (Call.answer_within h).imp_right fun hanswer => ?_⟩
      rcases Option.map_eq_some_iff.mp hanswer with ⟨exchange, hexchange, hx⟩
      exact ⟨exchange, hexchange, hx.symm⟩

/-- Only a success is read, and only what can be read is an answer. -/
theorem interpret_eq_ok [Wording] {kind : Metrics.ReviewKind} {read? : List UInt8 → Option α}
    {exchange : Exchange} {a : α} (h : (Client.interpret kind read? exchange).answer = .ok a) :
    ∃ status body, exchange = .response status body ∧ status.isSuccess = true ∧
      read? body = some a := by
  cases exchange with
  | failure reason => cases h
  | response status body =>
      rw [Client.interpret] at h
      by_cases hsuccess : status.isSuccess = true
      · rw [if_pos hsuccess] at h
        cases hread : read? body with
        | none =>
            rw [hread] at h
            cases h
        | some b =>
            rw [hread] at h
            exact ⟨status, body, rfl, hsuccess, hread.trans (congrArg some (Except.ok.inj h))⟩
      · rw [if_neg hsuccess] at h
        cases h

/-- A request whose answer was read is recorded, with the reply it was read from. -/
theorem post_eq_ok [Wording] (c : Client) (network : Network σ) (kind : Metrics.ReviewKind)
    (path : String) (read? : List UInt8 → Option α) (request : Option Outgoing)
    (s : σ × List Delivery) (a : α)
    (h : ((c.post network.recorded kind path read? request s).1.map Exit.answer).answer
      = some (.ok a)) :
    ∃ d status body, request = some d.request ∧
      (c.post network.recorded kind path read? request s).2.2 = s.2 ++ [d] ∧
      d.reply.answer = some (.response status body) ∧ status.isSuccess = true ∧
      read? body = some a := by
  rcases Option.map_eq_some_iff.mp h with ⟨exit, hexit, hok⟩
  rcases post_cases hexit with ⟨-, rfl⟩ | ⟨r, rfl, rfl | ⟨exchange, hanswer, rfl⟩⟩
  · cases hok
  · -- The answer is not that of a client that gave up, since that one is an error.
    cases hok
  · rcases interpret_eq_ok hok with ⟨status, body, rfl, hsuccess, hread⟩
    exact ⟨⟨r, (network.send r s.1).1⟩, status, body, rfl, rfl, hanswer, hsuccess, hread⟩

theorem body_of_request? {c : Client} {path : String} {body : Json} {outgoing : Outgoing}
    (h : c.request? path body = some outgoing) : outgoing.body = Json.encode body := by
  unfold Client.request? at h
  rw [Option.bind_eq_bind, Option.bind_eq_some_iff] at h
  rcases h with ⟨uri, -, h⟩
  rw [Option.bind_eq_bind, Option.bind_eq_some_iff] at h
  rcases h with ⟨authorization, -, h⟩
  injection h with h
  rw [← h]

section Client

variable [Wording]

theorem post_recorded (c : Client) (network : Network σ) (kind : Metrics.ReviewKind)
    (path : String) (read? : List UInt8 → Option α) (request : Option Outgoing)
    (s : σ × List Delivery) :
    c.post network kind path read? request s.1
      = ((c.post network.recorded kind path read? request s).1,
          (c.post network.recorded kind path read? request s).2.1) := by
  cases request with
  | none => rfl
  | some outgoing => rfl

/-- The record changes nothing: the authority that is asked over the network and the one that is
    asked over its record start the same calls. -/
theorem recorded_projects (c : Client) (network : Network σ) :
    (c.authority network.recorded).Projects Prod.fst (c.authority network) := by
  intro q memory
  cases q with
  | access query =>
      change (c.authority network).access query memory.1 = (_, _)
      rw [Client.authority_access, post_recorded]
      change _ = (((c.authority network.recorded).access query memory).1,
        ((c.authority network.recorded).access query memory).2.1)
      rw [Client.authority_access]
  | token query =>
      change (c.authority network).token query memory.1 = (_, _)
      rw [Client.authority_token, post_recorded]
      change _ = (((c.authority network.recorded).token query memory).1,
        ((c.authority network.recorded).token query memory).2.1)
      rw [Client.authority_token]

/-- Remembering what is counted changes nothing either. -/
theorem metered_projects (c : Client) (network : Network σ) :
    (c.metered network).Projects Prod.fst (c.authority network) := by
  intro q memory
  cases q with
  | access query => rfl
  | token query => rfl

end Client

end Review

namespace Resolution

open Review (AccessQuery TokenQuery TokenVerdict TokenStatus)

/-- An answered access review is confirmed by the record. -/
theorem access_eq_ok [Wording] (c : Client) (network : Network σ) (query : AccessQuery)
    (p p' : Progress (σ × List Delivery)) (allowed : Bool)
    (h : (Resolving.put (c.authority network.recorded) (.access query)).runFrom p
      = (.ok (.ok allowed), p')) :
    ∃ d, p'.authority.2 = p.authority.2 ++ [d] ∧
      d.Confirms query.body Review.allowed? allowed := by
  rcases Resolving.runFrom_put_eq_ok _ _ _ _ _ h with ⟨scope, hrun, rfl⟩
  have hreceived := Scope.run_answered _ _ _ (congrArg Prod.fst hrun)
  change ((c.authority network.recorded).access query p.authority).1.answer = _ at hreceived
  rw [Client.authority_access] at hreceived
  rcases Review.post_eq_ok c network _ _ _ _ _ _ hreceived with
    ⟨d, status, body, hrequest, hrecord, hanswer, hsuccess, hread⟩
  exact ⟨d, hrecord, Review.body_of_request? hrequest, status, body, hanswer, hsuccess, hread⟩

/-- An answered token review is confirmed by the record. -/
theorem token_eq_ok [Wording] (c : Client) (network : Network σ) (query : TokenQuery)
    (p p' : Progress (σ × List Delivery)) (verdict : TokenVerdict)
    (h : (Resolving.put (c.authority network.recorded) (.token query)).runFrom p
      = (.ok (.ok verdict), p')) :
    ∃ d status, p'.authority.2 = p.authority.2 ++ [d] ∧
      d.Confirms query.body Review.tokenStatus? status ∧ verdict = status.verdict := by
  rcases Resolving.runFrom_put_eq_ok _ _ _ _ _ h with ⟨scope, hrun, rfl⟩
  have hreceived := Scope.run_answered _ _ _ (congrArg Prod.fst hrun)
  change ((c.authority network.recorded).token query p.authority).1.answer = _ at hreceived
  rw [Client.authority_token] at hreceived
  rcases Review.post_eq_ok c network _ _ _ _ _ _ hreceived with
    ⟨d, status, body, hrequest, hrecord, hanswer, hsuccess, hread⟩
  unfold Review.verdict? at hread
  rw [Option.map_eq_some_iff] at hread
  rcases hread with ⟨tokenStatus, htoken, hverdict⟩
  exact ⟨d, tokenStatus, hrecord,
    ⟨Review.body_of_request? hrequest, status, body, hanswer, hsuccess, htoken⟩, hverdict.symm⟩

end Resolution

/-- A request is resolved as if nothing were counted for its reviews. -/
theorem Server.Context.resolveWithin_projected [Wording] (c : Context) (network : Network σ)
    (session : Resolution.Session) (life : Lifetime) (deadline now : Nat) (request : Request)
    (memory : σ) :
    let outcome := (c.resolveWithin network session life deadline now request memory).1
    (⟨outcome.result, outcome.progress.map Prod.fst⟩ : Resolution.Outcome σ)
      = (c.resolver network).resolve request
          (session.lifetimes.scope life (some deadline) now) memory :=
  (Resolution.resolve_projected (Review.metered_projects c.client network) c.extractor request
    (session.lifetimes.scope life (some deadline) now) (memory, [])).symm

end ForwardAuth
