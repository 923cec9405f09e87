import ForwardAuth.Proofs.Resolution
import Mathlib.Logic.Relation

/-!
# An interruption only cuts a resolution short

A request may be cancelled at any moment, and its time may run out at any moment. What this does to
its resolution is said by a comparison with another run: the same request, the same authority and
the same memory, but without any cancellation and without a deadline. `Resolver.undisturbed` and
`Scope.undisturbed` take them away.

Two runs that agree so far put the same question next, since both hold the same dialogue. Either the
disturbed run does not put it, or gives up the wait for its answer, and then it ends with that
interruption and with nothing else. Or it receives the answer that the undisturbed run receives, and
the two still agree. `hold_cutShort` is this argument, by induction on the dialogue. It needs to
know nothing about what a resolution does between its questions.

When a review may begin at all is a second statement, about one run. `Begins` is the step that a
question takes, and it asks for a request that is not cancelled and has time left. The progress of
a whole resolution is a chain of such steps, and of others that only look into a token.

## Main definitions

* `Authority.undisturbed`, `Resolver.undisturbed`, `Progress.undisturbed`: The same without
  cancellations and deadlines.
* `Begins`: One review is begun by a request that is alive.
* `Proceeds`: A review is begun, or something is done with a structured token.
* `CutShort`: A run agrees with another, or was interrupted on its way.
* `Outcome.CutsShort`: What this means for the outcomes of two resolutions.
* `Request.NeedsNoReview`: A request for which nobody has to be asked.

## Theorems

* `begins_put`: A question that is put takes one step.
* `proceeds_hold`: A dialogue is a chain of steps.
* `put_undisturbed`: A question that is put is given up, or ends as it would undisturbed.
* `hold_cutShort`: An interruption cuts a dialogue short.
* `asksOnly_resolving_nothing`: A request that needs no review begins none.
* `resolve_cutsShort`: An interruption cuts a resolution short.
-/

namespace ForwardAuth

variable {σ α : Type}

/-- The same authority, with nobody who cancels the request while a call is under way. -/
def Authority.undisturbed (A : Authority σ) : Authority σ where
  access query memory := ((A.access query memory).1.undisturbed, (A.access query memory).2)
  token query memory := ((A.token query memory).1.undisturbed, (A.token query memory).2)

theorem Authority.put_undisturbed (A : Authority σ) (q : Review.Question) (memory : σ) :
    A.undisturbed.put q memory = ((A.put q memory).1.undisturbed, (A.put q memory).2) := by
  cases q with
  | access query => rfl
  | token query => rfl

/-- Nobody has to be asked about the request: its credential is no token for the authority, and it
    does not ask to act as anyone. -/
def Request.NeedsNoReview (request : Request) : Prop :=
  (∀ token, Credential.ofRequest request = .bearer token →
    (Token.Structured.parse? token).isSome = true) ∧
  ∀ targets, Impersonation.Targets.ofHeaders request.headers = .ok targets → targets.isEmpty = true

theorem Scope.hindrance?_eq_none {s : Scope} (h : s.hindrance? = none) :
    s.isCancelled = false ∧ ∀ deadline, s.deadline = some deadline → s.now < deadline := by
  unfold hindrance? at h
  by_cases hc : s.isCancelled = true
  · rw [if_pos hc] at h
    exact absurd h (by simp only [reduceCtorEq, not_false_eq_true])
  · rw [if_neg hc] at h
    by_cases hd : s.isDue s.now = true
    · rw [if_pos hd] at h
      exact absurd h (by simp only [reduceCtorEq, not_false_eq_true])
    · refine ⟨Bool.eq_false_iff.mpr hc, fun deadline hdeadline => ?_⟩
      rw [isDue, hdeadline, Option.any_some, decide_eq_true_eq] at hd
      exact Nat.lt_of_not_le hd

namespace Resolution

open Review (Question Entry)

/-- The same resolver, asking an authority that nobody disturbs. -/
def Resolver.undisturbed (r : Resolver σ) : Resolver σ :=
  { r with authority := r.authority.undisturbed }

/-- The same progress in a scope without cancellation and deadline. -/
def Progress.undisturbed (p : Progress σ) : Progress σ :=
  { p with scope := p.scope.undisturbed }

/-- One review is begun by a request that is alive, and its call is waited for. A reply that comes
    without any wait is received, whoever cancels the request meanwhile. -/
structure Begins (A : Authority σ) (p p' : Progress σ) : Prop where
  not_cancelled : p.scope.isCancelled = false
  in_time : ∀ deadline, p.scope.deadline = some deadline → p.scope.now < deadline
  review : ∃ (q : Question) (ending : Ending q.Answer),
    p.scope.run (A.put q p.authority).1 = (.begun ending, p'.scope) ∧
    p'.authority = (A.put q p.authority).2 ∧
    p'.reviews = p.reviews ++ [q.entry ending.answer?] ∧ p'.inspections = p.inspections ∧
    ((A.put q p.authority).1.Immediate → ∃ a, ending = .answered a)

/-- One step of a resolution: a review is begun, or something is done with a structured token. The
    latter is listed and does nothing else. -/
inductive Proceeds (A : Authority σ) (p : Progress σ) : Progress σ → Prop where
  | review {p' : Progress σ} (begins : Begins A p p') : Proceeds A p p'
  | inspection (inspection : Inspection) :
      Proceeds A p { p with inspections := p.inspections ++ [inspection] }

/-- A run agrees with an undisturbed one, or it was interrupted on its way: before it would have
    begun the next review, or while it waited for an answer. -/
inductive CutShort (run reference : Except Stop α × Progress σ) : Prop where
  | same (h : reference = (run.1, run.2.undisturbed))
  | hindered (cause : Interruption) (next : Entry) (later : List Entry)
      (result : run.1 = .error (.refused cause.refusal))
      (reviews : reference.2.reviews = run.2.reviews ++ next :: later)
  | interrupted (cause : Interruption) (before : List Entry) (q : Question)
      (answer : Option q.Answer) (later : List Entry)
      (result : run.1 = .error (.refused cause.refusal))
      (begun : run.2.reviews = before ++ [q.entry none])
      (reviews : reference.2.reviews = before ++ q.entry answer :: later)

/-- What an interruption may do to the outcome of a resolution. -/
structure Outcome.CutsShort (run reference : Outcome σ) : Prop where
  /-- The questions are a first part of those that are put without it. -/
  questions : run.progress.reviews.map Entry.question
    <+: reference.progress.reviews.map Entry.question
  /-- The result is the same after the same reviews, or it is the interruption itself. -/
  same_or_interrupted :
    (run.progress.reviews = reference.progress.reviews ∧ run.result = reference.result) ∨
      run.result = .error (.refused .cancelled) ∨ run.result = .error (.refused .deadlineExceeded)
  /-- An identity is given only if it is given without it. -/
  identity : ∀ i, run.result = .ok i → reference.result = .ok i
  /-- Every other refusal is one that is given without it. -/
  refusal : ∀ cause, run.result = .error (.refused cause) →
    cause ≠ .cancelled → cause ≠ .deadlineExceeded → reference.result = .error (.refused cause)
  /-- Where nothing is asked, nothing is interrupted. -/
  of_no_review : reference.progress.reviews = [] → run.result = reference.result
  /-- Once its last answer is received, a resolution is interrupted only if there is more to ask. -/
  of_received : ∀ before q a, run.progress.reviews = before ++ [Question.entry q (some a)] →
    run.progress.reviews <+: reference.progress.reviews ∧
    (run.progress.reviews.length = reference.progress.reviews.length →
      run.result = reference.result)

theorem isSome_of_entry_eq {q q' : Question} {answer : Option q.Answer} {answer' : Option q'.Answer}
    (h : q.entry answer = q'.entry answer') : answer.isSome = answer'.isSome := by
  cases q with
  | access query =>
      cases q' with
      | access query' =>
          injection h with _ h
          rw [h]
      | token query' => exact absurd h (by simp only [Question.entry, reduceCtorEq,
          not_false_eq_true])
  | token query =>
      cases q' with
      | access query' => exact absurd h (by simp only [Question.entry, reduceCtorEq,
          not_false_eq_true])
      | token query' =>
          injection h with _ h
          rw [h]

theorem begins_put (A : Authority σ) (q : Question) (p : Progress σ)
    (h : p.scope.hindrance? = none) : Begins A p ((Resolving.put A q).runFrom p).2 := by
  have hrun := Scope.run_of_alive p.scope (A.put q p.authority).1 h
  rw [Resolving.runFrom_put_of_begun A q p _ _ hrun]
  rcases Scope.hindrance?_eq_none h with ⟨hc, hd⟩
  refine ⟨hc, hd, q, _, hrun, rfl, rfl, rfl, fun himmediate => ?_⟩
  -- A call that does not wait is hindered or answered, and this one is not hindered.
  rcases Scope.run_immediate p.scope _ himmediate with ⟨cause, hhindered⟩ | ⟨a, ha⟩
  · rw [hrun] at hhindered
    exact absurd (congrArg Prod.fst hhindered) (by simp only [reduceCtorEq, not_false_eq_true])
  · rw [hrun] at ha
    injection ha with ha
    exact ⟨a, ha⟩

/-- A dialogue is a chain of steps, one for each review and for each inspection. -/
theorem proceeds_hold (A : Authority σ) (d : Dialogue α) (p : Progress σ) :
    Relation.ReflTransGen (Proceeds A) p ((d.hold A).runFrom p).2 := by
  induction d generalizing p with
  | settled result =>
      rw [Dialogue.hold_settled, Resolving.runFrom_ofExcept]
  | ask q next ih =>
      rw [Dialogue.hold_ask, Resolving.runFrom_bind]
      rcases hs : p.scope.hindrance? with _ | cause
      · have hstep := Proceeds.review (begins_put A q p hs)
        rcases hrun : (Resolving.put A q).runFrom p with ⟨stop | a, p'⟩
        · rw [hrun] at hstep
          exact .single hstep
        · rw [hrun] at hstep
          exact .head hstep (ih a p')
      · rw [Resolving.runFrom_put_of_hindrance A q p cause hs]
  | inspect inspection next ih =>
      rw [Dialogue.hold_inspect, Resolving.runFrom_bind]
      exact .head (.inspection inspection) (ih _ _)

/-- A dialogue that is begun by a request that is alive begins with the review of its question. -/
theorem reviews_hold_ask (A : Authority σ) (q : Question) (next : q.Answer → Dialogue α)
    (p : Progress σ) (h : p.scope.hindrance? = none) :
    ∃ answer later, (((Dialogue.ask q next).hold A).runFrom p).2.reviews
      = p.reviews ++ q.entry answer :: later := by
  rw [Dialogue.hold_ask, Resolving.runFrom_bind,
    Resolving.runFrom_put_of_begun A q p _ _ (Scope.run_of_alive p.scope _ h)]
  -- However the call ends, its review is listed; more reviews follow only after an answer.
  rcases (p.scope.follow (A.put q p.authority).1.answer (A.put q p.authority).1.steps).1 with
    a | cause | _
  · rcases asksOnly_hold A (next a) ⟨_, _, p.reviews ++ [q.entry (some a)], _⟩ with
      ⟨later, hreviews, -⟩
    refine ⟨some a, later, hreviews.trans ?_⟩
    rw [List.append_assoc, List.singleton_append]
  · exact ⟨none, [], rfl⟩
  · exact ⟨none, [], rfl⟩

/-- A question that is put is given up, or it ends as it would without any disturbance. -/
theorem put_undisturbed (A : Authority σ) (q : Question) (p : Progress σ)
    (h : p.scope.hindrance? = none) :
    (∃ (cause : Interruption) (p' : Progress σ), p'.reviews = p.reviews ++ [q.entry none] ∧
      (Resolving.put A q).runFrom p = (.error (.refused cause.refusal), p')) ∨
      (Resolving.put A.undisturbed q).runFrom p.undisturbed
        = (((Resolving.put A q).runFrom p).1, ((Resolving.put A q).runFrom p).2.undisturbed) := by
  have hput := Resolving.runFrom_put_of_begun A q p _ _
    (Scope.run_of_alive p.scope (A.put q p.authority).1 h)
  rcases Scope.follow_undisturbed p.scope (A.put q p.authority).1.answer
    (A.put q p.authority).1.steps with ⟨cause, hcause⟩ | hsame
  · rw [hcause] at hput
    exact Or.inl ⟨cause, _, rfl, hput⟩
  · have hrun : p.undisturbed.scope.run (A.undisturbed.put q p.authority).1
        = (.begun (p.scope.follow (A.put q p.authority).1.answer (A.put q p.authority).1.steps).1,
          (p.scope.follow (A.put q p.authority).1.answer
            (A.put q p.authority).1.steps).2.undisturbed) := by
      change p.scope.undisturbed.run _ = _
      rw [Scope.run_of_alive _ _ p.scope.hindrance?_undisturbed, Authority.put_undisturbed]
      exact congrArg (fun r => (Run.begun r.1, r.2)) hsame
    refine Or.inr ?_
    rw [hput, Resolving.runFrom_put_of_begun A.undisturbed q p.undisturbed _ _ hrun]
    change (_, Progress.mk _ (A.undisturbed.put q p.authority).2 _ _) = _
    rw [Authority.put_undisturbed]
    rfl

/-- An interruption cuts a dialogue short. The induction is on the dialogue: two runs that agree put
    the same question, and if the answer to it is received, it is the same on both sides. -/
theorem hold_cutShort (A : Authority σ) (d : Dialogue α) (p : Progress σ) :
    CutShort ((d.hold A).runFrom p) ((d.hold A.undisturbed).runFrom p.undisturbed) := by
  induction d generalizing p with
  | settled result =>
      refine .same ?_
      rw [Dialogue.hold_settled, Dialogue.hold_settled, Resolving.runFrom_ofExcept,
        Resolving.runFrom_ofExcept]
  | ask q next ih =>
      rcases reviews_hold_ask A.undisturbed q next p.undisturbed
        p.scope.hindrance?_undisturbed with ⟨answer, later, hreference⟩
      have hhold : ((Dialogue.ask q next).hold A).runFrom p = _ :=
        Resolving.runFrom_bind (Resolving.put A q) (fun a => (next a).hold A) p
      rcases hs : p.scope.hindrance? with _ | cause
      · rcases put_undisturbed A q p hs with ⟨cause, p', hreviews, hput⟩ | hsame
        · -- The wait is given up, while the undisturbed run waits on.
          rw [hput] at hhold
          rw [hhold]
          exact .interrupted cause p.reviews q answer later rfl hreviews hreference
        · -- Both calls end in the same way, so both runs go on with the same answer.
          rw [hhold, Dialogue.hold_ask, Resolving.runFrom_bind, hsame]
          rcases (Resolving.put A q).runFrom p with ⟨stop | a, p'⟩
          · exact .same rfl
          · exact ih a p'
      · -- The question is not put, while the undisturbed run puts it.
        rw [Resolving.runFrom_put_of_hindrance A q p cause hs] at hhold
        rw [hhold]
        exact .hindered cause (q.entry answer) later rfl hreference
  | inspect inspection next ih =>
      -- Neither run asks anybody, and what was done before is the same.
      rw [Dialogue.hold_inspect, Dialogue.hold_inspect, Resolving.runFrom_bind,
        Resolving.runFrom_bind]
      exact ih p.inspections { p with inspections := p.inspections ++ [inspection] }

namespace CutShort

variable {run reference : Except Stop α × Progress σ}

theorem eq_of_same (h : reference = (run.1, run.2.undisturbed)) :
    run.1 = reference.1 ∧ run.2.reviews = reference.2.reviews := by
  rw [h]
  exact ⟨rfl, rfl⟩

theorem questions (h : CutShort run reference) :
    run.2.reviews.map Entry.question <+: reference.2.reviews.map Entry.question := by
  cases h with
  | same h =>
      exact (eq_of_same h).2 ▸ List.prefix_rfl
  | hindered cause next later result reviews =>
      rw [reviews, List.map_append]
      exact List.prefix_append _ _
  | interrupted cause before q answer later result begun reviews =>
      rw [begun, reviews, List.map_append, List.map_append, List.map_cons, List.map_cons,
        List.map_nil, Review.question_entry, Review.question_entry, List.prefix_append_right_inj,
        List.cons_prefix_cons]
      exact ⟨rfl, List.nil_prefix⟩

theorem same_or_interrupted (h : CutShort run reference) :
    (run.2.reviews = reference.2.reviews ∧ run.1 = reference.1) ∨
      run.1 = .error (.refused .cancelled) ∨ run.1 = .error (.refused .deadlineExceeded) := by
  have hrefusal : ∀ cause : Interruption, run.1 = .error (.refused cause.refusal) →
      run.1 = .error (.refused .cancelled) ∨ run.1 = .error (.refused .deadlineExceeded) := by
    intro cause hcause
    cases cause with
    | cancelled => exact Or.inl hcause
    | deadlineExceeded => exact Or.inr hcause
  cases h with
  | same h => exact Or.inl ⟨(eq_of_same h).2, (eq_of_same h).1⟩
  | hindered cause next later result reviews => exact Or.inr (hrefusal cause result)
  | interrupted cause before q answer later result begun reviews =>
      exact Or.inr (hrefusal cause result)

theorem of_no_review (h : CutShort run reference) (hnone : reference.2.reviews = []) :
    run.1 = reference.1 := by
  cases h with
  | same h => exact (eq_of_same h).1
  | hindered cause next later result reviews =>
      rw [hnone] at reviews
      exact absurd reviews.symm (List.append_ne_nil_of_right_ne_nil _ (List.cons_ne_nil _ _))
  | interrupted cause before q answer later result begun reviews =>
      rw [hnone] at reviews
      exact absurd reviews.symm (List.append_ne_nil_of_right_ne_nil _ (List.cons_ne_nil _ _))

theorem of_received (h : CutShort run reference) {before : List Entry} {q : Question}
    {a : q.Answer} (hlast : run.2.reviews = before ++ [q.entry (some a)]) :
    run.2.reviews <+: reference.2.reviews ∧
      (run.2.reviews.length = reference.2.reviews.length → run.1 = reference.1) := by
  cases h with
  | same h =>
      exact ⟨(eq_of_same h).2 ▸ List.prefix_rfl, fun _ => (eq_of_same h).1⟩
  | hindered cause next later result reviews =>
      -- The undisturbed run has begun one more review at least.
      rw [reviews]
      refine ⟨List.prefix_append _ _, fun hlength => ?_⟩
      rw [List.length_append, List.length_cons] at hlength
      exact absurd hlength (by omega)
  | interrupted cause before' q' answer later result begun reviews =>
      -- The last review of a run that gave up a wait has no answer.
      rw [begun] at hlast
      have hentry := (List.append_inj' hlast rfl).2
      injection hentry with hentry
      exact absurd (isSome_of_entry_eq hentry) Bool.false_ne_true

end CutShort

/-- A run that is cut short ends with the interruption, and loses nothing else. -/
theorem cutsShort_of_cutShort {run reference : Outcome σ}
    (h : CutShort (run.result, run.progress) (reference.result, reference.progress)) :
    run.CutsShort reference := by
  have hsplit := h.same_or_interrupted
  refine ⟨h.questions, hsplit, fun i hi => ?_, fun cause hcause hc hd => ?_, h.of_no_review,
    fun before q a hlast => h.of_received hlast⟩
  · rcases hsplit with ⟨-, hsame⟩ | hc | hd
    · exact hsame.symm.trans hi
    · exact absurd (hc.symm.trans hi) (by simp only [reduceCtorEq, not_false_eq_true])
    · exact absurd (hd.symm.trans hi) (by simp only [reduceCtorEq, not_false_eq_true])
  · rcases hsplit with ⟨-, hsame⟩ | hc' | hd'
    · exact hsame.symm.trans hcause
    · injection hcause.symm.trans hc' with hcause
      injection hcause with hcause
      exact absurd hcause hc
    · injection hcause.symm.trans hd' with hcause
      injection hcause with hcause
      exact absurd hcause hd

theorem asksOnly_resolving_nothing [Wording] (r : Resolver σ) (request : Request)
    (h : request.NeedsNoReview) :
    AsksOnly (fun _ => False) (r.resolving request (.ofRequest request)) := by
  rcases h with ⟨htoken, htargets⟩
  rw [resolving_eq]
  refine asksOnly_bind ?_ fun caller => ?_
  · rcases hcredential : Credential.ofRequest request with (_ | ⟨leaf, issuers⟩) | token | _
    · exact asksOnly_ofExcept _ (.error .missingPeerCertificate)
    · exact asksOnly_ofExcept _ (Certificate.identity leaf)
    · rcases Option.isSome_iff_exists.mp (htoken token hcredential) with ⟨structured, hparse⟩
      rw [extract_structured r.extractor r.authority token structured hparse]
      exact asksOnly_claimed _ r.extractor structured
    · exact asksOnly_ofExcept _ (.error .noCredentials)
  · unfold Resolver.acting
    by_cases hempty : caller.username.isEmpty = true
    · rw [if_pos hempty]
      exact asksOnly_ofExcept _ (.error .emptyUsername)
    · rw [if_neg hempty]
      rcases hread : Impersonation.Targets.ofHeaders request.headers with cause | targets
      · exact asksOnly_ofExcept _ (.error cause)
      · change AsksOnly _ (enforce r.authority caller targets)
        unfold enforce
        rw [if_pos (htargets targets hread)]
        exact asksOnly_ofExcept _ (.ok caller)

/-- An interruption only cuts a resolution short, and no review begins after it. A request that
    needs no review is resolved as if there were no interruptions at all. -/
theorem resolve_cutsShort [Wording] (r : Resolver σ) (request : Request) (scope : Scope)
    (memory : σ) :
    (r.resolve request scope memory).CutsShort
        (r.undisturbed.resolve request scope.undisturbed memory) ∧
      Relation.ReflTransGen (Proceeds r.authority) ⟨scope, memory, [], []⟩
        (r.resolve request scope memory).progress ∧
      (request.NeedsNoReview →
        (r.resolve request scope memory).progress.reviews = [] ∧
        (r.resolve request scope memory).result
          = (r.undisturbed.resolve request scope.undisturbed memory).result) := by
  -- One dialogue for both runs: they differ in the authority and in the scope only.
  rcases uniform_resolving r.extractor request (.ofRequest request) with ⟨d, hd⟩
  have hrun : r.resolving request (.ofRequest request) = d.hold r.authority := hd σ r.authority
  have hreference : r.undisturbed.resolving request (.ofRequest request)
      = d.hold r.authority.undisturbed := hd σ r.authority.undisturbed
  have hcut : (r.resolve request scope memory).CutsShort
      (r.undisturbed.resolve request scope.undisturbed memory) := by
    refine cutsShort_of_cutShort ?_
    change CutShort ((r.resolving request (.ofRequest request)).runFrom ⟨scope, memory, [], []⟩)
      ((r.undisturbed.resolving request (.ofRequest request)).runFrom
        ⟨scope.undisturbed, memory, [], []⟩)
    rw [hrun, hreference]
    exact hold_cutShort r.authority d ⟨scope, memory, [], []⟩
  have hnothing : ∀ (r' : Resolver σ) (scope' : Scope), request.NeedsNoReview →
      (r'.resolve request scope' memory).progress.reviews = [] := by
    intro r' scope' hrequest
    rcases asksOnly_resolving_nothing r' request hrequest ⟨scope', memory, [], []⟩ with
      ⟨begun, hreviews, hbegun⟩
    rw [List.eq_nil_iff_forall_not_mem.mpr hbegun, List.append_nil] at hreviews
    exact hreviews
  refine ⟨hcut, ?_, fun hrequest => ⟨hnothing r scope hrequest, ?_⟩⟩
  · change Relation.ReflTransGen (Proceeds r.authority) _
      ((r.resolving request (.ofRequest request)).runFrom ⟨scope, memory, [], []⟩).2
    rw [hrun]
    exact proceeds_hold r.authority d ⟨scope, memory, [], []⟩
  · exact hcut.of_no_review (hnothing r.undisturbed scope.undisturbed hrequest)

/-- A structured token is read although the request is cancelled and its time has run out. -/
theorem resolve_structured_of_cancelled :
    let _ : Wording := .own
    let r : Resolver Script := ⟨⟨"sub", .trusting⟩, .scripted⟩
    let header := (Http.HeaderValue.ofString? "Bearer eyJhbGciOiJub25lIn0.e30.").get
      (by decide +kernel)
    let request : Request := ⟨"GET", "/", [(⟨"authorization"⟩, header)], none⟩
    let scope : Scope := ⟨true, true, some 5, 7⟩
    (r.resolve request scope ⟨[], []⟩).progress.reviews = [] ∧
      (r.resolve request scope ⟨[], []⟩).result
        = (r.undisturbed.resolve request scope.undisturbed ⟨[], []⟩).result := by
  intro _ r header request scope
  have hcredential : Credential.ofRequest request = .bearer "eyJhbGciOiJub25lIn0.e30." := by
    decide +kernel
  refine (resolve_cutsShort r request scope ⟨[], []⟩).2.2 ⟨fun token htoken => ?_, fun t ht => ?_⟩
  · rw [← Credential.bearer.inj (hcredential.symm.trans htoken)]
    decide +kernel
  · rw [← Except.ok.inj (show Except.ok ⟨none, []⟩ = Except.ok t from ht)]
    rfl

end Resolution

end ForwardAuth
