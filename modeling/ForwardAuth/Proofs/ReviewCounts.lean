import ForwardAuth.Proofs.Delivery
import ForwardAuth.Proofs.Postable

/-!
# How reviews are counted

Reviews are watched through two numbers for each kind, how many came to each result and how many
were measured. They are comparable only if every review that comes to an end adds one to both. A
`Completion` is such a review: a question that a client put over a network, and the answer that it
came to. Every question has one, since a client gives up in time.

Each completion is measured once, under its own kind. It is counted under its result once as well if
the client can ask questions of its kind, and not at all otherwise. So the numbers agree for clients
that can ask, and for the others the reviews are measured and fail, and none of the failures is
counted. Such clients exist: whether the token makes a header is not looked at when a client is set
up.

What is counted for a review is counted where it ends. `Exit.Ends` lists the ends that a request for
a review can come to, and from it follows what the authority that remembers its counts has
remembered.

## Main definitions

* `Question.CountsAs`: What an answer is counted as.
* `Exit.Ends`: How a request for a review ends.
* `Completion`: A review that came to an answer.
* `Completion.samples`: What is counted for it.
* `Completion.isOf`, `Completion.isResult`: The reviews of a kind, and those with a result.
* `eventsAfter`: The events after a sequence of reviews.
* `Metrics.reviewTotal`: How many reviews of a kind are counted, whatever their results.

## Theorems

* `exists_answer_within`: A call that is given up in time has an answer.
* `ends_of_post`: Every request for a review ends in one of the ways.
* `metered_eq`: What is remembered to be counted for a question that is answered.
* `Completion.exists_of_question`: Every question has a completion.
* `Completion.countsAs_result`: The result of a completion is what its answer counts as.
* `Completion.samples_eq`: What is counted for a completion.
* `Completion.count_duration`, `Completion.count_review`: What one completion adds.
* `count_eventsAfter`: What a sequence of them adds.
* `countP_isResult`: The results make up the reviews.
* `canAsk_iff`: Whether a client can ask is known from its settings and files.
* `reviews_counted`: Reviews are counted as often as they are measured if the client can ask.
* `not_reviews_counted`: Not every client can.
-/

namespace ForwardAuth

variable {σ α : Type}

/-- How many reviews of a kind are counted after the given events, whatever their results. -/
def Metrics.reviewTotal (events : List Sample) (kind : ReviewKind) : Nat :=
  count events (.review kind .allow) + count events (.review kind .deny)
    + count events (.review kind .error)

/-- A call that is given up in time has an answer. -/
theorem Call.exists_answer_within_go {late : α} {c : Call α} (left : Nat) (steps : List Step) :
    ∃ a, (within.go late c left steps).answer = some a := by
  induction steps generalizing left with
  | nil =>
      rw [within.go]
      cases c.answer with
      | none => exact ⟨late, rfl⟩
      | some a => exact ⟨a, rfl⟩
  | cons step steps ih =>
      cases step with
      | cancel reach => exact ih left
      | work duration => exact ih (left - duration)
      | wait duration =>
          rw [within.go]
          by_cases hlate : left ≤ duration
          · rw [if_pos hlate]
            exact ⟨late, rfl⟩
          · rw [if_neg hlate]
            exact ih (left - duration)

theorem Call.exists_answer_within (limit : Nat) (late : α) (c : Call α) :
    ∃ a, (c.within limit late).answer = some a :=
  exists_answer_within_go limit c.steps

namespace Review

open Metrics (ReviewKind ReviewResult Sample count reviewTotal)

/-- What an answer to a question is counted as. -/
inductive Question.CountsAs : (q : Question) → q.Answer → ReviewResult → Prop where
  | allowed (query : AccessQuery) : CountsAs (.access query) (.ok true) .allow
  | denied (query : AccessQuery) : CountsAs (.access query) (.ok false) .deny
  | undecided (query : AccessQuery) (e : Error) : CountsAs (.access query) (.error e) .error
  | accepted (query : TokenQuery) {verdict : TokenVerdict} (h : verdict.statusError = none) :
      CountsAs (.token query) (.ok verdict) .allow
  | rejected (query : TokenQuery) {verdict : TokenVerdict} (h : verdict.statusError ≠ none) :
      CountsAs (.token query) (.ok verdict) .deny
  | unknown (query : TokenQuery) (e : Error) : CountsAs (.token query) (.error e) .error

/-- The result under which the end of a review is counted, given that for an answer. -/
def resultOf (result : α → ReviewResult) : Except Error α → ReviewResult
  | .ok a => result a
  | .error _ => .error

/-- The result under which a client counts an answer to a question. -/
def Question.result : (q : Question) → q.Answer → ReviewResult
  | .access _ => resultOf Client.accessResult
  | .token _ => resultOf Client.tokenResult

theorem Question.countsAs_result (q : Question) (answer : q.Answer) :
    q.CountsAs answer (q.result answer) := by
  cases q with
  | access query =>
      rcases answer with e | allowed
      · exact .undecided query e
      · cases allowed with
        | true => exact .allowed query
        | false => exact .denied query
  | token query =>
      rcases answer with e | verdict
      · exact .unknown query e
      · -- Whatever the authority says against a token, it is denied.
        cases herror : verdict.statusError with
        | none =>
            rw [show Question.result (.token query) (.ok verdict) = .allow from
              if_pos (Option.isNone_iff_eq_none.mpr herror)]
            exact .accepted query herror
        | some e =>
            have hsome : verdict.statusError ≠ none := by
              rw [herror]
              exact Option.some_ne_none e
            rw [show Question.result (.token query) (.ok verdict) = .deny from
              if_neg fun hnone => hsome (Option.isNone_iff_eq_none.mp hnone)]
            exact .rejected query hsome

/-! ## How a review ends -/

/-- How a review ends, given whether there is a request for it. Without one there is an error that
    nobody counts. With one there is an error that is counted, or an answer that is not yet. -/
inductive Exit.Ends (kind : ReviewKind) : Bool → Exit α → Prop where
  | unasked (e : Error) : Ends kind false ⟨.error e, []⟩
  | failed (e : Error) : Ends kind true (.failed kind e)
  | answered (a : α) : Ends kind true ⟨.ok a, []⟩

/-- Once the answers are counted as well, all that was asked is counted once. -/
theorem Exit.Ends.counted {kind : ReviewKind} {asked : Bool} {x : Exit α} (h : x.Ends kind asked)
    (result : α → ReviewResult) : (x.counting kind result).counted
      = if asked then [.review kind (resultOf result x.answer)] else [] := by
  cases h with
  | unasked e => rfl
  | failed e => rfl
  | answered a => rfl

section Exits

variable [Wording]

theorem ends_of_interpret (kind : ReviewKind) (read? : List UInt8 → Option α)
    (exchange : Exchange) : (Client.interpret kind read? exchange).Ends kind true := by
  cases exchange with
  | failure reason => exact .failed _
  | response status body =>
      rw [Client.interpret]
      by_cases hsuccess : status.isSuccess = true
      · rw [if_pos hsuccess]
        cases read? body with
        | none => exact .failed _
        | some a => exact .answered a
      · rw [if_neg hsuccess]
        exact .failed _

/-- Every request for a review ends in one of the ways. -/
theorem ends_of_post {c : Client} {network : Network σ} {kind : ReviewKind} {path : String}
    {read? : List UInt8 → Option α} {request : Option Outgoing} {memory : σ} {x : Exit α}
    (h : (c.post network kind path read? request memory).1.answer = some x) :
    x.Ends kind request.isSome := by
  rcases post_cases h with ⟨rfl, rfl⟩ | ⟨r, rfl, rfl | ⟨exchange, -, rfl⟩⟩
  · exact .unasked _
  · exact .failed _
  · exact ends_of_interpret kind read? exchange

/-- What is remembered to be counted for a review that is answered. -/
theorem countedBy_of_post {c : Client} {network : Network σ} {kind : ReviewKind} {path : String}
    {read? : List UInt8 → Option α} {request : Option Outgoing} {memory : σ}
    {answer : Except Error α} (result : α → ReviewResult)
    (h : ((c.post network kind path read? request memory).1.map Exit.answer).answer
      = some answer) :
    Client.countedBy ((c.post network kind path read? request memory).1.map
        (Exit.counting kind result))
      = if request.isSome then [.review kind (resultOf result answer)] else [] := by
  rcases Option.map_eq_some_iff.mp h with ⟨x, hx, rfl⟩
  rw [← (ends_of_post hx).counted result, Client.countedBy, Call.map, hx]
  rfl

/-- What is remembered to be counted for a question that is answered. -/
theorem metered_eq {c : Client} {network : Network σ} {q : Question} {memory : σ}
    {answer : q.Answer} (h : ((c.authority network).put q memory).1.answer = some answer)
    (before : List (List Sample)) :
    ((c.metered network).put q (memory, before)).2.2
      = before ++ [if (c.ask? q).isSome then [.review q.kind (q.result answer)] else []] := by
  cases q with
  | access query =>
      change ((c.authority network).access query memory).1.answer = _ at h
      rw [Client.authority_access] at h
      exact congrArg (before ++ [·]) (countedBy_of_post Client.accessResult h)
  | token query =>
      change ((c.authority network).token query memory).1.answer = _ at h
      rw [Client.authority_token] at h
      exact congrArg (before ++ [·]) (countedBy_of_post Client.tokenResult h)

end Exits

section Completions

variable [Wording]

/-- A review that came to an end: the question that a client put over a network, and the answer that
    it came to. -/
structure Completion (c : Client) (network : Network σ) where
  question : Question
  /-- What the network remembered when the question was put. -/
  memory : σ
  answer : question.Answer
  completes : ((c.authority network).put question memory).1.answer = some answer

namespace Completion

variable {c : Client} {network : Network σ}

/-- The result under which the review is counted. -/
def result (x : Completion c network) : ReviewResult :=
  x.question.result x.answer

/-- What is counted for the review: what is remembered at its end, and its duration. -/
def samples (x : Completion c network) : List Sample :=
  Review.samples ((c.metered network).put x.question (x.memory, [])).2.2
    [x.question.entry (some x.answer)]

/-- Every question comes to an answer, because the client gives up in time. -/
theorem exists_of_question (c : Client) (network : Network σ) (q : Question) (memory : σ) :
    ∃ x : Completion c network, x.question = q ∧ x.memory = memory := by
  have hpost : ∀ {β : Type} (kind : ReviewKind) (path : String) (read? : List UInt8 → Option β)
      (request : Option Outgoing),
      ∃ x, (c.post network kind path read? request memory).1.answer = some x := by
    intro β kind path read? request
    cases request with
    | none => exact ⟨_, rfl⟩
    | some outgoing => exact Call.exists_answer_within _ _ _
  cases q with
  | access query =>
      rcases hpost .access AccessQuery.path allowed? (c.accessRequest? query) with ⟨x, hx⟩
      refine ⟨⟨.access query, memory, x.answer, ?_⟩, rfl, rfl⟩
      change ((c.authority network).access query memory).1.answer = _
      rw [Client.authority_access]
      exact congrArg (Option.map Exit.answer) hx
  | token query =>
      rcases hpost .token TokenQuery.path verdict? (c.tokenRequest? query) with ⟨x, hx⟩
      refine ⟨⟨.token query, memory, x.answer, ?_⟩, rfl, rfl⟩
      change ((c.authority network).token query memory).1.answer = _
      rw [Client.authority_token]
      exact congrArg (Option.map Exit.answer) hx

/-- The result of a review is what its answer counts as. -/
theorem countsAs_result (x : Completion c network) : x.question.CountsAs x.answer x.result :=
  x.question.countsAs_result x.answer

/-- A question that cannot be posted comes to an error. -/
theorem result_of_not_posted (x : Completion c network) (h : c.ask? x.question = none) :
    x.result = .error := by
  rcases x with ⟨query | query, memory, answer, hanswer⟩
  · change ((c.authority network).access query memory).1.answer = _ at hanswer
    rw [Client.authority_access, show c.accessRequest? query = none from h] at hanswer
    cases hanswer
    rfl
  · change ((c.authority network).token query memory).1.answer = _ at hanswer
    rw [Client.authority_token, show c.tokenRequest? query = none from h] at hanswer
    cases hanswer
    rfl

/-- The review is of the kind. -/
def isOf (kind : ReviewKind) (x : Completion c network) : Bool :=
  x.question.kind = kind

/-- The review is of the kind and came to the result. -/
def isResult (kind : ReviewKind) (result : ReviewResult) (x : Completion c network) : Bool :=
  x.question.kind = kind ∧ x.result = result

/-! ## What one review adds -/

theorem samples_eq (x : Completion c network) :
    x.samples = .reviewDuration x.question.kind ::
      if (c.ask? x.question).isSome then [.review x.question.kind x.result] else [] := by
  rw [samples, metered_eq x.completes, List.nil_append]
  rcases x with ⟨query | query, memory, answer, hanswer⟩
  · exact List.append_nil _
  · exact List.append_nil _

/-- Each review is measured once, under its own kind. -/
theorem count_duration (x : Completion c network) (kind : ReviewKind) :
    count x.samples (.reviewDuration kind) = if x.isOf kind then 1 else 0 := by
  -- The result is a sample of another sort, so it does not count as a duration.
  have hrest : (if (c.ask? x.question).isSome then [Sample.review x.question.kind x.result]
      else []).count (.reviewDuration kind) = 0 := by
    rw [List.count_eq_zero]
    by_cases hasked : (c.ask? x.question).isSome = true
    · rw [if_pos hasked, List.mem_singleton]
      rintro ⟨⟩
    · rw [if_neg hasked]
      exact List.not_mem_nil
  have hfirst : (Sample.reviewDuration x.question.kind == .reviewDuration kind) = x.isOf kind := by
    rw [Bool.eq_iff_iff, beq_iff_eq, Sample.reviewDuration.injEq, isOf, decide_eq_true_eq]
  rw [count, samples_eq, List.count_cons, hrest, hfirst, Nat.zero_add]

/-- A review whose question was posted is counted once, under its own kind and its result. -/
theorem count_review (x : Completion c network) (kind : ReviewKind) (result : ReviewResult) :
    count x.samples (.review kind result)
      = if (c.ask? x.question).isSome && x.isResult kind result then 1 else 0 := by
  -- Only the second sample is a result, if there is one.
  have hfirst : (Sample.reviewDuration x.question.kind == .review kind result) = false := by
    rw [beq_eq_false_iff_ne]
    rintro ⟨⟩
  have hsecond : (Sample.review x.question.kind x.result == .review kind result)
      = x.isResult kind result := by
    rw [Bool.eq_iff_iff, beq_iff_eq, Sample.review.injEq, isResult, decide_eq_true_eq]
  rw [count, samples_eq, List.count_cons, hfirst, if_neg Bool.false_ne_true, Nat.add_zero]
  cases (c.ask? x.question).isSome with
  | true => rw [if_pos rfl, List.count_singleton, hsecond, Bool.true_and]
  | false => rfl

end Completion

/-! ## What a sequence of reviews adds -/

section Sequences

variable {c : Client} {network : Network σ}

/-- The events after a sequence of reviews. -/
def eventsAfter (events : List Sample) (done : List (Completion c network)) : List Sample :=
  done.foldl (fun events x => events ++ x.samples) events

/-- If each review adds at most one to a value, and does so if it has a property, then a sequence
    adds as many as there are reviews with the property. -/
theorem count_eventsAfter {s : Sample} {p : Completion c network → Bool}
    (hstep : ∀ x, count x.samples s = if p x then 1 else 0) (events : List Sample)
    (done : List (Completion c network)) :
    count (eventsAfter events done) s = count events s + done.countP p := by
  induction done generalizing events with
  | nil => rfl
  | cons x done ih =>
      have hone : count (events ++ x.samples) s = count events s + if p x then 1 else 0 := by
        rw [count, List.count_append, ← count, ← count, hstep]
      rw [eventsAfter, List.foldl_cons, ← eventsAfter, ih, hone, List.countP_cons]
      omega

/-- Every review has one of three results. -/
theorem countP_isResult (kind : ReviewKind) (done : List (Completion c network)) :
    done.countP (·.isResult kind .allow) + done.countP (·.isResult kind .deny)
      + done.countP (·.isResult kind .error) = done.countP (·.isOf kind) := by
  induction done with
  | nil => rfl
  | cons x done ih =>
      -- A review of the kind adds to one of the three, and any other to none.
      have hone : (if x.isResult kind .allow then 1 else 0)
          + (if x.isResult kind .deny then 1 else 0)
          + (if x.isResult kind .error then 1 else 0) = if x.isOf kind then 1 else 0 := by
        by_cases hkind : x.question.kind = kind
        · simp only [Completion.isResult, Completion.isOf, hkind, true_and, decide_true, if_true]
          cases x.result with
          | allow => rfl
          | deny => rfl
          | error => rfl
        · simp only [Completion.isResult, Completion.isOf, hkind, false_and, decide_false]
          rfl
      simp only [List.countP_cons]
      omega

end Sequences

/-! ## How reviews are counted -/

/-- The client can ask questions of a kind, as far as this can be told from its settings and files:
    the address of the questions is short enough, and the token in the file makes a header. -/
theorem canAsk_iff {files : Files} {s : Settings} {c : Client}
    (h : Client.ofFiles files s = .ok c) (kind : ReviewKind) : c.CanAsk kind ↔
      (Client.dropSlashes s.url ++ pathOf kind).utf8ByteSize ≤ Uri.maxLength ∧
      ∀ path ∈ s.bearerTokenFile, ∀ text, files.text path = .ok text →
        Writable (Text.trim text) := by
  have hfollows := Client.ofFiles_eq_ok_iff.mp h
  have hwritable : (∀ token ∈ c.bearerToken, Writable token) ↔
      ∀ path ∈ s.bearerTokenFile, ∀ text, files.text path = .ok text →
        Writable (Text.trim text) := by
    -- A client that is set up shows a token if a file is named, and this is what it holds.
    have htoken := hfollows.bearerToken
    generalize s.bearerTokenFile = file, c.bearerToken = shown at htoken
    cases htoken with
    | none =>
        exact ⟨fun _ path hmem => absurd hmem (Option.not_mem_none path),
          fun _ token hmem => absurd hmem (Option.not_mem_none token)⟩
    | @some path token hread =>
        rcases hread with ⟨text, htext, rfl⟩
        simp only [Option.mem_def, Option.some.injEq, forall_eq', htext, Except.ok.injEq]
  rw [Client.dropSlashes_eq_iff.mpr hfollows.baseUrl, ← hwritable]
  exact ⟨fun hcan => ⟨hcan.short, hcan.writable⟩, fun hcan => ⟨hcan.1, hcan.2⟩⟩

/-- Every question comes to an end, and each review that did is measured once, under its own kind.
    If the client can ask questions of this kind, it is counted once as well, under the result that
    its answer counts as, so that the numbers agree. If not, it is an error and not counted. Which
    of the two it is depends on the settings and the file with the token. -/
theorem reviews_counted {files : Files} {s : Settings} {c : Client}
    (h : Client.ofFiles files s = .ok c) (network : Network σ) :
    (∀ (q : Question) (memory : σ),
      ∃ x : Completion c network, x.question = q ∧ x.memory = memory) ∧
    (∀ x : Completion c network, x.question.CountsAs x.answer x.result) ∧
    (∀ kind, c.CanAsk kind ↔
      (Client.dropSlashes s.url ++ pathOf kind).utf8ByteSize ≤ Uri.maxLength ∧
      ∀ path ∈ s.bearerTokenFile, ∀ text, files.text path = .ok text →
        Writable (Text.trim text)) ∧
    ∀ (events : List Sample) (done : List (Completion c network)) (kind : ReviewKind),
      count (eventsAfter events done) (.reviewDuration kind)
        = count events (.reviewDuration kind) + done.countP (·.isOf kind) ∧
      (c.CanAsk kind →
        (∀ result, count (eventsAfter events done) (.review kind result)
          = count events (.review kind result) + done.countP (·.isResult kind result)) ∧
        reviewTotal (eventsAfter events done) kind
          = reviewTotal events kind + done.countP (·.isOf kind)) ∧
      (¬ c.CanAsk kind →
        (∀ result, count (eventsAfter events done) (.review kind result)
          = count events (.review kind result)) ∧
        ∀ x ∈ done, x.question.kind = kind → x.result = .error) := by
  refine ⟨Completion.exists_of_question c network, Completion.countsAs_result, canAsk_iff h,
    fun events done kind => ⟨?_, fun hcan => ?_, fun hcannot => ?_⟩⟩
  · exact count_eventsAfter (fun x => x.count_duration kind) events done
  · -- A review of this kind had a request, and a review of the other adds nothing here anyway.
    have hcount : ∀ result, count (eventsAfter events done) (.review kind result)
        = count events (.review kind result) + done.countP (·.isResult kind result) := by
      refine fun result => count_eventsAfter (fun x => ?_) events done
      rw [x.count_review]
      cases hresult : x.isResult kind result with
      | false => rw [Bool.and_false]
      | true =>
          have hkind : x.question.kind = kind := (of_decide_eq_true hresult).1
          rw [(isSome_ask?_iff h x.question).mpr (hkind ▸ hcan), Bool.and_true]
    refine ⟨hcount, ?_⟩
    have hsum := countP_isResult kind done
    rw [reviewTotal, reviewTotal, hcount, hcount, hcount]
    omega
  · -- No review of this kind had a request.
    have hposted : ∀ x : Completion c network, x.question.kind = kind →
        c.ask? x.question = none := by
      rintro x rfl
      rw [← Option.not_isSome_iff_eq_none, isSome_ask?_iff h]
      exact hcannot
    refine ⟨fun result => ?_, fun x _ hkind => x.result_of_not_posted (hposted x hkind)⟩
    have hnever : ∀ x : Completion c network, count x.samples (.review kind result)
        = if (fun _ : Completion c network => false) x then 1 else 0 := by
      intro x
      rw [x.count_review]
      cases hresult : x.isResult kind result with
      | false => rw [Bool.and_false]
      | true => rw [hposted x (of_decide_eq_true hresult).1, Option.isSome_none, Bool.false_and]
    rw [count_eventsAfter hnever, List.countP_false]
    rfl

end Completions

/-- A network that answers everything with an allowed access, and two access reviews and a token
    review. What allows an access says nothing about a token, which is denied. -/
theorem reviews_counted_mixed :
    let _ : Wording := .own
    let body := "\x7b\"status\":\x7b\"allowed\":true\x7d\x7d".toUTF8.toList
    let network : Network Unit := ⟨fun _ memory => (.instant (.response ⟨201⟩ body), memory)⟩
    let c : Client := ⟨"http://authority", none, 1000, ⟨none, none⟩⟩
    let query : AccessQuery := .impersonate "bob" ["eng"] .users "carol"
    ∃ done : List (Completion c network),
      done.map (·.question) = [.access query, .token ⟨"opaque"⟩, .access query] ∧
      count (eventsAfter [] done) (.review .access .allow) = 2 ∧
      count (eventsAfter [] done) (.review .token .deny) = 1 ∧
      reviewTotal (eventsAfter [] done) .access = 2 ∧
      count (eventsAfter [] done) (.reviewDuration .access) = 2 := by
  intro _ body network c query
  have hclient : Client.ofFiles (fun _ => .error .noSuchFile)
      ⟨"http://authority", 1000, none, none, none, none⟩ = .ok c := rfl
  have hcan : ∀ kind, c.CanAsk kind := by
    rintro (_ | _)
    · exact ⟨by decide +kernel, fun token hmem => absurd hmem (Option.not_mem_none token)⟩
    · exact ⟨by decide +kernel, fun token hmem => absurd hmem (Option.not_mem_none token)⟩
  have hallowed : ((c.authority network).put (.access query) ()).1.answer = some (.ok true) := by
    decide +kernel
  have hdenied : ((c.authority network).put (.token ⟨"opaque"⟩) ()).1.answer
      = some (.ok ⟨"", [], some "token is not authenticated"⟩) := by
    decide +kernel
  let allowed : Completion c network := ⟨.access query, (), .ok true, hallowed⟩
  let denied : Completion c network := ⟨.token ⟨"opaque"⟩, (), .ok _, hdenied⟩
  rcases reviews_counted hclient network with ⟨-, -, -, hcounts⟩
  rcases hcounts [] [allowed, denied, allowed] .access with ⟨hduration, haccess, -⟩
  rcases hcounts [] [allowed, denied, allowed] .token with ⟨-, htoken, -⟩
  exact ⟨[allowed, denied, allowed], rfl, (haccess (hcan .access)).1 .allow,
    (htoken (hcan .token)).1 .deny, (haccess (hcan .access)).2, hduration⟩

/-- Not every review that came to an end is counted. With a line break in the token there is no
    request, and the error that is answered is not counted. -/
theorem not_reviews_counted :
    let _ : Wording := .own
    ¬ ∀ (files : Files) (s : Settings) (c : Client) (network : Network Unit)
      (x : Completion c network), Client.ofFiles files s = .ok c →
        count x.samples (.review x.question.kind x.result) = 1 := by
  intro _ h
  let files : Files := fun _ => .ok [0x61, 0x0A, 0x62]
  let c : Client := ⟨"http://authority", some "a\nb", 1000, ⟨none, none⟩⟩
  let network : Network Unit := ⟨fun _ memory => (.silent, memory)⟩
  have hclient : Client.ofFiles files ⟨"http://authority", 1000, some "tok", none, none, none⟩
      = .ok c := by
    decide +kernel
  rcases Completion.exists_of_question c network (.token ⟨"opaque"⟩) () with ⟨x, hquestion, -⟩
  have hone := h files _ c network x hclient
  have hasked : c.ask? x.question = none := by
    rw [hquestion]
    decide +kernel
  rw [x.count_review, hasked, Option.isSome_none, Bool.false_and] at hone
  exact absurd hone (by decide)

end Review

end ForwardAuth
