import ForwardAuth.Proofs.Scope
import ForwardAuth.Resolution.Progress
import Mathlib.Tactic.Choose

/-!
# Resolutions as dialogues

A resolution asks the authority at most a few questions, one after another, and each of them depends
on the answers that came before. `Dialogue` is that dependency and nothing else: either everything
is settled, or there is a question and, for each answer to it, the dialogue that follows. What is
done with structured tokens asks nobody, and what follows it depends on what was done with tokens
before.

What a dialogue leaves out is what makes two runs of one request differ: who answers, how long it
takes, and whether the request is still alive. `Dialogue.hold` puts them back. It is the computation
in which the questions are put to an authority within a scope. A computation is `Uniform` when it is
that of one dialogue, the same for every authority. A statement about two runs of it is then an
induction on the dialogue, with one case for all questions, and it need not look at certificates,
tokens or headers again.

The lemmas about `runFrom` say once what one step can do to the progress of a resolution. A question
does nothing if it is hindered, and otherwise adds one review and takes the time of its call; an
inspection of a token is listed, and does nothing else.

## Main definitions

* `Review.Question`: A question of either kind.
* `Authority.put`: The call that a question starts.
* `Resolving.runFrom`: The run of a computation from the progress made so far.
* `Resolving.put`: The computation that asks one question.
* `Dialogue`: The questions of a computation, each after the answers before it.
* `Dialogue.andThen`: A dialogue that goes on with the result of another.
* `Dialogue.hold`: The dialogue with an authority.
* `Uniform`: A computation is one dialogue with any authority.
* `AsksOnly`: A computation begins reviews of certain questions only.

## Theorems

* `question_entry`: The question of an entry that was made for it.
* `runFrom_bind`: The run of two computations in a row.
* `runFrom_bind_eq_ok`: Both computations of a successful run are successful.
* `runFrom_ofExcept`: A step that asks nobody leaves the progress alone.
* `runFrom_put_of_hindrance`: A hindered question changes nothing.
* `runFrom_put_of_begun`: A question that is put adds one review.
* `runFrom_put_eq_ok`: A question that was answered was put, and its answer received.
* `runFrom_inspect`: An inspection is listed, and asks nobody.
* `inspect_eq_bind`: An inspection whose result depends on what was done before, as two steps.
* `hold_andThen`: A dialogue that goes on is held as two computations in a row.
* `uniform_ofExcept`, `uniform_put`, `uniform_inspect`, `uniform_bind`, `uniform_forM`: How uniform
  computations are put together.
* `asksOnly_mono`: A weaker condition on the questions.
* `asksOnly_ofExcept`, `asksOnly_put`, `asksOnly_inspect`, `asksOnly_bind`, `asksOnly_forM`: The
  same for computations that ask certain questions only.
* `asksOnly_hold`: A dialogue begins reviews of some questions.
-/

namespace ForwardAuth

namespace Review

/-- A question to the authority, of either kind. -/
inductive Question where
  | access (query : AccessQuery)
  | token (query : TokenQuery)
  deriving DecidableEq, Repr

/-- What a question is answered with. -/
abbrev Question.Answer : Question → Type
  | access _ => Except Error Bool
  | token _ => Except Error TokenVerdict

/-- The review that a question begins. -/
def Question.entry : (q : Question) → Option q.Answer → Entry
  | access query, answer => .access query answer
  | token query, answer => .token query answer

/-- The question that a review began with. -/
def Entry.question : Entry → Question
  | access query _ => .access query
  | token query _ => .token query

theorem question_entry (q : Question) (answer : Option q.Answer) :
    (q.entry answer).question = q := by
  cases q with
  | access query => rfl
  | token query => rfl

end Review

open Review (Question)

variable {σ α β : Type}

/-- The call that a question starts. -/
def Authority.put (A : Authority σ) : (q : Question) → σ → Call q.Answer × σ
  | .access query, memory => A.access query memory
  | .token query, memory => A.token query memory

/-- What an ended call means for the resolution that waited for it. -/
def Ending.result : Ending α → Except Resolution.Stop α
  | .answered a => .ok a
  | .interrupted cause => .error (.refused cause.refusal)
  | .pending => .error .pending

namespace Resolution

namespace Resolving

/-- The run of a computation from the progress made so far. -/
def runFrom (x : Resolving σ α) (p : Progress σ) : Except Stop α × Progress σ :=
  x.run.run p

/-- Asks the authority a question within the scope of the request. -/
def put (A : Authority σ) (q : Question) : Resolving σ q.Answer :=
  ask (A.put q) q.entry

theorem runFrom_pure (a : α) (p : Progress σ) : (pure a : Resolving σ α).runFrom p = (.ok a, p) :=
  rfl

theorem runFrom_refuse (cause : Refusal) (p : Progress σ) :
    (refuse cause : Resolving σ α).runFrom p = (.error (.refused cause), p) := rfl

theorem runFrom_refuse_ne_ok (cause : Refusal) (a : α) (p p' : Progress σ) :
    (refuse cause : Resolving σ α).runFrom p ≠ (.ok a, p') := by
  rw [runFrom_refuse]
  intro h
  exact absurd (congrArg Prod.fst h) (by simp only [reduceCtorEq, not_false_eq_true])

/-- A step that asks nobody leaves the progress alone. -/
theorem runFrom_ofExcept (result : Except Refusal α) (p : Progress σ) :
    (ofExcept result).runFrom p = (result.mapError Stop.refused, p) := by
  cases result with
  | ok a => rfl
  | error cause => rfl

theorem runFrom_bind (x : Resolving σ α) (f : α → Resolving σ β) (p : Progress σ) :
    (x >>= f).runFrom p =
      match x.runFrom p with
      | (.ok a, p') => (f a).runFrom p'
      | (.error stop, p') => (.error stop, p') := by
  -- The transformer goes on by a match on the result, within the state it has then.
  change (ExceptT.bindCont f (x.runFrom p).1 : StateM (Progress σ) _) (x.runFrom p).2 = _
  rcases x.runFrom p with ⟨stop | a, p'⟩
  · rfl
  · rfl

/-- Both computations of a successful run are successful. -/
theorem runFrom_bind_eq_ok (x : Resolving σ α) (f : α → Resolving σ β) (p p'' : Progress σ) (b : β)
    (h : (x >>= f).runFrom p = (.ok b, p'')) :
    ∃ a p', x.runFrom p = (.ok a, p') ∧ (f a).runFrom p' = (.ok b, p'') := by
  rw [runFrom_bind] at h
  rcases hx : x.runFrom p with ⟨stop | a, p'⟩
  · rw [hx] at h
    exact absurd (congrArg Prod.fst h) (by simp only [reduceCtorEq, not_false_eq_true])
  · rw [hx] at h
    exact ⟨a, p', rfl, h⟩

theorem runFrom_ofExcept_eq_ok (result : Except Refusal α) (p p' : Progress σ) (a : α)
    (h : (ofExcept result).runFrom p = (.ok a, p')) : result = .ok a ∧ p' = p := by
  cases result with
  | ok b =>
      rw [runFrom_ofExcept] at h
      injection h with hb hp
      injection hb with hb
      exact ⟨by rw [hb], hp.symm⟩
  | error cause => exact absurd h (runFrom_refuse_ne_ok cause a p p')

theorem runFrom_put_of_hindrance (A : Authority σ) (q : Question) (p : Progress σ)
    (cause : Interruption) (h : p.scope.hindrance? = some cause) :
    (put A q).runFrom p = (.error (.refused cause.refusal), p) := by
  unfold runFrom put ask ExceptT.run StateT.run
  simp only [Scope.run_of_hindrance _ _ cause h]

/-- A question that is put adds one review, and ends as its call does. -/
theorem runFrom_put_of_begun (A : Authority σ) (q : Question) (p : Progress σ)
    (ending : Ending q.Answer) (scope : Scope)
    (h : p.scope.run (A.put q p.authority).1 = (.begun ending, scope)) :
    (put A q).runFrom p =
      (ending.result, { p with
        scope, authority := (A.put q p.authority).2,
        reviews := p.reviews ++ [q.entry ending.answer?] }) := by
  unfold runFrom put ask ExceptT.run StateT.run
  simp only [h]
  cases ending with
  | answered a => rfl
  | interrupted cause => rfl
  | pending => rfl

/-- A question that was answered was put, and its answer was received. -/
theorem runFrom_put_eq_ok (A : Authority σ) (q : Question) (p p' : Progress σ) (a : q.Answer)
    (h : (put A q).runFrom p = (.ok a, p')) :
    ∃ scope, p.scope.run (A.put q p.authority).1 = (.begun (.answered a), scope) ∧
      p' = { p with
        scope, authority := (A.put q p.authority).2,
        reviews := p.reviews ++ [q.entry (some a)] } := by
  rcases hs : p.scope.hindrance? with _ | cause
  · have hrun := Scope.run_of_alive p.scope (A.put q p.authority).1 hs
    rcases hf : p.scope.follow (A.put q p.authority).1.answer (A.put q p.authority).1.steps with
      ⟨ending, scope⟩
    rw [hf] at hrun
    rw [runFrom_put_of_begun A q p ending scope hrun] at h
    injection h with hresult hp
    -- Of the ways in which a call ends, only an answer is a success.
    cases ending with
    | answered b =>
        injection hresult with hb
        rw [hb] at hrun hp
        exact ⟨scope, hrun, hp.symm⟩
    | interrupted cause => exact absurd hresult (by simp only [Ending.result, reduceCtorEq,
        not_false_eq_true])
    | pending => exact absurd hresult (by simp only [Ending.result, reduceCtorEq,
        not_false_eq_true])
  · rw [runFrom_put_of_hindrance A q p cause hs] at h
    exact absurd (congrArg Prod.fst h) (by simp only [reduceCtorEq, not_false_eq_true])

theorem runFrom_inspect (inspection : Inspection) (result : List Inspection → Except Refusal α)
    (p : Progress σ) :
    (inspect inspection result : Resolving σ α).runFrom p =
      ((result p.inspections).mapError Stop.refused,
        { p with inspections := p.inspections ++ [inspection] }) := rfl

/-- An inspection is a step that tells what was done before, and then one that asks nobody. -/
theorem inspect_eq_bind (inspection : Inspection) (result : List Inspection → Except Refusal α) :
    (inspect inspection result : Resolving σ α) =
      inspect inspection .ok >>= fun before => .ofExcept (result before) := by
  funext p
  change (inspect inspection result).runFrom p = (inspect inspection .ok >>= _).runFrom p
  rw [runFrom_bind, runFrom_inspect, runFrom_inspect]
  exact (runFrom_ofExcept _ _).symm

end Resolving

/-- The questions of a computation, each after the answers before it. -/
inductive Dialogue (α : Type) where
  /-- No question is left. -/
  | settled (result : Except Refusal α)
  /-- A question, and what follows each answer to it. -/
  | ask (question : Question) (next : question.Answer → Dialogue α)
  /-- Something is done with a structured token, and what follows depends on what was done with
      tokens before. -/
  | inspect (inspection : Inspection) (next : List Inspection → Dialogue α)

namespace Dialogue

/-- A dialogue that goes on with the result of another. -/
def andThen (f : α → Dialogue β) : Dialogue α → Dialogue β
  | .settled (.ok a) => f a
  | .settled (.error cause) => .settled (.error cause)
  | .ask question next => .ask question fun answer => (next answer).andThen f
  | .inspect inspection next => .inspect inspection fun before => (next before).andThen f

/-- The dialogue with an authority. -/
def hold (A : Authority σ) : Dialogue α → Resolving σ α
  | .settled result => .ofExcept result
  | .ask question next => Resolving.put A question >>= fun answer => (next answer).hold A
  | .inspect inspection next =>
    Resolving.inspect inspection .ok >>= fun before => (next before).hold A

theorem hold_settled (A : Authority σ) (result : Except Refusal α) :
    (settled result).hold A = .ofExcept result := rfl

theorem hold_ask (A : Authority σ) (q : Question) (next : q.Answer → Dialogue α) :
    (ask q next).hold A = Resolving.put A q >>= fun answer => (next answer).hold A := rfl

theorem hold_inspect (A : Authority σ) (inspection : Inspection)
    (next : List Inspection → Dialogue α) :
    (inspect inspection next).hold A =
      Resolving.inspect inspection .ok >>= fun before => (next before).hold A := rfl

theorem hold_andThen (A : Authority σ) (f : α → Dialogue β) (d : Dialogue α) :
    (d.andThen f).hold A = d.hold A >>= fun a => (f a).hold A := by
  induction d with
  | settled result =>
      cases result with
      | ok a => rfl
      | error cause => rfl
  | ask question next ih =>
      -- Both sides ask the same question, and go on alike after each answer.
      rw [andThen, hold_ask, hold_ask, bind_assoc]
      congr 1
      funext answer
      exact ih answer
  | inspect inspection next ih =>
      rw [andThen, hold_inspect, hold_inspect, bind_assoc]
      congr 1
      funext before
      exact ih before

end Dialogue

/-- A computation is one dialogue with any authority: whoever answers, it asks the same questions
    after the same answers. -/
def Uniform (x : (σ : Type) → Authority σ → Resolving σ α) : Prop :=
  ∃ d : Dialogue α, ∀ (σ : Type) (A : Authority σ), x σ A = d.hold A

theorem uniform_ofExcept (result : Except Refusal α) : Uniform fun _ _ => .ofExcept result :=
  ⟨.settled result, fun _ _ => rfl⟩

theorem uniform_put (q : Question) : Uniform fun _ A => Resolving.put A q := by
  -- The dialogue that asks the question and ends with whatever is answered.
  refine ⟨.ask q fun answer => .settled (.ok answer), fun σ A => ?_⟩
  exact (bind_pure (Resolving.put A q)).symm

theorem uniform_inspect (inspection : Inspection) (result : List Inspection → Except Refusal α) :
    Uniform fun _ _ => .inspect inspection result :=
  ⟨.inspect inspection fun before => .settled (result before),
    fun _ _ => Resolving.inspect_eq_bind inspection result⟩

/-- Two uniform computations in a row are uniform: the dialogue of the first goes on with that of
    the second. -/
theorem uniform_bind {x : (σ : Type) → Authority σ → Resolving σ α}
    {f : (σ : Type) → Authority σ → α → Resolving σ β} (hx : Uniform x)
    (hf : ∀ a, Uniform fun σ A => f σ A a) : Uniform fun σ A => x σ A >>= f σ A := by
  rcases hx with ⟨d, hd⟩
  -- One dialogue for each result of the first computation, and the same for every authority.
  choose next hnext using hf
  refine ⟨d.andThen next, fun σ A => ?_⟩
  change x σ A >>= f σ A = _
  rw [Dialogue.hold_andThen, hd]
  congr 1
  funext a
  exact hnext a σ A

/-- A uniform computation for each element of a list, one after another, is uniform. -/
theorem uniform_forM {ι : Type} {f : (σ : Type) → Authority σ → ι → Resolving σ PUnit}
    (items : List ι) (hf : ∀ i, Uniform fun σ A => f σ A i) :
    Uniform fun σ A => forM items (f σ A) := by
  induction items with
  | nil => exact ⟨.settled (.ok PUnit.unit), fun _ _ => rfl⟩
  | cons i items ih =>
      simp only [List.forM_cons]
      exact uniform_bind (hf i) fun _ => ih

/-- A computation begins reviews of certain questions only, however it ends. -/
def AsksOnly (P : Question → Prop) (x : Resolving σ α) : Prop :=
  ∀ p, ∃ begun, (x.runFrom p).2.reviews = p.reviews ++ begun ∧ ∀ entry ∈ begun, P entry.question

theorem asksOnly_mono {P Q : Question → Prop} {x : Resolving σ α} (hPQ : ∀ q, P q → Q q)
    (hx : AsksOnly P x) : AsksOnly Q x := by
  intro p
  rcases hx p with ⟨begun, hreviews, hP⟩
  exact ⟨begun, hreviews, fun entry hentry => hPQ _ (hP entry hentry)⟩

theorem asksOnly_ofExcept (P : Question → Prop) (result : Except Refusal α) :
    AsksOnly P (Resolving.ofExcept result : Resolving σ α) := by
  intro p
  rw [Resolving.runFrom_ofExcept]
  exact ⟨[], (List.append_nil _).symm, fun entry h => absurd h List.not_mem_nil⟩

theorem asksOnly_put (P : Question → Prop) (A : Authority σ) (q : Question) (h : P q) :
    AsksOnly P (Resolving.put A q) := by
  intro p
  rcases hs : p.scope.hindrance? with _ | cause
  · rw [Resolving.runFrom_put_of_begun A q p _ _ (Scope.run_of_alive _ _ hs)]
    refine ⟨_, rfl, fun entry hentry => ?_⟩
    rw [List.mem_singleton.mp hentry, Review.question_entry]
    exact h
  · rw [Resolving.runFrom_put_of_hindrance A q p cause hs]
    exact ⟨[], (List.append_nil _).symm, fun entry h => absurd h List.not_mem_nil⟩

theorem asksOnly_inspect (P : Question → Prop) (inspection : Inspection)
    (result : List Inspection → Except Refusal α) :
    AsksOnly P (Resolving.inspect inspection result : Resolving σ α) := by
  intro p
  rw [Resolving.runFrom_inspect]
  exact ⟨[], (List.append_nil _).symm, fun entry h => absurd h List.not_mem_nil⟩

theorem asksOnly_bind {P : Question → Prop} {x : Resolving σ α} {f : α → Resolving σ β}
    (hx : AsksOnly P x) (hf : ∀ a, AsksOnly P (f a)) : AsksOnly P (x >>= f) := by
  intro p
  rw [Resolving.runFrom_bind]
  rcases hx p with ⟨first, hfirst, hPfirst⟩
  rcases hrun : x.runFrom p with ⟨stop | a, p'⟩
  · rw [hrun] at hfirst
    exact ⟨first, hfirst, hPfirst⟩
  · rw [hrun] at hfirst
    -- What the second computation begins comes after what the first has begun.
    rcases hf a p' with ⟨second, hsecond, hPsecond⟩
    refine ⟨first ++ second, ?_, fun entry hentry => ?_⟩
    · rw [← List.append_assoc, ← hfirst]
      exact hsecond
    · rcases List.mem_append.mp hentry with h | h
      · exact hPfirst entry h
      · exact hPsecond entry h

theorem asksOnly_forM {ι : Type} {P : Question → Prop} {f : ι → Resolving σ PUnit}
    (items : List ι) (hf : ∀ i, AsksOnly P (f i)) : AsksOnly P (forM items f) := by
  induction items with
  | nil => exact asksOnly_ofExcept P (.ok PUnit.unit)
  | cons i items ih =>
      rw [List.forM_cons]
      exact asksOnly_bind (hf i) fun _ => ih

/-- A dialogue begins reviews of some questions, and takes none back. -/
theorem asksOnly_hold (A : Authority σ) (d : Dialogue α) : AsksOnly (fun _ => True) (d.hold A) := by
  induction d with
  | settled result => exact asksOnly_ofExcept _ result
  | ask question next ih =>
      rw [Dialogue.hold_ask]
      exact asksOnly_bind (asksOnly_put _ A question trivial) ih
  | inspect inspection next ih =>
      rw [Dialogue.hold_inspect]
      exact asksOnly_bind (asksOnly_inspect _ inspection _) ih

end Resolution

end ForwardAuth
