import ForwardAuth.Proofs.History

/-!
# A request on its own

Of a history of the whole server one request can see little: the server and its contexts, whether
it is shut down, and its own standing. `Solo` is this part. It has steps of its own, which know of
no other request, and `solo_of_step` says that they are the steps of the whole as far as the request
can see. An event of another request is no step for it at all, by `solo_of_step_other`, unless that
request shuts the server down.

What becomes of a request is known from this part, so it is the same in two histories that differ in
other requests only. And who cancels it is known as well, because the part changes this only by an
event of the request itself.

## Main definitions

* `Standing`, `Standing.outcome`: How a request stands, and how it would be resolved.
* `Solo`, `Solo.step`: The part of a history that one request can see.
* `State.solo`: What a request can see of a state.
* `Event.concerns`: The event is not about another request.

## Theorems

* `outcome?_eq_solo`, `isOver?_eq_solo`: What is seen of a request tells what becomes of it.
* `solo_of_step`: What an event does to a request that it is about.
* `solo_of_step_other`: What an event does to another request.
* `solo_after`, `solo_after_filter`: The same for histories.
* `cancels_of_after`: A request is cancelled by one of its own events.
-/

namespace ForwardAuth.Server

open Resolution (Outcome)
open Review (Network)

variable [Wording] {σ : Type}

/-- How a request stands: its context, the time at which it gives up, and whether it was cancelled
    itself. -/
structure Standing where
  context : Context
  deadline : Nat
  cancelled : Bool

/-- The outcome of resolving a request as it stands, with or without a server that is shut down. -/
def Standing.outcome (s : Standing) (down : Bool) (network : Network σ) (request : Request)
    (memory : σ) (now : Nat) : Outcome σ :=
  (s.context.resolver network).resolve request ⟨down, s.cancelled, some s.deadline, now⟩ memory

/-- The part of a history that one request can see. -/
@[ext]
structure Solo where
  server : Server
  generations : List Context
  /-- The server is shut down. -/
  down : Bool
  standing : Option Standing

namespace Solo

/-- The same part after an event, which is not about another request. -/
def step (so : Solo) : Event σ → Solo
  | .change change =>
    let server := (so.server.apply change).2
    { so with server, generations := so.generations ++ [server.context] }
  | .arrive _ generation now =>
    match so.standing, so.generations[generation]? with
    | none, some context =>
      { so with standing := some ⟨context, now + context.resolveTimeout, false⟩ }
    | _, _ => so
  | .cancel _ => { so with standing := so.standing.map fun s => { s with cancelled := true } }
  | .shutDown => { so with down := true }
  | .resolve _ network request memory now =>
    match so.standing with
    | some s =>
      let scope := (s.outcome so.down network request memory now).progress.scope
      { so with
        down := scope.shutdown || so.down
        standing := some { s with cancelled := scope.cancelled || s.cancelled } }
    | none => so

/-- The same part after several events. -/
def after (so : Solo) (events : List (Event σ)) : Solo :=
  events.foldl step so

end Solo

namespace State

/-- How a request stands that has arrived. -/
def standing (st : State) (a : Arrival) : Standing :=
  ⟨a.context, a.deadline, st.session.lifetimes.isEnded a.life⟩

/-- What a request can see of a state. -/
def solo (st : State) (id : Nat) : Solo :=
  ⟨st.server, st.generations, st.isDown, (st.arrivals id).map st.standing⟩

theorem resolve_eq_outcome {st : State} (h : st.Sound) {id : Nat} {a : Arrival}
    (ha : st.arrivals id = some a) (network : Network σ) (request : Request) (memory : σ)
    (now : Nat) :
    (a.resolve st.session network request memory now).1
      = (st.standing a).outcome st.isDown network request memory now := by
  rw [← isOuterEnded_eq_isDown h ha]
  exact a.resolve_eq st.session network request memory now

theorem outcome?_eq_solo {st : State} (h : st.Sound) (id : Nat) (network : Network σ)
    (request : Request) (memory : σ) (now : Nat) :
    st.outcome? id network request memory now = (st.solo id).standing.map fun s =>
      s.outcome (st.solo id).down network request memory now := by
  rw [outcome?, solo]
  rcases ha : st.arrivals id with _ | a
  · rfl
  · exact congrArg some (resolve_eq_outcome h ha network request memory now)

omit [Wording] in
theorem isOver?_eq_solo {st : State} (h : st.Sound) (id : Nat) :
    st.isOver? id = (st.solo id).standing.map fun s => (st.solo id).down || s.cancelled := by
  rw [isOver?, solo]
  rcases ha : st.arrivals id with _ | a
  · rfl
  · exact congrArg (fun outer => some (outer || _)) (isOuterEnded_eq_isDown h ha)

theorem standing_of_step {st st' : State} {e : Event σ} (hstep : st.Step e st') (a : Arrival) :
    st'.standing a
      = { st.standing a with
          cancelled := st.ends a.life e || (st.standing a).cancelled } := by
  rw [standing, isEnded_of_step hstep]
  rfl

-- A request lives within the lifetime of the server, and never within that of a request.
omit [Wording] in
theorem outer_ne_number {st : State} (h : st.Sound) {id other : Nat} {a b : Arrival}
    (ha : st.arrivals id = some a) (hb : st.arrivals other = some b) :
    (b.life.outer == some a.life.number) = false := by
  rw [(h.arrivals other b hb).1]
  exact beq_eq_false_iff_ne.mpr fun hnumber =>
    Nat.ne_of_lt (h.arrivals id a ha).2.1 (Option.some.inj hnumber)

-- The number of a request is not that of the server, and not that of another request.
theorem ends_of_other {st : State} (h : st.Sound) {id : Nat} {a : Arrival}
    (ha : st.arrivals id = some a) {e : Event σ} (he : e.request? ≠ some id) :
    st.ends a.life e = false := by
  rcases h.kept with ⟨c, hkept⟩
  rcases h.arrivals id a ha with ⟨-, hpos, -⟩
  -- Two requests that share a number are one.
  have hother : ∀ other b, some other ≠ some id → st.arrivals other = some b →
      (a.life.number == b.life.number) = false := fun other b hother hb =>
    beq_eq_false_iff_ne.mpr fun hnumber =>
      hother (congrArg some (h.apart other id b a hb ha hnumber.symm))
  cases e with
  | change change => rfl
  | arrive other generation now => rfl
  | cancel other =>
      rw [ends, Option.any_eq_false]
      exact fun b hb => hother other b he hb
  | shutDown =>
      rw [ends, hkept.shutdown]
      exact beq_eq_false_iff_ne.mpr (Nat.ne_of_gt hpos)
  | resolve other network request memory now =>
      rw [ends, Option.any_eq_false]
      intro b hb
      simp only [outer_ne_number h ha hb, hother other b he hb, Bool.and_false, Bool.or_self]

theorem arrivals_of_step {st st' : State} {e : Event σ} (hstep : st.Step e st') {id : Nat}
    (he : e.request? ≠ some id) : st'.arrivals id = st.arrivals id := by
  cases hstep with
  | arrive now hid hcontext => exact if_neg fun hid => he (congrArg some hid.symm)
  | _ => rfl

-- Where an event is not about a request, the request stands as before.
theorem standing_of_other {st st' : State} (h : st.Sound) {e : Event σ} (hstep : st.Step e st')
    (id : Nat) (he : e.request? ≠ some id) :
    (st'.arrivals id).map st'.standing = (st.arrivals id).map st.standing := by
  rw [arrivals_of_step hstep he]
  rcases ha : st.arrivals id with _ | a
  · rfl
  · rw [Option.map_some, Option.map_some, standing_of_step hstep, ends_of_other h ha he]
    rfl

theorem step_solo_of_ignores {st : State} {e : Event σ} (h : st.Ignores e) {id : Nat}
    (he : e.request? = some id) : (st.solo id).step e = st.solo id := by
  cases e with
  | change change => exact h.elim
  | arrive id' generation now =>
      obtain rfl := Option.some.inj he
      rcases ha : st.arrivals id' with _ | a
      · have hcontext := h.resolve_left fun hsome => hsome ha
        simp only [Solo.step, solo, ha, hcontext, Option.map_none]
      · simp only [Solo.step, solo, ha, Option.map_some]
  | cancel id' =>
      obtain rfl := Option.some.inj he
      have ha : st.arrivals id' = none := h
      simp only [Solo.step, solo, ha, Option.map_none]
  | shutDown => exact h.elim
  | resolve id' network request memory now =>
      obtain rfl := Option.some.inj he
      have ha : st.arrivals id' = none := h
      simp only [Solo.step, solo, ha, Option.map_none]

/-- A resolution ends the lifetime of the server if this was cancelled on the way. -/
theorem ends_resolve_server {st : State} (h : st.Sound) {id : Nat} {a : Arrival}
    (ha : st.arrivals id = some a) (network : Network σ) (request : Request) (memory : σ)
    (now : Nat) :
    st.ends ⟨0, none⟩ (.resolve id network request memory now)
      = ((st.standing a).outcome st.isDown network request memory
          now).progress.scope.shutdown := by
  rcases h.arrivals id a ha with ⟨houter, hpos, -⟩
  have hnumber : ((0 : Nat) == a.life.number) = false :=
    beq_eq_false_iff_ne.mpr (Nat.ne_of_lt hpos)
  rw [ends, ha, Option.any_some, resolve_eq_outcome h ha, houter]
  change (_ && true || _ && (0 == a.life.number)) = _
  rw [hnumber, Bool.and_true, Bool.and_false, Bool.or_false]

/-- A resolution ends the lifetime of its request if this was cancelled on the way. -/
theorem ends_resolve_request {st : State} (h : st.Sound) {id : Nat} {a : Arrival}
    (ha : st.arrivals id = some a) (network : Network σ) (request : Request) (memory : σ)
    (now : Nat) :
    st.ends a.life (.resolve id network request memory now)
      = ((st.standing a).outcome st.isDown network request memory
          now).progress.scope.cancelled := by
  rw [ends, ha, Option.any_some, resolve_eq_outcome h ha]
  simp only [outer_ne_number h ha ha, beq_self_eq_true, Bool.and_false, Bool.and_true,
    Bool.false_or]

/-- An event that is not about another request is, for this request, a step of its own. -/
theorem solo_of_step {st st' : State} (h : st.Sound) {e : Event σ} (hstep : st.Step e st')
    (id : Nat) (he : ∀ other, e.request? = some other → other = id) :
    st'.solo id = (st.solo id).step e := by
  have hdown := isDown_of_step h hstep
  have hstanding := standing_of_step hstep
  have hother := standing_of_other h hstep id
  cases hstep with
  | ignored hignored =>
      rcases hrequest : e.request? with _ | other
      · -- Only events about requests are ever ignored.
        cases e with
        | change change => exact hignored.elim
        | shutDown => exact hignored.elim
        | _ => exact absurd hrequest (Option.some_ne_none _)
      · exact (step_solo_of_ignores hignored (he other hrequest ▸ hrequest)).symm
  | change change =>
      -- A change of the server is seen by all, and it is no change of how anyone stands.
      exact Solo.ext rfl rfl hdown (hother (Option.some_ne_none id).symm)
  | @arrive id' generation context now hid hcontext =>
      obtain rfl := he id' rfl
      have hnew : (st.solo id').step (.arrive id' generation now : Event σ) = { st.solo id' with
          standing := some ⟨context, now + context.resolveTimeout, false⟩ } := by
        simp only [Solo.step, solo, hid, hcontext, Option.map_none]
      rw [hnew]
      refine Solo.ext rfl rfl hdown ?_
      -- The lifetime of the request is the next one, so it is not among those that were ended.
      have hfresh : st.session.lifetimes.isEnded
          (st.session.lifetimes.startWithin context.shutdown).1 = false :=
        Bool.eq_false_iff.mpr fun hl => Nat.lt_irrefl _ (h.ended _ hl)
      change Option.map _ (if id' = id' then _ else st.arrivals id') = _
      rw [if_pos rfl, Option.map_some]
      exact congrArg (fun ended => some (Standing.mk _ _ ended)) hfresh
  | @cancel id' a ha =>
      obtain rfl := he id' rfl
      -- The number that is ended is that of the request, and so not that of the server.
      have hroot : st.ends ⟨0, none⟩ (.cancel id' : Event σ) = false := by
        rw [ends, ha, Option.any_some]
        exact beq_eq_false_iff_ne.mpr (Nat.ne_of_lt (h.arrivals id' a ha).2.1)
      have hself : st.ends a.life (.cancel id' : Event σ) = true := by
        rw [ends, ha, Option.any_some]
        exact beq_self_eq_true _
      refine Solo.ext rfl rfl (by rw [hroot] at hdown; exact hdown) ?_
      change (st.arrivals id').map _ = ((st.arrivals id').map st.standing).map _
      rw [ha, Option.map_some, hstanding, hself]
      rfl
  | shutDown =>
      rcases h.kept with ⟨c, hkept⟩
      have hroot : st.ends ⟨0, none⟩ (.shutDown : Event σ) = true := by
        rw [ends, hkept.shutdown]
        rfl
      exact Solo.ext rfl rfl (by rw [hroot] at hdown; exact hdown)
        (hother (Option.some_ne_none id).symm)
  | @resolve id' a network request memory now ha =>
      obtain rfl := he id' rfl
      -- Whatever is cancelled on the way, the same outcome shows it on both sides.
      have hroot := ends_resolve_server h ha network request memory now
      have hself := ends_resolve_request h ha network request memory now
      have hseen : (st.solo id').step (.resolve id' network request memory now)
          = { st.solo id' with
            down := ((st.standing a).outcome st.isDown network request memory
              now).progress.scope.shutdown || st.isDown
            standing := some { st.standing a with
              cancelled := ((st.standing a).outcome st.isDown network request memory
                now).progress.scope.cancelled || (st.standing a).cancelled } } := by
        simp only [Solo.step, solo, ha, Option.map_some]
      rw [hseen]
      refine Solo.ext rfl rfl (by rw [hroot] at hdown; exact hdown) ?_
      change (st.arrivals id').map _ = _
      rw [ha, Option.map_some, hstanding, hself]

/-- An event about another request is no step at all, as long as it does not shut the server
    down. -/
theorem solo_of_step_other {st st' : State} (h : st.Sound) {e : Event σ} (hstep : st.Step e st')
    {id other : Nat} (he : e.request? = some other) (hne : other ≠ id)
    (hlive : st'.isDown = false) : st'.solo id = st.solo id := by
  have hdown := isDown_of_step h hstep
  have hstanding := standing_of_other h hstep id
    (by rw [he]; exact fun hid => hne (Option.some.inj hid))
  rw [hlive, eq_comm, Bool.or_eq_false_iff] at hdown
  -- Only a change touches the server and its contexts, and it is about no request.
  refine Solo.ext ?_ ?_ (hlive.trans hdown.2.symm) hstanding
  · cases hstep with
    | change change => exact absurd he.symm (Option.some_ne_none other)
    | _ => rfl
  · cases hstep with
    | change change => exact absurd he.symm (Option.some_ne_none other)
    | _ => rfl

end State

/-- The event is not about another request. -/
def Event.concerns (id : Nat) (e : Event σ) : Bool :=
  e.request?.all (· == id)

namespace State

omit [Wording] in
theorem request?_of_concerns {id : Nat} {e : Event σ} (h : e.concerns id = true) :
    ∀ other, e.request? = some other → other = id := by
  intro other hother
  rw [Event.concerns, hother] at h
  exact eq_of_beq h

theorem solo_after {st : State} (h : st.Sound) (id : Nat) (events : List (Event σ))
    (hevents : ∀ e ∈ events, e.concerns id = true) :
    (st.after events).solo id = (st.solo id).after events := by
  induction events generalizing st with
  | nil => rfl
  | cons e events ih =>
      have hrest := ih (sound_of_step h (st.step_spec e)) fun e he =>
        hevents e (List.mem_cons_of_mem _ he)
      rw [solo_of_step h (st.step_spec e) id
        (request?_of_concerns (hevents e List.mem_cons_self))] at hrest
      exact hrest

/-- As long as the server is not shut down, a request sees a history as if there were no others. -/
theorem solo_after_filter {st : State} (h : st.Sound) (id : Nat) (events : List (Event σ))
    (hlive : (st.after events).isDown = false) :
    (st.after events).solo id = (st.solo id).after (events.filter (Event.concerns id)) := by
  induction events generalizing st with
  | nil => rfl
  | cons e events ih =>
      have hsound := sound_of_step h (st.step_spec e)
      have hrest := ih hsound hlive
      change ((st.step e).after events).solo id = _
      rw [hrest]
      cases hconcerns : e.concerns id with
      | true =>
          rw [List.filter_cons_of_pos hconcerns,
            solo_of_step h (st.step_spec e) id (request?_of_concerns hconcerns)]
          rfl
      | false =>
          rw [List.filter_cons_of_neg (by rw [hconcerns]; exact Bool.false_ne_true)]
          rcases hrequest : e.request? with _ | other
          · -- An event about no request concerns every one.
            rw [Event.concerns, hrequest] at hconcerns
            exact absurd hconcerns.symm Bool.false_ne_true
          · rw [Event.concerns, hrequest] at hconcerns
            -- A server that was shut down by then would be so to the end.
            have hstill : (st.step e).isDown = false := by
              rw [Bool.eq_false_iff]
              intro hdown
              have hend := (isDown_after hsound events hdown).symm.trans hlive
              exact absurd hend.symm Bool.false_ne_true
            rw [solo_of_step_other h (st.step_spec e) hrequest (ne_of_beq_false hconcerns) hstill]

end State

namespace Solo

/-- The request has arrived and was cancelled itself. -/
def isCancelled (so : Solo) : Bool :=
  so.standing.any Standing.cancelled

theorem cancels_of_step {so : Solo} {e : Event σ} (h : (so.step e).isCancelled = true) :
    so.isCancelled = true ∨ e.Cancels := by
  cases e with
  | change change => exact Or.inl h
  | arrive id generation now =>
      rcases hs : so.standing with _ | s
      · rcases hcontext : so.generations[generation]? with _ | context
        · rw [step, hs, hcontext] at h
          exact Or.inl h
        · -- A request that has just arrived is not cancelled.
          rw [step, hs, hcontext] at h
          exact absurd h Bool.false_ne_true
      · rw [step, hs] at h
        exact Or.inl h
  | cancel id => exact Or.inr trivial
  | shutDown => exact Or.inl h
  | resolve id network request memory now =>
      rcases hs : so.standing with _ | s
      · rw [step, hs] at h
        exact Or.inl h
      · rw [step, hs] at h
        have hold : s.cancelled = true → so.isCancelled = true := fun hc => by
          rw [isCancelled, hs]
          exact hc
        rcases (Bool.or_eq_true _ _).mp h with hscope | hc
        · exact (Resolution.cancels_of_resolve hscope).imp_left hold
        · exact Or.inl (hold hc)

/-- A request that was cancelled was cancelled by one of its own events. -/
theorem cancels_of_after {so : Solo} {events : List (Event σ)}
    (h : (so.after events).isCancelled = true) :
    so.isCancelled = true ∨ ∃ e ∈ events, e.Cancels := by
  induction events generalizing so with
  | nil => exact Or.inl h
  | cons e events ih =>
      rcases ih h with hstep | ⟨e', he', hcancels⟩
      · exact (cancels_of_step hstep).imp_right fun hcancels => ⟨e, List.mem_cons_self, hcancels⟩
      · exact Or.inr ⟨e', List.mem_cons_of_mem _ he', hcancels⟩

end Solo

end ForwardAuth.Server
