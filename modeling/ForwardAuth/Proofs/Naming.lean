import ForwardAuth.Proofs.Resolution

/-!
# Nobody acts without a name

An empty user name is no name. A certificate without a common name, a claim or a review may still
yield one, so the caller that the first stage of a resolution finds may be nameless. It gets no
further: it is refused before its headers are looked at, and before anything is asked about it.

From then on names are never lost. A target that is taken from a header is not blank, and so it is
not empty, and every question to the authority is about the caller, whose name has been checked.
Groups need no check at all, because an identity holds the proof that none of them repeats.

## Main definitions

* `Review.Question.IsNamed`: The question is about an access of someone with a name.

## Theorems

* `ne_empty_of_mem_texts?`: A value that is read from a header is not empty.
* `ofHeaders_eq_ok`: Targets are read from headers whose values are all texts.
* `username_assumed_ne_empty`: Who acts as someone acts as someone with a name.
* `ofRequest_congr`: The credential does not depend on the impersonation headers.
* `acting_of_nameless`: The second stage refuses a caller without a name.
* `asksOnly_resolving_named`: Every access that a resolution asks about is one of somebody.
* `resolve_names_someone`: Identities and questions have names, and a nameless caller is refused.
-/

namespace ForwardAuth

/-- The question, if it is about an access, is about someone with a name and with groups that do not
    repeat. -/
def Review.Question.IsNamed : Review.Question → Prop
  | .access query => query.actingUser ≠ "" ∧ query.actingGroups.Nodup
  | .token _ => True

theorem Impersonation.Targets.ne_empty_of_mem_texts? {headers : Http.Headers}
    {name : Http.HeaderName} {texts : List String} {text : String}
    (h : texts? headers name = some texts) (hmem : text ∈ texts) : text ≠ "" := by
  unfold texts? at h
  rw [Option.bind_eq_bind, Option.bind_eq_some_iff] at h
  rcases h with ⟨values, -, h⟩
  rw [Option.pure_def, Option.some.injEq] at h
  -- The last step of the reading keeps no empty text.
  rw [← h, List.mem_filter] at hmem
  intro hempty
  rw [hempty] at hmem
  exact absurd hmem.2 (by decide)

/-- Targets are read from headers whose values are all texts. -/
theorem Impersonation.Targets.ofHeaders_eq_ok {headers : Http.Headers} {t : Targets}
    (h : ofHeaders headers = .ok t) :
    ∃ users groups, texts? headers userHeader = some users ∧
      texts? headers groupHeader = some groups ∧ t = ⟨users.head?, groups⟩ := by
  unfold ofHeaders at h
  rcases husers : texts? headers userHeader with _ | users
  · rw [husers] at h
    injection h
  · rcases hgroups : texts? headers groupHeader with _ | groups
    · rw [husers, hgroups] at h
      injection h
    · rw [husers, hgroups] at h
      injection h with h
      exact ⟨users, groups, rfl, rfl, h.symm⟩

theorem Impersonation.Targets.user_ne_empty {headers : Http.Headers} {t : Targets}
    (h : ofHeaders headers = .ok t) {name : String} (hname : t.user = some name) : name ≠ "" := by
  rcases ofHeaders_eq_ok h with ⟨users, groups, husers, -, rfl⟩
  exact ne_empty_of_mem_texts? husers (List.mem_of_mem_head? hname)

theorem Credential.ofRequest_congr (request : Request) (headers : Http.Headers)
    (h : headers.values ⟨"authorization"⟩ = request.headers.values ⟨"authorization"⟩) :
    ofRequest { request with headers } = ofRequest request := by
  have htoken : Request.bearerToken? { request with headers } = request.bearerToken? := by
    unfold Request.bearerToken? Http.Headers.text? Http.Headers.first?
    rw [h]
  unfold ofRequest
  rw [htoken]

namespace Resolution

open Impersonation (Targets)

variable {σ : Type}

theorem username_assumed_ne_empty {headers : Http.Headers} {caller : Identity} {t : Targets}
    (hcaller : caller.username ≠ "") (ht : Targets.ofHeaders headers = .ok t) :
    (assumed caller t).username ≠ "" := by
  change t.user.getD caller.username ≠ ""
  rcases huser : t.user with _ | name
  · exact hcaller
  · exact Targets.user_ne_empty ht huser

/-- The second stage refuses a caller without a name, whatever the headers hold. -/
theorem acting_of_nameless (r : Resolver σ) (request : Request) (caller : Identity)
    (h : caller.username = "") : r.acting request caller = .refuse .emptyUsername := by
  unfold Resolver.acting
  rw [if_pos (by rw [h]; rfl)]

/-- Every access that a resolution asks about is one of somebody. -/
theorem asksOnly_resolving_named [Wording] (r : Resolver σ) (request : Request)
    (credential : Credential) :
    AsksOnly Review.Question.IsNamed (r.resolving request credential) := by
  rw [resolving_eq]
  refine asksOnly_bind ?_ fun caller => ?_
  · refine asksOnly_mono (fun q hq => ?_) (asksOnly_extract r.extractor r.authority credential)
    cases q with
    | access query => exact hq.elim
    | token query => trivial
  · -- The caller brings both properties along: its name was checked, its groups are an identity's.
    refine asksOnly_mono (fun q hq => ?_) (asksOnly_acting r request caller)
    rcases hq with ⟨hname, target, rfl⟩
    exact ⟨hname, caller.nodup_groups⟩

/-- A resolution whose caller has no name is refused for that and goes no further. -/
theorem resolve_of_nameless [Wording] (r : Resolver σ) (request : Request) (scope : Scope)
    (memory : σ) (caller : Identity) (p : Progress σ)
    (hcaller : (r.extractor.extract r.authority (.ofRequest request)).runFrom
      ⟨scope, memory, [], []⟩ = (.ok caller, p))
    (hname : caller.username = "") :
    r.resolve request scope memory = ⟨.error (.refused .emptyUsername), p⟩ := by
  have hrun : (r.resolving request (.ofRequest request)).runFrom ⟨scope, memory, [], []⟩
      = (.error (.refused .emptyUsername), p) := by
    rw [resolving_eq, Resolving.runFrom_bind, hcaller]
    change (r.acting request caller).runFrom p = _
    rw [acting_of_nameless r request caller hname, Resolving.runFrom_refuse]
  change Outcome.mk ((r.resolving request (.ofRequest request)).runFrom ⟨scope, memory, [], []⟩).1
    ((r.resolving request (.ofRequest request)).runFrom ⟨scope, memory, [], []⟩).2 = _
  rw [hrun]

/-- A resolution only ever acts for someone. The identity it gives has a name and no repeated group,
    and so has everyone it asks about. A caller without a name is refused for that: nothing is asked
    about it, and its impersonation headers, whatever they are, make no difference. -/
theorem resolve_names_someone [Wording] (r : Resolver σ) (request : Request) (scope : Scope)
    (memory : σ) :
    (∀ i, (r.resolve request scope memory).result = .ok i → i.username ≠ "" ∧ i.groups.Nodup) ∧
      (∀ query answer,
        .access query answer ∈ (r.resolve request scope memory).progress.reviews →
          query.actingUser ≠ "" ∧ query.actingGroups.Nodup) ∧
      ∀ caller p,
        (r.extractor.extract r.authority (.ofRequest request)).runFrom ⟨scope, memory, [], []⟩
          = (.ok caller, p) →
        caller.username = "" →
          (r.resolve request scope memory).result = .error (.refused .emptyUsername) ∧
          (∀ query answer,
            .access query answer ∉ (r.resolve request scope memory).progress.reviews) ∧
          ∀ headers : Http.Headers,
            (∀ name, name ≠ Impersonation.userHeader → name ≠ Impersonation.groupHeader →
              headers.values name = request.headers.values name) →
            r.resolve { request with headers } scope memory = r.resolve request scope memory := by
  refine ⟨fun i hi => ?_, fun query answer hentry => ?_, fun caller p hcaller hname => ?_⟩
  · rcases resolve_eq_ok r request scope memory i hi with
      ⟨caller, p, targets, -, hname, htargets, henforce⟩
    rw [(enforce_eq_ok henforce).1]
    exact ⟨username_assumed_ne_empty hname htargets, (assumed caller targets).nodup_groups⟩
  · rcases asksOnly_resolving_named r request (.ofRequest request) ⟨scope, memory, [], []⟩ with
      ⟨begun, hreviews, hnamed⟩
    rw [List.nil_append] at hreviews
    exact hnamed (.access query answer) (hreviews ▸ hentry)
  · have hresolve := resolve_of_nameless r request scope memory caller p hcaller hname
    refine ⟨by rw [hresolve], fun query answer hentry => ?_, fun headers hheaders => ?_⟩
    · rcases asksOnly_extract r.extractor r.authority (.ofRequest request)
        ⟨scope, memory, [], []⟩ with ⟨begun, hreviews, htoken⟩
      rw [hcaller, List.nil_append] at hreviews
      rw [hresolve] at hentry
      exact htoken (.access query answer) (hreviews ▸ hentry)
    · -- Other headers mean another request, but the same credential, and so the same caller.
      have hcredential := Credential.ofRequest_congr request headers
        (hheaders ⟨"authorization"⟩ (by decide) (by decide))
      rw [hresolve]
      refine resolve_of_nameless r _ scope memory caller p ?_ hname
      rw [hcredential]
      exact hcaller

/-- A token that the authority takes for that of nobody is refused, with an unreadable user to act
    as and without one. -/
theorem resolve_nobody :
    let _ : Wording := .own
    let r : Resolver Script := ⟨⟨"name", .trusting⟩, .scripted⟩
    let token := (⟨"authorization"⟩, ⟨[0x42, 0x65, 0x61, 0x72, 0x65, 0x72, 0x20, 0x74], by decide⟩)
    let user := (Impersonation.userHeader, ⟨[0xFF], by decide⟩)
    let request : Request := ⟨"GET", "/", [user, token], none⟩
    let script : Script := ⟨[], [.instant (.ok ⟨"", [], none⟩)]⟩
    (r.resolve request .unbounded script).result = .error (.refused .emptyUsername) ∧
      r.resolve { request with headers := [token] } .unbounded script
        = r.resolve request .unbounded script := by
  intro _ r token user request script
  have hcaller : ((r.extractor.extract r.authority (.ofRequest request)).runFrom
      ⟨.unbounded, script, [], []⟩).1 = .ok ⟨"", [], List.nodup_nil⟩ := by
    rw [show Credential.ofRequest request = .bearer "t" by decide +kernel,
      extract_unstructured r.extractor _ "t" rfl]
    rfl
  have h := (resolve_names_someone r request .unbounded script).2.2 ⟨"", [], List.nodup_nil⟩ _
    (Prod.ext hcaller rfl) rfl
  refine ⟨h.1, h.2.2 [token] fun name huser _ => ?_⟩
  exact (Http.Headers.values_cons_of_ne (Ne.symm huser) [token]).symm

end Resolution

end ForwardAuth
