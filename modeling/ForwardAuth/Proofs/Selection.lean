import ForwardAuth.Proofs.HeaderText
import ForwardAuth.Proofs.Resolution
import Mathlib.Data.Option.Basic

/-!
# One credential decides

A request may carry a certificate, several `Authorization` headers and any other headers beside
them. A resolution looks at little of this. If the connection shows a certificate, it looks at the
first of the chain and at the impersonation headers. If it shows none, it looks at the first
`Authorization` value instead. Two requests that agree on that much are resolved in the same way,
whatever else they carry, and so nothing else in a request can be used to choose another way of
authentication.

The two stages say this almost by themselves. The first is a function of the credential, and of a
certificate chain it takes the first certificate only; the second reads the headers through the
targets. `resolve_congr` puts that together. The rest is about which credential a request offers,
and there the text of a header has to be taken apart: `Offers` says on the bytes of a value that it
offers a token, and `bearerToken?_eq_some_iff` that the token is read exactly then.

## Main definitions

* `Http.HeaderValue.Offers`: A header value offers a bearer token.
* `Request.SameTargets`: Two requests carry the same impersonation values.
* `Resolution.Alike`: Two requests are resolved and counted alike.

## Theorems

* `bearerToken?_eq_some_iff`: A token is read from the first value if that offers it.
* `ofRequest_of_leaf`, `ofRequest_of_no_chain`: Which credential a request offers.
* `ofHeaders_congr`: Targets depend on the impersonation values only.
* `resolve_congr`: A resolution depends on the first stage and on the targets.
* `asksOnly_resolving_certificate`: With a certificate nothing is asked about tokens.
* `resolve_decided_by_credential`: What a resolution looks at.
-/

namespace ForwardAuth

/-- The value offers a token: it is made of visible ASCII characters, spaces and tabs, and reads
    `Bearer`, a space, and the token with only spaces and tabs around it. -/
structure Http.HeaderValue.Offers (value : HeaderValue) (token : String) : Prop where
  visible : ∀ b ∈ value.bytes, b = 0x09 ∨ (0x20 ≤ b ∧ b < 0x7F)
  written : ∃ before after : String,
    value.bytes = ("Bearer " ++ (before ++ (token ++ after))).toUTF8.toList ∧
    ∀ c ∈ before.toList ++ after.toList, c = ' ' ∨ c = '\t'
  not_empty : token ≠ ""
  bare : ∀ c, token.toList.head? = some c ∨ token.toList.getLast? = some c → c ≠ ' ' ∧ c ≠ '\t'

/-- The requests ask to act as the same user and groups. -/
structure Request.SameTargets (request other : Request) : Prop where
  users : request.headers.values Impersonation.userHeader
    = other.headers.values Impersonation.userHeader
  groups : request.headers.values Impersonation.groupHeader
    = other.headers.values Impersonation.groupHeader

namespace Request

-- The reader asks for a beginning, trims what follows it, and asks for something left.
theorem bearerToken?_eq (r : Request) (token : String) :
    r.bearerToken? = some token ↔ ∃ text, r.headers.text? ⟨"authorization"⟩ = some text ∧
      ∃ rest, text.toList = "Bearer ".toList ++ rest ∧ Text.trimChars rest = token.toList ∧
        token ≠ "" := by
  unfold bearerToken?
  rw [Option.bind_eq_bind, Option.bind_eq_some_iff]
  refine exists_congr fun text => and_congr_right fun _ => ?_
  simp only [Option.bind_eq_bind, Option.bind_eq_some_iff, Option.guard_eq_some', exists_and_left,
    exists_const, Option.pure_def, Option.some.injEq, List.isPrefixOf_iff_prefix,
    Bool.not_eq_true', List.isEmpty_eq_false_iff]
  constructor
  · rintro ⟨⟨rest, hrest⟩, hne, htoken⟩
    rw [← hrest, List.drop_left] at hne htoken
    refine ⟨rest, hrest.symm, ?_, fun hempty => hne ?_⟩
    · rw [← htoken, String.toList_ofList]
    · rw [hempty] at htoken
      exact String.ofList_eq_empty_iff.mp htoken
  · rintro ⟨rest, hrest, htrim, hne⟩
    rw [hrest, List.drop_left, htrim]
    refine ⟨List.prefix_append _ _, ?_, String.ofList_toList⟩
    exact fun hnil => hne (String.toList_eq_nil_iff.mp hnil)

end Request

namespace Http.HeaderValue

/-- A value offers the token that is read from its text. -/
theorem offers_iff (value : HeaderValue) (token : String) :
    value.Offers token ↔ ∃ text, value.text? = some text ∧
      ∃ rest, text.toList = "Bearer ".toList ++ rest ∧ Text.trimChars rest = token.toList ∧
        token ≠ "" := by
  constructor
  · rintro ⟨hvisible, ⟨before, after, hbytes, hblank⟩, hne, hbare⟩
    have htext : value.text? = some ("Bearer " ++ (before ++ (token ++ after))) :=
      (text?_eq_some_iff _ _).mpr ⟨fun b hb => (isTextByte_iff b).mpr (hvisible b hb), hbytes.symm⟩
    refine ⟨_, htext, before.toList ++ (token.toList ++ after.toList), ?_, ?_, hne⟩
    · rw [String.toList_append, String.toList_append, String.toList_append]
    · refine Text.trimChars_append _ _ _ (fun c hc => ?_) (fun c hc => ?_)
      · rcases hblank c hc with rfl | rfl
        · rfl
        · rfl
      · -- The ends of the token are characters of the value, so only two blanks are possible.
        have hmem : c ∈ token.toList := by
          rcases hc with hc | hc
          · exact List.mem_of_mem_head? hc
          · exact List.mem_of_getLast? hc
        have hmem' : c ∈ ("Bearer " ++ (before ++ (token ++ after))).toList := by
          simp only [String.toList_append, List.mem_append]
          exact Or.inr (Or.inr (Or.inl hmem))
        rw [Bool.eq_false_iff, Ne, isBlank_iff_of_text? htext hmem']
        rintro (h | h)
        · exact (hbare c hc).1 h
        · exact (hbare c hc).2 h
  · rintro ⟨text, htext, rest, hrest, htrim, hne⟩
    rcases (text?_eq_some_iff _ _).mp htext with ⟨hall, hbytes⟩
    rcases (Text.trimChars_eq_iff rest token.toList).mp htrim with
      ⟨before, after, hsplit, hblank, hbare⟩
    have hmem : ∀ c ∈ before ++ after, c ∈ text.toList := by
      intro c hc
      rw [hrest, hsplit]
      simp only [List.mem_append] at hc ⊢
      exact Or.inr (hc.imp id Or.inr)
    refine ⟨fun b hb => (isTextByte_iff b).mp (hall b hb),
      ⟨String.ofList before, String.ofList after, ?_, fun c hc => ?_⟩, hne, fun c hc => ?_⟩
    · rw [← hbytes]
      congr 2
      apply String.toList_injective
      simp only [String.toList_append, String.toList_ofList]
      rw [hrest, hsplit]
    · simp only [String.toList_ofList] at hc
      exact (isBlank_iff_of_text? htext (hmem c hc)).mp (hblank c hc)
    · have hc' := hbare c hc
      refine ⟨?_, ?_⟩
      · rintro rfl
        exact absurd hc' (by decide)
      · rintro rfl
        exact absurd hc' (by decide)

end Http.HeaderValue

/-- A token is read from the first value if that offers it. -/
theorem Request.bearerToken?_eq_some_iff (r : Request) (token : String) :
    r.bearerToken? = some token ↔
      ∃ value, r.headers.first? ⟨"authorization"⟩ = some value ∧ value.Offers token := by
  rw [bearerToken?_eq]
  unfold Http.Headers.text?
  simp only [Option.bind_eq_some_iff, Http.HeaderValue.offers_iff]
  constructor
  · rintro ⟨text, ⟨value, hvalue, htext⟩, hoffers⟩
    exact ⟨value, hvalue, text, htext, hoffers⟩
  · rintro ⟨value, hvalue, text, htext, hoffers⟩
    exact ⟨text, ⟨value, hvalue, htext⟩, hoffers⟩

namespace Credential

theorem ofRequest_of_leaf {request : Request} {leaf : Certificate.Encoded}
    {issuers : List Certificate.Encoded} (h : request.peerChain = some (leaf :: issuers)) :
    ofRequest request = .certificate (leaf :: issuers) := by
  unfold ofRequest
  rw [h]

/-- Without a certificate a request offers its token, or nothing. -/
theorem ofRequest_of_no_chain {request : Request}
    (h : request.peerChain = none ∨ request.peerChain = some []) :
    ofRequest request = request.bearerToken?.elim .anonymous .bearer := by
  unfold ofRequest
  rcases h with h | h
  · rw [h]
    cases request.bearerToken? with
    | none => rfl
    | some token => rfl
  · rw [h]
    cases request.bearerToken? with
    | none => rfl
    | some token => rfl

theorem ofRequest_eq_bearer_iff {request : Request}
    (h : request.peerChain = none ∨ request.peerChain = some []) (token : String) :
    ofRequest request = .bearer token ↔
      ∃ value, request.headers.first? ⟨"authorization"⟩ = some value ∧ value.Offers token := by
  rw [← Request.bearerToken?_eq_some_iff, ofRequest_of_no_chain h]
  rcases request.bearerToken? with _ | found
  · exact iff_of_false (by simp only [Option.elim, reduceCtorEq, not_false_eq_true])
      (by simp only [reduceCtorEq, not_false_eq_true])
  · simp only [Option.elim, bearer.injEq, Option.some.injEq]

theorem ofRequest_eq_anonymous_iff {request : Request}
    (h : request.peerChain = none ∨ request.peerChain = some []) :
    ofRequest request = .anonymous ↔
      ¬ ∃ token value, request.headers.first? ⟨"authorization"⟩ = some value ∧
        value.Offers token := by
  simp only [← ofRequest_eq_bearer_iff h, ofRequest_of_no_chain h]
  rcases request.bearerToken? with _ | found
  · exact iff_of_true rfl (by simp only [Option.elim, reduceCtorEq, exists_const,
      not_false_eq_true])
  · refine iff_of_false (by simp only [Option.elim, reduceCtorEq, not_false_eq_true]) ?_
    exact fun hnone => hnone ⟨found, rfl⟩

end Credential

/-- Targets depend on the impersonation values only. -/
theorem Impersonation.Targets.ofHeaders_congr {request other : Request}
    (h : request.SameTargets other) : ofHeaders request.headers = ofHeaders other.headers := by
  unfold ofHeaders texts?
  rw [h.users, h.groups]

namespace Resolution

variable {σ : Type}

section Runs

variable [Wording]

/-- The requests come to the same end, by the same reviews in the same order, and the same is
    counted for them. -/
structure Alike (r : Resolver σ) (scope : Scope) (memory : σ) (request other : Request) : Prop where
  outcome : r.resolve request scope memory = r.resolve other scope memory
  sample : sample? (.ofRequest request) (r.resolve request scope memory).result
    = sample? (.ofRequest other) (r.resolve other scope memory).result

/-- A resolution depends on the first stage and on the targets. -/
theorem resolve_congr (r : Resolver σ) (scope : Scope) (memory : σ) {request other : Request}
    (htargets : request.SameTargets other)
    (hextract : r.extractor.extract r.authority (.ofRequest request)
      = r.extractor.extract r.authority (.ofRequest other))
    (hmethod : (Credential.ofRequest request).method = (Credential.ofRequest other).method) :
    Alike r scope memory request other := by
  -- The second stage knows the request by its targets.
  have hacting : r.acting request = r.acting other := by
    funext caller
    unfold Resolver.acting
    rw [Impersonation.Targets.ofHeaders_congr htargets]
  have houtcome : r.resolve request scope memory = r.resolve other scope memory := by
    unfold Resolver.resolve
    rw [resolving_eq, resolving_eq, hextract, hacting]
  refine ⟨houtcome, ?_⟩
  unfold sample?
  rw [houtcome, hmethod]

/-- A certificate speaks for itself: nothing is asked about any token. -/
theorem asksOnly_resolving_certificate (r : Resolver σ) (request : Request)
    (chain : List Certificate.Encoded) :
    AsksOnly (fun q => ¬ q.IsToken) (r.resolving request (.certificate chain)) := by
  rw [resolving_eq]
  refine asksOnly_bind ?_ fun caller =>
    asksOnly_mono (fun q hq => ?_) (asksOnly_acting r request caller)
  · -- The first stage asks nothing at all, whether or not it can read the certificate.
    cases chain with
    | nil => exact asksOnly_ofExcept _ (.error .missingPeerCertificate)
    | cons leaf issuers => exact asksOnly_ofExcept _ (Certificate.identity leaf)
  · -- The second stage asks about access only.
    rcases hq with ⟨-, target, rfl⟩
    exact id

-- The first stage ends a resolution when it refuses.
theorem resolve_of_refused (r : Resolver σ) (request : Request) (scope : Scope) (memory : σ)
    (cause : Refusal)
    (h : r.extractor.extract r.authority (.ofRequest request) = Resolving.refuse cause) :
    r.resolve request scope memory = ⟨.error (.refused cause), ⟨scope, memory, [], []⟩⟩ := by
  unfold Resolver.resolve
  rw [resolving_eq, h]
  rfl

/-- What a resolution looks at. If two requests carry the same impersonation values, and chains with
    the same first certificate, they are resolved alike; the certificate may be unreadable, and even
    then nothing is asked about a token. If neither carries a chain, they are resolved alike as soon
    as their first `Authorization` values agree. The credential is then the token that this value
    offers, or nothing, and who offers nothing is refused without any review. -/
theorem resolve_decided_by_credential (r : Resolver σ) (scope : Scope) (memory : σ)
    (request other : Request) (htargets : request.SameTargets other) :
    (∀ leaf issuers issuers', request.peerChain = some (leaf :: issuers) →
      other.peerChain = some (leaf :: issuers') →
        Alike r scope memory request other ∧
        Credential.ofRequest request = .certificate (leaf :: issuers) ∧
        (∀ query answer, .token query answer ∉ (r.resolve request scope memory).progress.reviews) ∧
        ∀ cause, Certificate.identity leaf = .error cause →
          r.resolve request scope memory = ⟨.error (.refused cause), ⟨scope, memory, [], []⟩⟩) ∧
    ((request.peerChain = none ∨ request.peerChain = some []) →
      (other.peerChain = none ∨ other.peerChain = some []) →
      request.headers.first? ⟨"authorization"⟩ = other.headers.first? ⟨"authorization"⟩ →
        Alike r scope memory request other ∧
        (∀ token, Credential.ofRequest request = .bearer token ↔
          ∃ value, request.headers.first? ⟨"authorization"⟩ = some value ∧ value.Offers token) ∧
        (Credential.ofRequest request = .anonymous ↔
          ¬ ∃ token value, request.headers.first? ⟨"authorization"⟩ = some value ∧
            value.Offers token) ∧
        (Credential.ofRequest request = .anonymous →
          r.resolve request scope memory
            = ⟨.error (.refused .noCredentials), ⟨scope, memory, [], []⟩⟩)) := by
  refine ⟨fun leaf issuers issuers' hchain hother => ?_, fun hnone hother hfirst => ?_⟩
  · -- The other certificates of the chain are not looked at, and neither is any other header.
    have hcredential := Credential.ofRequest_of_leaf hchain
    have hextract : ∀ chain, r.extractor.extract r.authority (.certificate (leaf :: chain))
        = .ofExcept (Certificate.identity leaf) := fun _ => rfl
    refine ⟨resolve_congr r scope memory htargets ?_ ?_, hcredential, fun query answer hentry => ?_,
      fun cause hcause => resolve_of_refused r request scope memory cause ?_⟩
    · rw [hcredential, Credential.ofRequest_of_leaf hother, hextract, hextract]
    · rw [hcredential, Credential.ofRequest_of_leaf hother]
      rfl
    · rcases asksOnly_resolving_certificate r request (leaf :: issuers) ⟨scope, memory, [], []⟩ with
        ⟨begun, hreviews, hbegun⟩
      rw [← hcredential, List.nil_append] at hreviews
      exact hbegun (.token query answer) (hreviews ▸ hentry) trivial
    · rw [hcredential, hextract, hcause]
      rfl
  · -- Without a certificate the credential is a function of the first value.
    have hsame : Credential.ofRequest request = Credential.ofRequest other := by
      have htoken : request.bearerToken? = other.bearerToken? := by
        unfold Request.bearerToken? Http.Headers.text?
        rw [hfirst]
      rw [Credential.ofRequest_of_no_chain hnone, Credential.ofRequest_of_no_chain hother, htoken]
    refine ⟨resolve_congr r scope memory htargets (by rw [hsame]) (by rw [hsame]),
      Credential.ofRequest_eq_bearer_iff hnone, Credential.ofRequest_eq_anonymous_iff hnone,
      fun hanonymous => resolve_of_refused r request scope memory _ ?_⟩
    rw [hanonymous]
    rfl

end Runs

/-- An unreadable certificate beside a good token, and the same certificate alone. -/
theorem resolve_unreadable_leaf :
    let _ : Wording := .own
    let r : Resolver Script := ⟨⟨"sub", .trusting⟩, .scripted⟩
    let script : Script := ⟨[], [.instant (.ok ⟨"bob", [], none⟩)]⟩
    let token := (⟨"authorization"⟩, ⟨[0x42, 0x65, 0x61, 0x72, 0x65, 0x72, 0x20, 0x74], by decide⟩)
    let request : Request := ⟨"GET", "/", [token], some [[0x30], [0x05]]⟩
    Alike r .unbounded script request ⟨"POST", "/check", [], some [[0x30]]⟩ ∧
      ∀ query answer,
        .token query answer ∉ (r.resolve request .unbounded script).progress.reviews := by
  intro _ r script token request
  have h := (resolve_decided_by_credential r .unbounded script request
    ⟨"POST", "/check", [], some [[0x30]]⟩ ⟨rfl, rfl⟩).1 [0x30] [[0x05]] [] rfl rfl
  exact ⟨h.1, h.2.2.1⟩

end Resolution

end ForwardAuth
