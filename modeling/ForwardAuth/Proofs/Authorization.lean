import ForwardAuth.Proofs.Delivery
import ForwardAuth.Proofs.Naming
import ForwardAuth.Proofs.Response
import Mathlib.Data.List.Forall2

/-!
# Whom the proxy is told about

A response with status 200 makes the proxy let a request through under a name. What stands behind
this name is stated about the requests that were sent meanwhile to the authority, each beside its
own reply. The caller comes from a certificate, from a structured token or from one review of
exactly the token that was shown. The name and each group are those of the caller, or a review about
this caller and exactly this name, or this group, was answered with a grant.

The grants come from the walk over the plan: `authorizeAll_recorded` says, by induction on the
targets, that a walk to the end leaves one confirmed entry in the record for each target, in order.
The rest puts together what the other modules say about the stages of a resolution, about the record
and about responses.

## Main definitions

* `NoTokenReview`: No question about a token was sent.
* `Origin`: Where the identity of the caller comes from.
* `Vouched`: A review grants a caller to act as someone.
* `Activity.recorded`, `Context.sent`: The requests that are sent while a request is answered.

## Theorems

* `accepted_of_rejection?`: A status that rejects nothing says that the token is authentic.
* `authorizeAll_recorded`: A walk to the end leaves one confirmed entry for each target.
* `outcome_recorded`: The record does not change what a request is resolved to.
* `origin_of_extract`: The caller that was found has an origin.
* `vouched_of_plan`: Every target of a plan that was granted is vouched for.
* `respond_authorized`: What stands behind a response with status 200.
-/

namespace ForwardAuth

open Review (Client Delivery Network TokenStatus)

variable {σ : Type}

/-- A status that rejects nothing says that the token is authentic, and no error. -/
theorem Review.TokenStatus.accepted_of_rejection? {s : TokenStatus}
    (h : (s.rejection?.filter fun reason => !reason.isEmpty) = none) :
    s.authenticated = true ∧ (s.error = none ∨ s.error = some "") := by
  unfold rejection? at h
  rcases herror : s.error.filter fun e => !e.isEmpty with _ | e
  · -- Without an error of its own, a status rejects exactly the tokens that are not authentic.
    rw [herror] at h
    refine ⟨?_, ?_⟩
    · by_contra hauthenticated
      simp only [hauthenticated] at h
      exact absurd h (by decide)
    · rcases hreason : s.error with _ | reason
      · exact Or.inl rfl
      · rw [hreason, Option.filter_eq_none_iff] at herror
        have hempty := herror reason rfl
        rw [Bool.not_eq_true', Bool.not_eq_false, String.isEmpty_iff] at hempty
        exact Or.inr (by rw [hempty])
  · rw [herror] at h
    rw [Option.filter_eq_some_iff] at herror
    rw [Option.filter_eq_none_iff] at h
    exact absurd herror.2 (h e rfl)

theorem Credential.peerChain_of_ofRequest {request : Request} {chain : List Certificate.Encoded}
    (h : ofRequest request = .certificate chain) : request.peerChain = some chain := by
  unfold ofRequest at h
  split at h
  · rename_i leaf issuers hchain
    rw [hchain, Credential.certificate.inj h]
  · split at h
    · exact absurd h (by simp only [reduceCtorEq, not_false_eq_true])
    · exact absurd h (by simp only [reduceCtorEq, not_false_eq_true])

namespace Server

open Resolution (Extractor Outcome Progress Resolving)

/-- No question about a token was sent. -/
def NoTokenReview (sent : List Delivery) : Prop :=
  ∀ d ∈ sent, ∀ query : Review.TokenQuery, d.request.body ≠ Json.encode query.body

/-- Where the identity of the caller comes from, given what was sent to the authority. -/
inductive Origin [Wording] (e : Extractor) (request : Request) (sent : List Delivery)
    (base : Identity) : Prop where
  /-- The client's own certificate names it. -/
  | certificate (leaf : Certificate.Encoded) (issuers : List Certificate.Encoded)
      (chain : request.peerChain = some (leaf :: issuers))
      (identity : Certificate.identity leaf = .ok base)
      (unasked : NoTokenReview sent)
  /-- The claims of a structured token name it, and the verifier accepts the token. -/
  | structured (token : String) (structured : Token.Structured) (claims : Token.Claims)
      (bearer : Credential.ofRequest request = .bearer token)
      (parsed : Token.Structured.parse? token = some structured)
      (verified : e.verifier [] structured = .ok ())
      (decoded : Token.Claims.decode structured.claims e.usernameClaim = .ok claims)
      (identity : claims.identity = base)
      (unasked : NoTokenReview sent)
  /-- The one review of a token that is not structured names it, and holds nothing against it. -/
  | reviewed (token : String) (review : Delivery) (others : List Delivery) (status : TokenStatus)
      (bearer : Credential.ofRequest request = .bearer token)
      (unstructured : Token.Structured.parse? token = none)
      (first : sent = review :: others)
      (confirmed : review.Confirms (Review.TokenQuery.body ⟨token⟩) Review.tokenStatus? status)
      (authenticated : status.authenticated = true)
      (no_error : status.error = none ∨ status.error = some "")
      (identity : base = .of status.username status.groups)
      (once : NoTokenReview others)

/-- A review about this caller and this name was sent, and its own reply grants the access. -/
def Vouched (base : Identity) (sent : List Delivery) (resource : Review.Resource) (name : String) :
    Prop :=
  ∃ d ∈ sent,
    d.Confirms (Review.AccessQuery.body
      ⟨base.username, base.groups, "impersonate", resource, name⟩) Review.allowed? true

/-- The same activity over a network with a record, which is empty yet. -/
def Activity.recorded (a : Activity σ) : Activity (σ × List Delivery) :=
  ⟨a.session, a.inFlight, (a.network, [])⟩

/-- What is sent to the authority while a request is answered. -/
def Context.sent [Wording] (c : Context) (network : Network σ) (now : Nat) (request : Request)
    (a : Activity σ) : List Delivery :=
  (c.respond network.recorded now request a.recorded).2.network.2

/-- The outcome of the resolution that a response tells about. -/
def Context.outcome [Wording] (c : Context) (network : Network σ) (now : Nat) (request : Request)
    (a : Activity σ) : Outcome σ :=
  (c.resolver network).resolve request
    ((a.session.lifetimes.startWithin c.shutdown).2.scope
      (a.session.lifetimes.startWithin c.shutdown).1 (some (now + c.resolveTimeout)) now) a.network

/-- What is counted for its reviews does not change the outcome of a request. -/
theorem resolve_of_outcome [Wording] (c : Context) (network : Network σ) (now : Nat)
    (request : Request) (a : Activity σ) :
    (c.resolve network now request a).1 = (c.outcome network now request a).result ∧
      (c.resolve network now request a).2.network
        = (c.outcome network now request a).progress.authority := by
  have h := c.resolveWithin_projected network
    { a.session with lifetimes := (a.session.lifetimes.startWithin c.shutdown).2 }
    (a.session.lifetimes.startWithin c.shutdown).1 (now + c.resolveTimeout) now request a.network
  exact ⟨congrArg Outcome.result h, congrArg (fun o => o.progress.authority) h⟩

/-- A request is answered with the outcome of its resolution, unless it asks for the metrics. -/
theorem respond_of_request [Wording] (c : Context) (network : Network σ) (now : Nat)
    (request : Request) (a : Activity σ) (h : isMetricsRequest request = false) :
    (c.respond network now request a).1 = responseTo (c.outcome network now request a).result ∧
      (c.respond network now request a).2.network
        = (c.outcome network now request a).progress.authority := by
  rcases resolve_of_outcome c network now request a with ⟨hresult, hnetwork⟩
  unfold Context.respond
  rw [h]
  exact ⟨congrArg responseTo hresult, hnetwork⟩

theorem outcome_recorded [Wording] (c : Context) (network : Network σ) (now : Nat)
    (request : Request) (a : Activity σ) :
    (c.outcome network.recorded now request a.recorded).result
      = (c.outcome network now request a).result :=
  (congrArg Outcome.result (Resolution.resolve_projected
    (Review.recorded_projects c.client network) c.extractor request _ (a.network, []))).symm

/-- A walk to the end leaves one confirmed entry in the record for each target, in order. -/
theorem authorizeAll_recorded [Wording] (c : Client) (network : Network σ) (caller : Identity)
    (targets : List (Impersonation.Subject × String)) (p p' : Progress (σ × List Delivery))
    (h : (Resolution.authorizeAll (c.authority network.recorded) caller targets).runFrom p
      = (.ok (), p')) :
    ∃ sent, p'.authority.2 = p.authority.2 ++ sent ∧
      List.Forall₂
        (fun target d =>
          d.Confirms (Resolution.planQuery caller target).body Review.allowed? true)
        targets sent := by
  induction targets generalizing p with
  | nil =>
      injection h with _ hp
      rw [← hp]
      exact ⟨[], (List.append_nil _).symm, .nil⟩
  | cons target targets ih =>
      unfold Resolution.authorizeAll at h
      rw [List.forM_cons] at h
      rcases Resolving.runFrom_bind_eq_ok _ _ _ _ _ h with ⟨⟨⟩, p₁, hfirst, hrest⟩
      rw [Resolution.authorize_eq_put] at hfirst
      rcases Resolving.runFrom_bind_eq_ok _ _ _ _ _ hfirst with ⟨answer, p₂, hput, hread⟩
      rcases Resolving.runFrom_ofExcept_eq_ok _ _ _ _ hread with ⟨hverdict, rfl⟩
      -- The walk went on, so the answer was a grant.
      have hgrants : Resolution.grants answer = true := by
        by_contra hno
        rw [Bool.not_eq_true] at hno
        rw [Resolution.accessVerdict_of_not_grants caller target answer hno] at hverdict
        exact absurd hverdict (by simp only [reduceCtorEq, not_false_eq_true])
      rw [Resolution.eq_ok_true_of_grants hgrants] at hput
      rcases Resolution.access_eq_ok c network _ _ _ _ hput with ⟨d, hrecord, hconfirms⟩
      rcases ih p₁ hrest with ⟨sent, hsent, hall⟩
      refine ⟨d :: sent, ?_, .cons hconfirms hall⟩
      rw [hsent, hrecord, List.append_assoc, List.singleton_append]

theorem vouched_of_plan {caller : Identity} {targets : List (Impersonation.Subject × String)}
    {sent : List Delivery} {target : Impersonation.Subject × String}
    (h : List.Forall₂ (fun target d =>
      d.Confirms (Resolution.planQuery caller target).body Review.allowed? true) targets sent)
    (hmem : target ∈ targets) : Vouched caller sent target.1.resource target.2 := by
  induction h with
  | nil => exact absurd hmem List.not_mem_nil
  | cons hconfirms _ ih =>
      rcases List.mem_cons.mp hmem with rfl | hmem
      · refine ⟨_, List.mem_cons_self, ?_⟩
        rcases target with ⟨subject, name⟩
        cases subject with
        | user => exact hconfirms
        | group => exact hconfirms
      · rcases ih hmem with ⟨d, hd, hconfirms⟩
        exact ⟨d, List.mem_cons_of_mem _ hd, hconfirms⟩

theorem noTokenReview_of_plan {caller : Identity}
    {targets : List (Impersonation.Subject × String)} {sent : List Delivery}
    (h : List.Forall₂ (fun target d =>
      d.Confirms (Resolution.planQuery caller target).body Review.allowed? true) targets sent) :
    NoTokenReview sent := by
  induction h with
  | nil => exact fun d hd => absurd hd List.not_mem_nil
  | cons hconfirms _ ih =>
      intro d hd query
      rcases List.mem_cons.mp hd with rfl | hd
      · rw [hconfirms.1]
        exact (Review.encode_token_ne_access query _).symm
      · exact ih d hd query

/-- The caller that was found has an origin, whatever else is sent that is no question about a
    token. -/
theorem origin_of_extract [Wording] (e : Extractor) (c : Client) (network : Network σ)
    (request : Request) (p p' : Progress (σ × List Delivery)) (caller : Identity)
    (others : List Delivery)
    (hstart : p.authority.2 = []) (hfresh : p.inspections = [])
    (h : (e.extract (c.authority network.recorded) (.ofRequest request)).runFrom p
      = (.ok caller, p'))
    (hothers : NoTokenReview others) : Origin e request (p'.authority.2 ++ others) caller := by
  rcases Resolution.extract_eq_ok e _ _ p p' caller h with
    ⟨leaf, issuers, hcredential, hidentity, rfl⟩ |
    ⟨token, structured, hcredential, hparse, hclaimed⟩ |
    ⟨token, answer, hcredential, hparse, hput, hreviewed⟩
  · -- Neither a certificate nor a structured token takes a question, so nothing was sent for it.
    rw [hstart, List.nil_append]
    exact .certificate leaf issuers (Credential.peerChain_of_ofRequest hcredential) hidentity
      hothers
  · rcases Resolution.claimed_eq_ok hclaimed with
      ⟨hverified, ⟨claims, hdecoded, hidentity⟩, rfl⟩
    rw [hfresh] at hverified
    rw [hstart, List.nil_append]
    exact .structured token structured claims hcredential hparse hverified hdecoded hidentity
      hothers
  · rcases Resolution.reviewed_eq_ok hreviewed with ⟨verdict, rfl, hreason, hcaller⟩
    rcases Resolution.token_eq_ok c network _ _ _ _ hput with
      ⟨d, status, hrecord, hconfirms, rfl⟩
    rcases TokenStatus.accepted_of_rejection? hreason with ⟨hauthenticated, herror⟩
    rw [hrecord, hstart, List.nil_append, List.singleton_append]
    exact .reviewed token d others status hcredential hparse rfl hconfirms hauthenticated herror
      hcaller hothers

/-- What stands behind a response with status 200. There is a caller with a name, which comes from
    the certificate, from the claims of a structured token, or from the one review of the token. The
    user that the response tells is the caller, or a review grants the caller to act as exactly this
    user; and so for each of the groups. All of it is about the requests that were sent, each with
    its own reply, whatever else the network does and whenever it is interrupted. -/
theorem respond_authorized [Wording] (c : Context) (network : Network σ) (now : Nat)
    (request : Request) (a : Activity σ) (response : Response)
    (hrequest : isMetricsRequest request = false)
    (hresponse : (c.respond network now request a).1 = some response)
    (hstatus : response.status = ⟨200⟩) :
    (c.respond network.recorded now request a.recorded).1 = some response ∧
    ∃ (base : Identity) (user : String) (groups : List String),
      base.username ≠ "" ∧
      Origin c.extractor request (c.sent network now request a) base ∧
      response.Tells Response.userHeader [user] ∧
      response.Tells Response.groupHeader groups ∧
      (user = base.username ∨ Vouched base (c.sent network now request a) .users user) ∧
      ∀ group ∈ groups,
        group ∈ base.groups ∨ Vouched base (c.sent network now request a) .groups group := by
  -- The record is kept by a second run, which gives the same response.
  have hplain := respond_of_request c network now request a hrequest
  have hrecorded := respond_of_request c network.recorded now request a.recorded hrequest
  have houtcome := outcome_recorded c network now request a
  have hsame : (c.respond network.recorded now request a.recorded).1 = some response := by
    rw [hrecorded.1, houtcome, ← hplain.1, hresponse]
  refine ⟨hsame, ?_⟩
  -- From here on back through the stages: the response, enforcement, the caller.
  rcases responseTo_eq_ok (hrecorded.1.symm.trans hsame) hstatus with ⟨i, hi, htold⟩
  rcases Resolution.resolve_eq_ok _ _ _ _ i hi with
    ⟨base, p, targets, hextract, hname, -, henforce⟩
  rcases Resolution.enforce_eq_ok henforce with ⟨rfl, hwalk⟩
  rcases authorizeAll_recorded c.client network base _ _ _ hwalk with ⟨granted, hsent, hall⟩
  have hrecord : c.sent network now request a = p.authority.2 ++ granted :=
    (congrArg Prod.snd hrecorded.2).trans hsent
  have hvouched : ∀ target ∈ Resolution.plan targets,
      Vouched base (p.authority.2 ++ granted) target.1.resource target.2 := by
    intro target htarget
    rcases vouched_of_plan hall htarget with ⟨d, hd, hconfirms⟩
    exact ⟨d, List.mem_append_right _ hd, hconfirms⟩
  rw [hrecord]
  refine ⟨base, _, _, hname, ?_, (tells_of_ok htold).1, (tells_of_ok htold).2, ?_, ?_⟩
  · exact origin_of_extract c.extractor c.client network request _ p base granted rfl rfl hextract
      (noTokenReview_of_plan hall)
  · rcases huser : targets.user with _ | name
    · exact Or.inl (by rw [Resolution.assumed, huser]; rfl)
    · -- A user that was asked for is the first target of the plan.
      refine Or.inr ?_
      have hassumed : (Resolution.assumed base targets).username = name := by
        rw [Resolution.assumed, huser]
        rfl
      rw [hassumed]
      exact hvouched (.user, name) (by
        rw [Resolution.plan, huser]
        exact List.mem_append_left _ (List.mem_singleton.mpr rfl))
  · intro group hgroup
    rw [Resolution.groups_assumed] at hgroup
    rcases List.mem_append.mp hgroup with hown | hnew
    · exact Or.inl hown
    · refine Or.inr (hvouched (.group, group) ?_)
      rw [List.mem_eraseDups, List.mem_filter] at hnew
      exact List.mem_append_right _ (List.mem_map_of_mem hnew.1)

/-- A token that belongs to someone who may act as someone else. Both replies are arrays that stand
    for objects. -/
theorem respond_authorized_impersonator :
    let _ : Wording := .own
    let network : Network Nat := ⟨fun _ count =>
      (.instant (.response ⟨201⟩
        (if count = 0 then "[[true,[\"bob\"]]]" else "[[true]]").toUTF8.toList), count + 1)⟩
    let c : Context :=
      ⟨⟨"sub", .trusting⟩, ⟨"http://authority", none, 1000, ⟨none, none⟩⟩, 5000, ⟨0, none⟩⟩
    let request : Request := ⟨"GET", "/",
      [(⟨"authorization"⟩, (Http.HeaderValue.ofString? "Bearer t").get (by decide +kernel)),
        (⟨"impersonate-user"⟩, (Http.HeaderValue.ofString? "carol").get (by decide +kernel))], none⟩
    let a : Activity Nat := ⟨.empty, .idle, 0⟩
    ∃ (base : Identity) (response : Response), base.username = "bob" ∧
      Origin c.extractor request (c.sent network 0 request a) base ∧
      (c.respond network 0 request a).1 = some response ∧
      response.Tells Response.userHeader ["carol"] ∧
      Vouched base (c.sent network 0 request a) .users "carol" := by
  intro _ network c request a
  have hanswered : (c.respond network 0 request a).1.map (fun r => (r.status,
      (r.headers.values Response.userHeader).map Http.HeaderValue.bytes))
      = some (⟨200⟩, ["carol".toUTF8.toList]) := by
    decide +kernel
  rcases Option.map_eq_some_iff.mp hanswered with ⟨response, hresponse, htold⟩
  rcases Prod.mk.inj htold with ⟨hstatus, hcarol⟩
  rcases respond_authorized c network 0 request a response (by decide +kernel) hresponse
    hstatus with ⟨-, base, user, groups, -, horigin, huser, -, hvouched, -⟩
  have huser : user = "carol" :=
    eq_of_toUTF8_eq (List.singleton_inj.mp (huser.symm.trans hcarol))
  -- The token is not structured, and the first reply is the one about it.
  have hbase : base.username = "bob" := by
    have hreplies : (c.sent network 0 request a).head?.map (fun d => d.reply.answer)
        = some (some (.response ⟨201⟩ "[[true,[\"bob\"]]]".toUTF8.toList)) := by
      decide +kernel
    cases horigin with
    | certificate leaf issuers chain _ _ => cases chain
    | structured token structured _ bearer parsed _ _ _ _ =>
        have htoken : Credential.bearer "t" = .bearer token := bearer ▸ by decide +kernel
        rw [← Credential.bearer.inj htoken] at parsed
        cases parsed
    | reviewed token review others status _ _ first confirmed _ _ identity _ =>
        rcases confirmed with ⟨-, code, body, hreply, -, hread⟩
        rw [first, List.head?_cons, Option.map_some, hreply] at hreplies
        injection hreplies with hreplies
        injection hreplies with hreplies
        injection hreplies with _ hbody
        rw [hbody] at hread
        rw [identity]
        exact congrArg TokenStatus.username (Option.some.inj (hread.symm.trans
          (show Review.tokenStatus? _ = some ⟨true, "bob", [], none⟩ by decide +kernel)))
  refine ⟨base, response, hbase, horigin, hresponse, ?_, ?_⟩
  · rw [← huser]
    assumption
  · rw [← huser]
    refine hvouched.resolve_left fun hsame => ?_
    rw [huser, hbase] at hsame
    exact absurd hsame (by decide)

end Server

end ForwardAuth
