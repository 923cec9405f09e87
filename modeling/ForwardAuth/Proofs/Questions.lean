import ForwardAuth.Proofs.Dialogue
import ForwardAuth.Proofs.JsonTexts
import ForwardAuth.Review.Client

/-!
# What a question means

A question is put to the authority as a JSON text, and the authority decides about what it reads
there. The strings in a question come from tokens and headers, so they may hold anything. `meaning`
is the object that is meant, written out for each kind of question, and the text that is sent has
this value and no other: not in the reading of this program, which the authority need not share, but
by the grammar of JSON texts.

Whatever an object says at a place is given by one part of the question. `Json.put` changes the
value at a place and nothing else, and this is what another user, another list of groups, another
name or another token does to the object.

## Main definitions

* `Question.meaning`: The object that a question is meant to be.
* `Client.ask?`: The request that a client sends for a question.
* `Json.put`: An object with another value at a place that it has.

## Theorems

* `ask?_eq_some_iff`: What is sent for a question, and where to.
* `fits_meaning`: The reader has room for what a question means.
* `meaning_injective`: Questions that mean the same are the same.
* `isText_render_iff`: The text of what a question means has this value and no other.
* `ask_lossless`: A question is sent without loss.
-/

namespace ForwardAuth

/-- The value with another one at a place, which is given by the names that lead there. Where there
    is no such place nothing changes. -/
def Json.put (v : Json) (place : List String) (new : Json) : Json :=
  match place, v with
  | [], _ => new
  | name :: place, .object members =>
    .object (members.map fun m => if m.1 = name then (m.1, m.2.put place new) else m)
  | _ :: _, v => v

namespace Review

/-- The object that a question is meant to be. -/
def Question.meaning : Question → Json
  | .access q =>
    .object [
      ("apiVersion", .string "authorization.k8s.io/v1"),
      ("kind", .string "SubjectAccessReview"),
      ("spec", .object [
        ("resourceAttributes", .object [
          ("verb", .string q.verb),
          ("resource", .string q.resource.name),
          ("name", .string q.name)]),
        ("user", .string q.actingUser),
        ("groups", .array (q.actingGroups.map .string))])]
  | .token q =>
    .object [
      ("apiVersion", .string "authentication.k8s.io/v1"),
      ("kind", .string "TokenReview"),
      ("spec", .object [("token", .string q.token)])]

/-- The request that a client sends for a question. -/
def Client.ask? (c : Client) : Question → Option Outgoing
  | .access q => c.accessRequest? q
  | .token q => c.tokenRequest? q

/-- Where questions of a kind are asked. -/
def Question.endpoint : Question → String
  | .access _ => "/apis/authorization.k8s.io/v1/subjectaccessreviews"
  | .token _ => "/apis/authentication.k8s.io/v1/tokenreviews"

/-! ## The request -/

/-- A question is posted to the address of its kind, and what it means is the body. -/
theorem ask?_eq_some_iff {c : Client} {q : Question} {r : Outgoing} : c.ask? q = some r ↔
    Uri.parse? (c.baseUrl ++ q.endpoint) = some r.uri ∧
      c.bearerToken.mapM Client.authorization? = some r.authorization ∧
      r.body = Json.encode q.meaning := by
  have hrequest : c.ask? q = c.request? q.endpoint q.meaning := by
    cases q with
    | access q => rfl
    | token q => rfl
  rw [hrequest, Client.request?, Option.bind_eq_bind, Option.bind_eq_some_iff]
  constructor
  · rintro ⟨uri, huri, h⟩
    rcases Option.bind_eq_some_iff.mp h with ⟨authorization, hauthorization, hr⟩
    cases hr
    exact ⟨huri, hauthorization, rfl⟩
  · rintro ⟨huri, hauthorization, hbody⟩
    refine ⟨r.uri, huri, Option.bind_eq_some_iff.mpr ⟨r.authorization, hauthorization, ?_⟩⟩
    rw [← hbody]
    rfl

/-! ## The body -/

/-- The reader has room for what a question means. -/
theorem fits_meaning (q : Question) : Json.Fits Json.maxDepth q.meaning := by
  -- A question of either kind is an object of three members, the last of which holds the rest.
  have henvelope : ∀ (version kind : String) {spec : Json}, Json.Fits 126 spec → Json.Fits 127
      (.object [("apiVersion", .string version), ("kind", .string kind), ("spec", spec)]) := by
    intro version kind spec hspec
    refine .object (show ["apiVersion", "kind", "spec"].Nodup by decide) ?_
    simp only [List.forall_mem_cons]
    exact ⟨.string _ _, .string _ _, hspec, fun m hm => absurd hm List.not_mem_nil⟩
  cases q with
  | access q =>
      have hgroups : Json.Fits 125 (.array (q.actingGroups.map .string)) := by
        refine .array fun v hv => ?_
        rcases List.mem_map.mp hv with ⟨group, -, rfl⟩
        exact .string _ _
      have hnames : ["resourceAttributes", "user", "groups"].Nodup := by decide
      refine henvelope _ _ (.object hnames ?_)
      simp only [List.forall_mem_cons]
      refine ⟨.object (show ["verb", "resource", "name"].Nodup by decide) ?_, .string _ _, hgroups,
        fun m hm => absurd hm List.not_mem_nil⟩
      simp only [List.forall_mem_cons]
      exact ⟨.string _ _, .string _ _, .string _ _, fun m hm => absurd hm List.not_mem_nil⟩
  | token q =>
      refine henvelope _ _ (.object (show ["token"].Nodup by decide) ?_)
      exact List.forall_mem_singleton.mpr (.string _ _)

theorem name_injective {r r' : Resource} (h : r.name = r'.name) : r = r' := by
  cases r with
  | users =>
      cases r' with
      | users => rfl
      | groups => exact absurd h (by decide)
  | groups =>
      cases r' with
      | users => exact absurd h (by decide)
      | groups => rfl

/-- Questions that mean the same are the same. -/
theorem meaning_injective {q q' : Question} (h : q.meaning = q'.meaning) : q = q' := by
  -- The kinds differ in the version, and within a kind every part is a member of its own.
  cases q with
  | access q =>
      cases q' with
      | access q' =>
          simp only [Question.meaning, Json.object.injEq, List.cons.injEq, Prod.mk.injEq,
            Json.string.injEq, Json.array.injEq, true_and, and_true] at h
          rcases h with ⟨⟨hverb, hresource, hname⟩, huser, hgroups⟩
          have hsame := List.map_injective_iff.mpr (fun _ _ => Json.string.inj) hgroups
          rw [Question.access.injEq, AccessQuery.mk.injEq]
          exact ⟨huser, hsame, hverb, name_injective hresource, hname⟩
      | token q' =>
          simp only [Question.meaning, Json.object.injEq, List.cons.injEq, Prod.mk.injEq,
            Json.string.injEq, String.reduceEq, true_and, false_and] at h
  | token q =>
      cases q' with
      | access q' =>
          simp only [Question.meaning, Json.object.injEq, List.cons.injEq, Prod.mk.injEq,
            Json.string.injEq, String.reduceEq, true_and, false_and] at h
      | token q' =>
          simp only [Question.meaning, Json.object.injEq, List.cons.injEq, Prod.mk.injEq,
            Json.string.injEq, true_and, and_true] at h
          exact congrArg (fun token => Question.token ⟨token⟩) h

/-- The text of what a question means has this value and no other. -/
theorem isText_render_iff (q : Question) (v : Json) :
    Json.IsText (String.ofList (Json.render q.meaning)) v ↔ v = q.meaning := by
  have hmeaning : Json.IsText (String.ofList (Json.render q.meaning)) q.meaning := by
    rcases Json.parse?_eq_some_iff.mp (Json.parse?_encode (fits_meaning q)) with
      ⟨text, hbytes, htext⟩
    rwa [eq_of_toUTF8_eq hbytes] at htext
  exact ⟨fun h => h.unique hmeaning, fun h => h ▸ hmeaning⟩

/-- A question is sent without loss. The body is a text that means what the question means and
    nothing else, so two questions with one body are the same, of whatever clients. A question about
    an impersonation says that it is one. Another user, other groups, another verb, name or token is
    put in the place that it has, and leaves everything else in what is meant as it was. -/
theorem ask_lossless {c : Client} {q : Question} {r : Outgoing} (h : c.ask? q = some r) :
    (∃ text : String, text.toUTF8.toList = r.body ∧ ∀ v, Json.IsText text v ↔ v = q.meaning) ∧
    (∀ (c' : Client) (q' : Question) (r' : Outgoing), c'.ask? q' = some r' →
      (r.body = r'.body ↔ q = q')) ∧
    (∀ user groups resource name, q = .access (.impersonate user groups resource name) →
      q.meaning = .object [
        ("apiVersion", .string "authorization.k8s.io/v1"),
        ("kind", .string "SubjectAccessReview"),
        ("spec", .object [
          ("resourceAttributes", .object [
            ("verb", .string "impersonate"),
            ("resource", .string resource.name),
            ("name", .string name)]),
          ("user", .string user),
          ("groups", .array (groups.map .string))])]) ∧
    (∀ (a : AccessQuery) (user verb name : String) (groups : List String), q = .access a →
      (Question.access { a with actingUser := user }).meaning
        = q.meaning.put ["spec", "user"] (.string user) ∧
      (Question.access { a with actingGroups := groups }).meaning
        = q.meaning.put ["spec", "groups"] (.array (groups.map .string)) ∧
      (Question.access { a with verb }).meaning
        = q.meaning.put ["spec", "resourceAttributes", "verb"] (.string verb) ∧
      (Question.access { a with name }).meaning
        = q.meaning.put ["spec", "resourceAttributes", "name"] (.string name)) ∧
    ∀ (t : TokenQuery) (token : String), q = .token t →
      (Question.token { t with token }).meaning
        = q.meaning.put ["spec", "token"] (.string token) := by
  have hbody : ∀ {c : Client} {q : Question} {r : Outgoing}, c.ask? q = some r →
      r.body = Json.encode q.meaning := fun h => (ask?_eq_some_iff.mp h).2.2
  refine ⟨⟨_, (hbody h).symm, isText_render_iff q⟩, fun c' q' r' h' => ?_, ?_, ?_, ?_⟩
  · rw [hbody h, hbody h']
    exact ⟨fun hsame => meaning_injective
      (Json.encode_injective (fits_meaning q) (fits_meaning q') hsame), fun hsame => hsame ▸ rfl⟩
  · rintro user groups resource name rfl
    rfl
  · rintro a user verb name groups rfl
    exact ⟨rfl, rfl, rfl, rfl⟩
  · rintro t token rfl
    rfl

/-- A user whose name would end its string and give another one, with groups that are empty,
    repeated and beyond the codes of 16 bits. -/
theorem ask_lossless_hostile :
    let c : Client := ⟨"http://authority", none, 1000, ⟨none, none⟩⟩
    let q : Question :=
      .access (.impersonate "bob\",\"user\":\"root" ["", "\\", "", "\x01😀"] .groups "\n")
    ∃ (r : Outgoing) (text : String), c.ask? q = some r ∧
      text.toUTF8.toList = r.body ∧ ∀ v, Json.IsText text v ↔ v = .object [
        ("apiVersion", .string "authorization.k8s.io/v1"),
        ("kind", .string "SubjectAccessReview"),
        ("spec", .object [
          ("resourceAttributes", .object [("verb", .string "impersonate"),
            ("resource", .string "groups"), ("name", .string "\n")]),
          ("user", .string "bob\",\"user\":\"root"),
          ("groups", .array [.string "", .string "\\", .string "", .string "\x01😀"])])] := by
  intro c q
  have hasked : c.ask? q = some {
      uri := ⟨some .http, "authority".toList,
        "/apis/authorization.k8s.io/v1/subjectaccessreviews".toList, none⟩
      authorization := none
      body := Json.encode q.meaning } :=
    ask?_eq_some_iff.mpr ⟨by decide +kernel, rfl, rfl⟩
  rcases (ask_lossless hasked).1 with ⟨text, htext, hvalue⟩
  exact ⟨_, text, hasked, htext, hvalue⟩

end Review

end ForwardAuth
