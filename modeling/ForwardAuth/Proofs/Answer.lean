import ForwardAuth.Proofs.Authorization
import ForwardAuth.Proofs.HeaderText
import ForwardAuth.Proofs.JsonRoundtrip

/-!
# An identity is told as a whole or not at all

The proxy in front takes what it is told for the truth, so a response may tell the identity that was
resolved, or none. `Carries` is the first: the user name, the groups in their order, and nothing
else, in the headers and again in the body. `Reports` is the second: no header of an identity, and a
body that names the error.

Which of the two it is depends on the names. A header can hold every byte but the control bytes, so
a name with one of these cannot be told there, and then nothing is told. Such a name never comes
from a header of the request: what can be read from a header can be written to one. It comes from
the credential, whose names may hold anything.

The body has no such limit, because JSON has an escape for every character that needs one. It is
read back to what was written, so two identities are told apart by the headers as well as by the
body.

## Main definitions

* `Writable`: A text that a header can hold.
* `Response.Carries`: A response tells an identity.
* `Response.Reports`: A response tells an error.
* `Context.scope`: The scope in which a request is resolved.

## Theorems

* `exists_ofString?_iff`: A text makes a header exactly if it is writable.
* `writable_of_mem_texts?`: What is read from a header is writable.
* `Carries.ext_headers`, `Carries.ext_body`: The identity is known from either.
* `carries_ofIdentity`: The response for an identity tells it.
* `reports_ofError`: The response for an error tells it.
* `respond_carries_or_reports`: An identity is told as a whole or not at all.
-/

namespace ForwardAuth

/-- A header can hold the text: no byte of it is a control byte other than the tab. -/
def Writable (text : String) : Prop :=
  ∀ b ∈ text.toUTF8.toList, b = 0x09 ∨ (0x20 ≤ b ∧ b ≠ 0x7F)

theorem Http.isValueByte_iff (b : UInt8) :
    isValueByte b = true ↔ b = 0x09 ∨ (0x20 ≤ b ∧ b ≠ 0x7F) := by
  unfold isValueByte
  rw [Bool.or_eq_true, beq_iff_eq, Bool.and_eq_true, decide_eq_true_eq, bne_iff_ne]

/-- A text makes a header exactly if it is writable. -/
theorem Http.HeaderValue.exists_ofString?_iff (text : String) :
    (∃ value, ofString? text = some value) ↔ Writable text := by
  have hall : text.toUTF8.toList.all isValueByte = true ↔ Writable text := by
    rw [List.all_eq_true]
    exact forall₂_congr fun b _ => isValueByte_iff b
  unfold ofString? ofBytes?
  by_cases hbytes : text.toUTF8.toList.all isValueByte = true
  · rw [dif_pos hbytes]
    exact ⟨fun _ => hall.mp hbytes, fun _ => ⟨_, rfl⟩⟩
  · rw [dif_neg hbytes]
    constructor
    · rintro ⟨value, h⟩
      cases h
    · exact fun h => absurd (hall.mpr h) hbytes

-- Trimming leaves a part of a text, and so a part of its bytes.
theorem writable_trim {value : Http.HeaderValue} {text : String} (h : value.text? = some text) :
    Writable (Text.trim text) := by
  rcases (Http.HeaderValue.text?_eq_some_iff value text).mp h with ⟨hall, hbytes⟩
  rcases Text.exists_of_trimChars text.toList with ⟨before, after, hchars, -, -⟩
  intro b hb
  have hmem : b ∈ value.bytes := by
    rw [← hbytes, toList_toUTF8, hchars, List.flatMap_append, List.flatMap_append]
    refine List.mem_append_right _ (List.mem_append_left _ ?_)
    rw [toList_toUTF8, Text.trim, String.toList_ofList] at hb
    exact hb
  rcases (Http.isTextByte_iff b).mp (hall b hmem) with htab | ⟨hlow, hhigh⟩
  · exact Or.inl htab
  · exact Or.inr ⟨hlow, UInt8.ne_of_lt hhigh⟩

/-- What is read from a header is writable. -/
theorem Impersonation.Targets.writable_of_mem_texts? {headers : Http.Headers}
    {name : Http.HeaderName} {texts : List String} {text : String}
    (h : texts? headers name = some texts) (hmem : text ∈ texts) : Writable text := by
  unfold texts? at h
  rw [Option.bind_eq_bind, Option.bind_eq_some_iff] at h
  rcases h with ⟨read, hread, h⟩
  rw [Option.pure_def, Option.some.injEq] at h
  rw [← h, List.mem_filter, List.mem_map] at hmem
  rcases hmem with ⟨⟨given, hgiven, rfl⟩, -⟩
  rcases exists_mem_of_mapM hread hgiven with ⟨value, -, hvalue⟩
  exact writable_trim hvalue

/-- No name to act as is unwritable. -/
theorem Impersonation.Targets.writable_of_ofHeaders {headers : Http.Headers} {t : Targets}
    (h : ofHeaders headers = .ok t) :
    (∀ name ∈ t.user, Writable name) ∧ ∀ group ∈ t.groups, Writable group := by
  rcases ofHeaders_eq_ok h with ⟨users, groups, husers, hgroups, rfl⟩
  exact ⟨fun name hname => writable_of_mem_texts? husers (List.mem_of_mem_head? hname),
    fun group hgroup => writable_of_mem_texts? hgroups hgroup⟩

namespace Server

open Http (Headers HeaderName HeaderValue)
open Review (Network)

variable {σ : Type}

/-- The response tells the identity and nothing else, in its headers and in its body. -/
structure Response.Carries (r : Response) (i : Identity) : Prop where
  status : r.status = ⟨200⟩
  user : r.Tells userHeader [i.username]
  groups : r.Tells groupHeader i.groups
  body : Json.parse? r.body = some (.object
    [("username", .string i.username), ("groups", .array (i.groups.map .string))])

/-- The response tells an error, and no identity. -/
structure Response.Reports (r : Response) (requestId : Option String) (status : Http.Status)
    (kind message : String) : Prop where
  status : r.status = status
  body : Json.parse? r.body = some (.object
    ([("error", .string kind), ("message", .string message)]
      ++ requestId.toList.map fun id => ("request_id", .string id)))
  silent : ∀ field ∈ r.headers, ¬ "x-remote-".toList <+: field.1.text.toList

/-- The scope in which a request is resolved that arrives at a time. -/
def Context.scope (c : Context) (now : Nat) (a : Activity σ) : Scope :=
  (a.session.lifetimes.startWithin c.shutdown).2.scope
    (a.session.lifetimes.startWithin c.shutdown).1 (some (now + c.resolveTimeout)) now

theorem map_toUTF8_injective {texts texts' : List String}
    (h : (texts.map fun text => text.toUTF8.toList) = texts'.map fun text => text.toUTF8.toList) :
    texts = texts' :=
  List.map_injective_iff.mpr (fun _ _ => eq_of_toUTF8_eq) h

namespace Response

/-- The identity that a response carries is known from its headers. -/
theorem Carries.ext_headers {r r' : Response} {i i' : Identity} (h : r.Carries i)
    (h' : r'.Carries i') (hheaders : r.headers = r'.headers) : i = i' := by
  have huser := h.user
  have hgroups := h.groups
  unfold Tells at huser hgroups
  rw [hheaders] at huser hgroups
  ext1
  · exact (List.cons.inj (map_toUTF8_injective (huser.symm.trans h'.user))).1
  · exact map_toUTF8_injective (hgroups.symm.trans h'.groups)

/-- The identity that a response carries is known from its body. -/
theorem Carries.ext_body {r r' : Response} {i i' : Identity} (h : r.Carries i)
    (h' : r'.Carries i') (hbody : r.body = r'.body) : i = i' := by
  have hread := h.body
  rw [hbody, h'.body] at hread
  simp only [Option.some.injEq, Json.object.injEq, List.cons.injEq, Prod.mk.injEq,
    Json.string.injEq, Json.array.injEq, true_and, and_true] at hread
  ext1
  · exact hread.1.symm
  · exact List.map_injective_iff.mpr (fun _ _ => Json.string.inj) hread.2.symm

theorem fits_identityJson (i : Identity) : Json.Fits Json.maxDepth (identityJson i) := by
  -- All there is are strings, at any depth.
  have hname : ∀ limit, ∀ v ∈ i.groups.map Json.string, Json.Fits limit v := by
    intro limit v hv
    rcases List.mem_map.mp hv with ⟨group, -, rfl⟩
    exact .string limit group
  refine .object (show ["username", "groups"].Nodup by decide) fun m hm => ?_
  rcases List.mem_pair.mp hm with rfl | rfl
  · exact .string _ _
  · exact .array (hname _)

theorem fits_errorJson (e : Error) (requestId : Option String) :
    Json.Fits Json.maxDepth (e.json requestId) := by
  have hmember : ∀ m ∈ [("error", Json.string e.kind), ("message", Json.string e.message)]
      ++ requestId.toList.map fun id => ("request_id", Json.string id), ∃ s, m.2 = .string s := by
    intro m hm
    rcases List.mem_append.mp hm with hm | hm
    · rcases List.mem_pair.mp hm with rfl | rfl
      · exact ⟨_, rfl⟩
      · exact ⟨_, rfl⟩
    · rcases List.mem_map.mp hm with ⟨id, -, rfl⟩
      exact ⟨_, rfl⟩
  refine .object ?_ fun m hm => ?_
  · -- The number of the request is one more member, with a name of its own.
    cases requestId with
    | none => exact (show ["error", "message"].Nodup by decide)
    | some id => exact (show ["error", "message", "request_id"].Nodup by decide)
  · rcases hmember m hm with ⟨s, hs⟩
    rw [hs]
    exact .string _ s

theorem fields?_cons (field : HeaderName × String) (fields : List (HeaderName × String)) :
    fields? (field :: fields) = (HeaderValue.ofString? field.2).bind fun value =>
      (fields? fields).map fun headers => (field.1, value) :: headers := by
  rcases field with ⟨name, text⟩
  unfold fields?
  rw [List.mapM_cons]
  change Option.bind ((HeaderValue.ofString? text).map fun value => (name, value)) _ = _
  cases HeaderValue.ofString? text with
  | none => rfl
  | some value => exact Option.map_eq_bind.symm

/-- Fields are made from texts exactly if all of these are writable. -/
theorem exists_fields?_iff (fields : List (HeaderName × String)) :
    (∃ headers, fields? fields = some headers) ↔ ∀ field ∈ fields, Writable field.2 := by
  induction fields with
  | nil => exact ⟨fun _ field hfield => absurd hfield List.not_mem_nil, fun _ => ⟨[], rfl⟩⟩
  | cons field fields ih =>
      rw [List.forall_mem_cons, ← ih, ← HeaderValue.exists_ofString?_iff, fields?_cons]
      constructor
      · rintro ⟨headers, h⟩
        rcases Option.bind_eq_some_iff.mp h with ⟨value, hvalue, h⟩
        rcases Option.map_eq_some_iff.mp h with ⟨rest, hrest, -⟩
        exact ⟨⟨value, hvalue⟩, rest, hrest⟩
      · rintro ⟨⟨value, hvalue⟩, rest, hrest⟩
        exact ⟨_, by rw [hvalue, hrest]; rfl⟩

/-- The response for an identity tells it, if its names are writable. -/
theorem carries_ofIdentity [Wording] {i : Identity} (hname : Writable i.username)
    (hgroups : ∀ group ∈ i.groups, Writable group) : (ofResult (.ok i)).Carries i := by
  have hfields : ∃ fields, identityFields? i = some fields := by
    refine (exists_fields?_iff _).mpr fun field hfield => ?_
    rcases List.mem_cons.mp hfield with rfl | hfield
    · exact hname
    · rcases List.mem_map.mp hfield with ⟨group, hgroup, rfl⟩
      exact hgroups group hgroup
  rcases hfields with ⟨fields, hfields⟩
  have htold : ofIdentity i = .ok ⟨⟨200⟩, jsonType ++ fields, Json.encode (identityJson i)⟩ := by
    rw [ofIdentity, hfields]
    rfl
  have htells := tells_of_ok htold
  rw [ofResult, htold]
  exact ⟨rfl, htells.1, htells.2, Json.parse?_encode (fits_identityJson i)⟩

/-- The response for an error tells it, and no identity. -/
theorem reports_ofError (e : Error) (requestId : Option String) :
    (ofError e requestId).Reports requestId e.status e.kind e.message :=
  ⟨rfl, Json.parse?_encode (fits_errorJson e requestId),
    show ∀ field ∈ jsonType, ¬ "x-remote-".toList <+: field.1.text.toList by decide +kernel⟩

/-- An identity with a name that is not writable is not told. -/
theorem ofResult_of_unwritable [Wording] {i : Identity}
    (h : ¬ (Writable i.username ∧ ∀ group ∈ i.groups, Writable group)) :
    ofResult (.ok i)
      = ofError (.internal ("Unable to build response: " ++ Wording.header)) none := by
  have hfields : identityFields? i = none := by
    refine Option.eq_none_iff_forall_ne_some.mpr fun fields hfields => h ?_
    have hall := (exists_fields?_iff _).mp ⟨fields, hfields⟩
    exact ⟨hall _ List.mem_cons_self, fun group hgroup =>
      hall _ (List.mem_cons_of_mem _ (List.mem_map_of_mem hgroup))⟩
  rw [ofResult, ofIdentity, hfields]
  rfl

end Response

theorem isMetricsRequest_eq_false {request : Request}
    (h : ¬ (request.method = "GET" ∧ request.path = "/metrics")) :
    isMetricsRequest request = false := by
  unfold isMetricsRequest
  rw [Bool.and_eq_false_iff, beq_eq_false_iff_ne, beq_eq_false_iff_ne]
  exact Decidable.not_and_iff_or_not.mp h

-- A name that was taken from a header is writable, so one that is not was there before.
theorem unwritable_of_assumed {headers : Headers} {caller : Identity}
    {targets : Impersonation.Targets}
    (htargets : Impersonation.Targets.ofHeaders headers = .ok targets) :
    (¬ Writable (Resolution.assumed caller targets).username →
      targets.user = none ∧ (Resolution.assumed caller targets).username = caller.username) ∧
    ∀ group ∈ (Resolution.assumed caller targets).groups, ¬ Writable group →
      group ∈ caller.groups ∧ group ∉ targets.groups := by
  rcases Impersonation.Targets.writable_of_ofHeaders htargets with ⟨huser, hgroups⟩
  refine ⟨fun hname => ?_, fun group hgroup hunwritable => ?_⟩
  · rcases hasked : targets.user with _ | name
    · exact ⟨rfl, by rw [Resolution.assumed, hasked]; rfl⟩
    · rw [Resolution.assumed, hasked] at hname
      exact absurd (huser name hasked) hname
  · have hforeign : group ∉ targets.groups := fun hmem => hunwritable (hgroups group hmem)
    rw [Resolution.groups_assumed] at hgroup
    rcases List.mem_append.mp hgroup with hown | hnew
    · exact ⟨hown, hforeign⟩
    · rw [List.mem_eraseDups, List.mem_filter] at hnew
      exact absurd hnew.1 hforeign

/-- An identity is told as a whole or not at all. One whose names are all writable is told in the
    headers and in the body, and each of these is enough to know it. Of any other nothing is told,
    and the names at fault are those of the caller, not what its request asked for. A refusal is
    told with its own status, kind and sentence, whatever these contain, and with no header of an
    identity; and so is an error in general, with the number of its request or without. -/
theorem respond_carries_or_reports [Wording] (c : Context) (network : Network σ) (now : Nat)
    (request : Request) (a : Activity σ)
    (hrequest : ¬ (request.method = "GET" ∧ request.path = "/metrics")) :
    (∀ i, (c.resolve network now request a).1 = .ok i →
      ((Writable i.username ∧ ∀ group ∈ i.groups, Writable group) →
        ∃ response, (c.respond network now request a).1 = some response ∧ response.Carries i) ∧
      (¬ (Writable i.username ∧ ∀ group ∈ i.groups, Writable group) →
        (∃ reason,
          (c.respond network now request a).1
            = some (Response.ofError (.internal reason) none) ∧
          ∀ requestId, (Response.ofError (.internal reason) requestId).Reports requestId ⟨500⟩
            "internal" ("Internal Server Error: " ++ reason)) ∧
        ∃ caller p targets,
          (c.extractor.extract (c.client.authority network) (.ofRequest request)).runFrom
            ⟨c.scope now a, a.network, [], []⟩ = (.ok caller, p) ∧
          Impersonation.Targets.ofHeaders request.headers = .ok targets ∧
          (¬ Writable i.username → targets.user = none ∧ i.username = caller.username) ∧
          ∀ group ∈ i.groups, ¬ Writable group →
            group ∈ caller.groups ∧ group ∉ targets.groups)) ∧
    (∀ cause, (c.resolve network now request a).1 = .error (.refused cause) →
      (c.respond network now request a).1
        = some (Response.ofError (.identity cause) none) ∧
      ∀ requestId, (Response.ofError (.identity cause) requestId).Reports requestId cause.status
        cause.kind cause.message) ∧
    ((c.resolve network now request a).1 = .error .pending →
      (c.respond network now request a).1 = none) ∧
    ∀ (response response' : Response) (i i' : Identity), response.Carries i →
      response'.Carries i' → i ≠ i' →
        response.headers ≠ response'.headers ∧ response.body ≠ response'.body := by
  have hrespond := (respond_of_request c network now request a
    (isMetricsRequest_eq_false hrequest)).1
  rw [← (resolve_of_outcome c network now request a).1] at hrespond
  refine ⟨fun i hi => ⟨?_, fun hunwritable => ⟨?_, ?_⟩⟩,
    fun cause hcause => ⟨?_, fun requestId => ?_⟩, fun hpending => ?_,
    fun response response' i i' h h' hne => ⟨?_, ?_⟩⟩
  · rintro ⟨hname, hgroups⟩
    rw [hi] at hrespond
    exact ⟨_, hrespond, Response.carries_ofIdentity hname hgroups⟩
  · -- A value that cannot be made stops the whole response, and an error is sent for it.
    refine ⟨"Unable to build response: " ++ Wording.header, ?_,
      fun requestId => Response.reports_ofError (.internal _) requestId⟩
    rw [hrespond, hi, responseTo, Response.ofResult_of_unwritable hunwritable]
  · -- The identity is what the caller assumed, and what it asked for came from headers.
    rw [(resolve_of_outcome c network now request a).1] at hi
    rcases Resolution.resolve_eq_ok _ _ _ _ i hi with
      ⟨caller, p, targets, hextract, -, htargets, henforce⟩
    rcases Resolution.enforce_eq_ok henforce with ⟨rfl, -⟩
    exact ⟨caller, p, targets, hextract, htargets, unwritable_of_assumed htargets⟩
  · rw [hrespond, hcause]
    rfl
  · exact Response.reports_ofError (.identity cause) requestId
  · rw [hrespond, hpending]
    rfl
  · exact fun hheaders => hne (h.ext_headers h' hheaders)
  · exact fun hbody => hne (h.ext_body h' hbody)

/-- The authority knows a token as that of a user whose name has a line in it. The name cannot be
    told, and it is the name of the caller. -/
theorem respond_reports_unwritable :
    let _ : Wording := .own
    let network : Network Unit := ⟨fun _ _ =>
      (.instant (.response ⟨201⟩ "[[true,[\"a\\nb\"]]]".toUTF8.toList), ())⟩
    let c : Context :=
      ⟨⟨"sub", .trusting⟩, ⟨"http://authority", none, 1000, ⟨none, none⟩⟩, 5000, ⟨0, none⟩⟩
    let request : Request := ⟨"GET", "/",
      [(⟨"authorization"⟩, ⟨[0x42, 0x65, 0x61, 0x72, 0x65, 0x72, 0x20, 0x74], by decide⟩)], none⟩
    let a : Activity Unit := ⟨.empty, .idle, ()⟩
    (∃ reason, (c.respond network 0 request a).1
        = some (Response.ofError (.internal reason) none)) ∧
      ∃ caller p,
        (c.extractor.extract (c.client.authority network) (.ofRequest request)).runFrom
          ⟨c.scope 0 a, a.network, [], []⟩ = (.ok caller, p) ∧ "a\nb" = caller.username := by
  intro _ network c request a
  have hresolved : (c.resolve network 0 request a).1.toOption.map Identity.username
      = some "a\nb" := by decide +kernel
  rcases hresult : (c.resolve network 0 request a).1 with stop | i
  · rw [hresult] at hresolved
    exact absurd hresolved.symm (Option.some_ne_none _)
  · rw [hresult] at hresolved
    have hname : i.username = "a\nb" := Option.some.inj hresolved
    have hunwritable : ¬ Writable i.username := fun hall => by
      rw [hname] at hall
      exact absurd (hall 0x0A (by decide +kernel)) (by decide)
    have h := (respond_carries_or_reports c network 0 request a (by decide)).1 i hresult
    rcases h.2 fun hall => hunwritable hall.1 with
      ⟨⟨reason, hreason, -⟩, caller, p, targets, hextract, -, huser, -⟩
    exact ⟨⟨reason, hreason⟩, caller, p, hextract, hname.symm.trans (huser hunwritable).2⟩

end Server

end ForwardAuth
