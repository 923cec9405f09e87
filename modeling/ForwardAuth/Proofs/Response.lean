import ForwardAuth.Server.Router

/-!
# What a response tells

The proxy in front trusts what it is told in headers, so a response with status 200 has to tell the
identity that was resolved and nothing else. Only such a response has this status: every refusal has
another, and so has an identity that cannot be told. `tells_of_ok` gives the user name and the
groups as the proxy reads them, in order and byte for byte.

## Main definitions

* `Response.Tells`: The values of a header are the bytes of some texts.

## Theorems

* `Headers.values_append`: The values of two lists of fields.
* `tells_of_fields?`: Fields that are made from texts tell these texts.
* `Refusal.status_ne_ok`: A refusal has another status.
* `responseTo_eq_ok`: A response with status 200 is that for an identity.
* `tells_of_ok`: The response for an identity tells its user name and its groups.
-/

namespace ForwardAuth

theorem Http.Headers.values_append (h h' : Headers) (name : HeaderName) :
    values (h ++ h') name = values h name ++ values h' name :=
  List.filterMap_append

theorem Http.HeaderValue.bytes_of_ofString? {text : String} {value : HeaderValue}
    (h : ofString? text = some value) : value.bytes = text.toUTF8.toList := by
  unfold ofString? ofBytes? at h
  split at h
  · injection h with h
    rw [← h]
  · exact absurd h (by simp only [reduceCtorEq, not_false_eq_true])

theorem Refusal.status_ne_ok (cause : Refusal) : cause.status ≠ ⟨200⟩ := by
  unfold status
  intro h
  split at h
  all_goals exact absurd (congrArg Http.Status.code h) (by decide)

namespace Server

open Http (Headers HeaderName HeaderValue)

/-- The values of a header are the bytes of the texts, in order. -/
def Response.Tells (r : Response) (name : HeaderName) (texts : List String) : Prop :=
  (r.headers.values name).map HeaderValue.bytes = texts.map fun text => text.toUTF8.toList

/-- Fields that are made from texts hold under each name the texts that were given for it. -/
theorem tells_of_fields? {fields : List (HeaderName × String)} {headers : Headers}
    (h : Response.fields? fields = some headers) (name : HeaderName) :
    (headers.values name).map HeaderValue.bytes
      = (fields.filter fun f => f.1 = name).map fun f => f.2.toUTF8.toList := by
  induction fields generalizing headers with
  | nil =>
      injection h with h
      rw [← h]
      rfl
  | cons field fields ih =>
      unfold Response.fields? at h
      rw [List.mapM_cons, Option.bind_eq_bind, Option.bind_eq_some_iff] at h
      rcases h with ⟨first, hfirst, h⟩
      rw [Option.bind_eq_bind, Option.bind_eq_some_iff] at h
      rcases h with ⟨rest, hrest, h⟩
      injection h with h
      rw [Option.map_eq_some_iff] at hfirst
      rcases hfirst with ⟨value, hvalue, rfl⟩
      rw [← h]
      by_cases hname : field.1 = name
      · rw [Headers.values_cons_of_eq hname, List.filter_cons_of_pos (by simpa using hname),
          List.map_cons, List.map_cons, ih hrest, HeaderValue.bytes_of_ofString? hvalue]
      · rw [Headers.values_cons_of_ne hname, List.filter_cons_of_neg (by simpa using hname),
          ih hrest]

/-- A response with status 200 is that for an identity. -/
theorem responseTo_eq_ok [Wording] {result : Except Resolution.Stop Identity} {response : Response}
    (h : responseTo result = some response) (hstatus : response.status = ⟨200⟩) :
    ∃ i, result = .ok i ∧ Response.ofIdentity i = .ok response := by
  rcases result with (cause | _) | i
  · injection h with h
    rw [← h] at hstatus
    exact absurd hstatus (Refusal.status_ne_ok cause)
  · exact absurd h (by simp only [responseTo, reduceCtorEq, not_false_eq_true])
  · injection h with h
    rw [Response.ofResult] at h
    rcases htold : Response.ofIdentity i with e | told
    · -- What cannot be told is an internal error, and that has status 500.
      rw [htold] at h
      unfold Response.ofIdentity at htold
      split at htold
      · exact absurd htold (by simp only [pure, Except.pure, reduceCtorEq, not_false_eq_true])
      · injection htold with htold
        rw [← h, ← htold] at hstatus
        exact absurd (congrArg Http.Status.code hstatus) (show (500 : Nat) ≠ 200 by decide)
    · rw [htold] at h
      rw [← show told = response from h]
      exact ⟨i, rfl, htold⟩

/-- The response for an identity tells its user name and its groups, and no others. -/
theorem tells_of_ok [Wording] {i : Identity} {response : Response}
    (h : Response.ofIdentity i = .ok response) :
    response.Tells Response.userHeader [i.username] ∧
      response.Tells Response.groupHeader i.groups := by
  unfold Response.ofIdentity at h
  rcases hfields : Response.identityFields? i with _ | fields
  · rw [hfields] at h
    exact absurd h (by simp only [throw, throwThe, MonadExceptOf.throw, reduceCtorEq,
      not_false_eq_true])
  · rw [hfields] at h
    injection h with h
    unfold Response.Tells
    -- The type of the body is told under another name and adds nothing to either header.
    rw [← h, Headers.values_append, Headers.values_append,
      show Response.jsonType.values Response.userHeader = [] by decide +kernel,
      show Response.jsonType.values Response.groupHeader = [] by decide +kernel,
      List.nil_append, List.nil_append, tells_of_fields? hfields, tells_of_fields? hfields]
    have hne : Response.groupHeader ≠ Response.userHeader := by decide
    refine ⟨?_, ?_⟩
    · rw [List.filter_cons_of_pos (by rw [decide_eq_true_eq]), List.filter_eq_nil_iff.mpr]
      · rfl
      · intro field hfield
        rcases List.mem_map.mp hfield with ⟨group, -, rfl⟩
        rw [decide_eq_true_eq]
        exact hne
    · rw [List.filter_cons_of_neg (by rw [decide_eq_true_eq]; exact hne.symm),
        List.filter_eq_self.mpr, List.map_map]
      · rfl
      · intro field hfield
        rcases List.mem_map.mp hfield with ⟨group, -, rfl⟩
        exact decide_eq_true rfl

end Server

end ForwardAuth
