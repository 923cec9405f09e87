import ForwardAuth.Proofs.Records
import ForwardAuth.Review.Client

/-!
# Answers are decoded fail-closed

What the authority sends back is bytes under a status, and anyone may get them wrong. An answer
grants something only if it says so in one way: under a status of success, as one JSON value of the
shape of the review, with the literal `true` in the place for it. Everything else has to be an error
or a refusal.

The shapes are stated apart from the reading. What a review says under a name is the value at the
end of a path of names, `allowedOf?`, `statusOf?` and `userOf?`, and none if the path ends before.
The readers have a default at each step of such a path. That these come to the same is shown step by
step: what is left out at one step is left out at all that follow, and the defaults agree on it.

Of the call to the authority it is only asked that it answers in time. Then its answer is not given
up, and is what the status and the body make it.

## Main definitions

* `IsAccessAnswer`, `IsTokenAnswer`: The shapes of answers.
* `allowedOf?`, `statusOf?`, `userOf?`: What an answer says.
* `Allows`, `Decides`: What an answer means.
* `Decoded`: What becomes of a response.
* `Call.InTime`: A call that is not given up.

## Theorems

* `exists_allowed?_iff`, `exists_verdict?_iff`: The answers that are read are those of the shapes.
* `allows_of_readOr`, `decides_of_readOr`: What was read is what the answer means.
* `decoded_interpret`: The status and the body decide.
* `within_go_of_inTime`: A call that answers in time is not given up.
* `decodes_fail_closed`: Answers are decoded fail-closed.
-/

namespace ForwardAuth

open Json (Written Spells)

namespace Review

/-! ## The shapes of answers -/

/-- The value is a truth value. -/
def IsBool (w : Written) : Prop :=
  ∃ b, w = .bool b

/-- The value is a text. -/
def IsText (w : Written) : Prop :=
  ∃ s, Says w s

/-- The value is a list of texts. -/
def IsTexts (w : Written) : Prop :=
  ∃ texts, SaysAll w texts

/-- The shape of an answer to an access review. -/
def IsAccessAnswer : Written → Prop :=
  HasShape [("status", HasShape [("allowed", IsBool)])]

/-- The shape of a user in the answer to a token review. -/
def IsUser : Written → Prop :=
  HasShape [("username", IsText), ("groups", IsTexts)]

/-- The shape of the status in the answer to a token review. -/
def IsTokenStatus : Written → Prop :=
  HasShape [("authenticated", IsBool), ("user", IsUser), ("error", fun w => w = .null ∨ IsText w)]

/-- The shape of an answer to a token review. -/
def IsTokenAnswer : Written → Prop :=
  HasShape [("status", IsTokenStatus)]

/-- What an access review says about `allowed`. -/
def allowedOf? (w : Written) : Option Written :=
  (valueOf? ["status"] w "status").bind fun status => valueOf? ["allowed"] status "allowed"

/-- What the status of a token review says under a name. -/
def statusOf? (w : Written) (name : String) : Option Written :=
  (valueOf? ["status"] w "status").bind fun status =>
    valueOf? ["authenticated", "user", "error"] status name

/-- What a token review says of the user under a name. -/
def userOf? (w : Written) (name : String) : Option Written :=
  (statusOf? w "user").bind fun user => valueOf? ["username", "groups"] user name

/-- The field has this reading, or is left out and has its default. -/
def Given {α : Type} (value : Option Written) (default : α) (Reads : Written → α → Prop) (a : α) :
    Prop :=
  match value with
  | none => a = default
  | some w => Reads w a

theorem given_of_readOr {α : Type} {default : α} {read : Written → Option α}
    {Reads : Written → α → Prop} (hread : ∀ w a, read w = some a ↔ Reads w a)
    {value : Option Written} {a : α} (h : readOr default read value = some a) :
    Given value default Reads a := by
  cases value with
  | none => exact (Option.some.inj h).symm
  | some w => exact (hread w a).mp h

/-! ## What is read of an answer -/

theorem statusAllowed?_eq_some_iff {w : Written} {b : Bool} : statusAllowed? w = some b ↔
    IsRecord ["allowed"] w ∧ readOr false bool? (valueOf? ["allowed"] w "allowed") = some b :=
  field_eq_some_iff

theorem userInfo?_eq_some_iff {w : Written} {username : String} {groups : List String} :
    userInfo? w = some (username, groups) ↔ IsRecord ["username", "groups"] w ∧
      readOr "" text? (valueOf? ["username", "groups"] w "username") = some username ∧
      readOr [] texts? (valueOf? ["username", "groups"] w "groups") = some groups := by
  rw [userInfo?]
  by_cases hrecord : IsRecord ["username", "groups"] w
  · rw [(fields?_eq_some_iff (by decide)).mpr ⟨hrecord, rfl⟩]
    simp only [List.map_cons, List.map_nil, Option.bind_eq_bind, Option.bind_eq_some_iff,
      Option.pure_def, Option.some.injEq, Prod.mk.injEq, hrecord, true_and]
    constructor
    · rintro ⟨_, husername, _, hgroups, rfl, rfl⟩
      exact ⟨husername, hgroups⟩
    · rintro ⟨husername, hgroups⟩
      exact ⟨_, husername, _, hgroups, rfl, rfl⟩
  · rw [fields?_of_not_isRecord (by decide) hrecord]
    exact iff_of_false (by rintro ⟨⟩) fun h => hrecord h.1

theorem TokenStatus.ofWritten?_eq_some_iff {w : Written} {s : TokenStatus} :
    TokenStatus.ofWritten? w = some s ↔ IsRecord ["authenticated", "user", "error"] w ∧
      readOr false bool? (valueOf? ["authenticated", "user", "error"] w "authenticated")
        = some s.authenticated ∧
      readOr ("", []) userInfo? (valueOf? ["authenticated", "user", "error"] w "user")
        = some (s.username, s.groups) ∧
      readOr none nullable? (valueOf? ["authenticated", "user", "error"] w "error")
        = some s.error := by
  rw [ofWritten?]
  by_cases hrecord : IsRecord ["authenticated", "user", "error"] w
  · rw [(fields?_eq_some_iff (by decide)).mpr ⟨hrecord, rfl⟩]
    simp only [List.map_cons, List.map_nil, Option.bind_eq_bind, Option.bind_eq_some_iff,
      Option.pure_def, Option.some.injEq, hrecord, true_and]
    constructor
    · rintro ⟨_, hauthenticated, ⟨_, _⟩, huser, _, herror, rfl⟩
      exact ⟨hauthenticated, huser, herror⟩
    · rintro ⟨hauthenticated, huser, herror⟩
      exact ⟨_, hauthenticated, _, huser, _, herror, rfl⟩
  · rw [fields?_of_not_isRecord (by decide) hrecord]
    exact iff_of_false (by rintro ⟨⟩) fun h => hrecord h.1

/-- The status of an answer, read if there is one. -/
def answer? {α : Type} (default : α) (read : Written → Option α) (body : List UInt8) : Option α :=
  (Written.read? body).bind fun w =>
    match fields? ["status"] w with
    | some [status] => readOr default read status
    | _ => none

theorem allowed?_eq_answer? : allowed? = answer? false statusAllowed? := rfl

theorem tokenStatus?_eq_answer? : tokenStatus? = answer? .silent TokenStatus.ofWritten? := rfl

theorem answer?_eq_some_iff {α : Type} {default : α} {read : Written → Option α}
    {body : List UInt8} {a : α} : answer? default read body = some a ↔
      ∃ w, Spells body w.tokens ∧ IsRecord ["status"] w ∧
        readOr default read (valueOf? ["status"] w "status") = some a := by
  rw [answer?, Option.bind_eq_some_iff]
  exact exists_congr fun w => and_congr Written.read?_eq_some_iff field_eq_some_iff

/-! ## Shapes are what can be read -/

theorem exists_bool?_iff {w : Written} : (∃ b, bool? w = some b) ↔ IsBool w :=
  exists_congr fun _ => bool?_eq_some_iff

theorem exists_nullable?_iff {w : Written} :
    (∃ text, nullable? w = some text) ↔ w = .null ∨ IsText w := by
  constructor
  · rintro ⟨text, htext⟩
    exact (nullable?_eq_some_iff.mp htext).imp And.left fun ⟨s, hs, _⟩ => ⟨s, hs⟩
  · rintro (hnull | ⟨s, hs⟩)
    · exact ⟨none, nullable?_eq_some_iff.mpr (Or.inl ⟨hnull, rfl⟩)⟩
    · exact ⟨some s, nullable?_eq_some_iff.mpr (Or.inr ⟨s, hs, rfl⟩)⟩

theorem exists_statusAllowed?_iff {w : Written} :
    (∃ b, statusAllowed? w = some b) ↔ HasShape [("allowed", IsBool)] w := by
  simp only [statusAllowed?_eq_some_iff, exists_and_left, exists_readOr_iff, exists_bool?_iff]
  simp only [HasShape, List.map_cons, List.map_nil, List.forall_mem_singleton]

theorem exists_userInfo?_iff {w : Written} : (∃ user, userInfo? w = some user) ↔ IsUser w := by
  have htext : ∀ v, (∃ s, text? v = some s) ↔ IsText v := fun v =>
    exists_congr fun _ => text?_eq_some_iff
  have htexts : ∀ v, (∃ texts, texts? v = some texts) ↔ IsTexts v := fun v =>
    exists_congr fun _ => texts?_eq_some_iff
  simp only [Prod.exists, userInfo?_eq_some_iff, exists_and_left, exists_and_right,
    exists_readOr_iff, htext, htexts]
  simp only [IsUser, HasShape, List.map_cons, List.map_nil, List.forall_mem_cons,
    List.not_mem_nil, false_implies, implies_true, and_true]

theorem exists_ofWritten?_iff {w : Written} :
    (∃ s, TokenStatus.ofWritten? w = some s) ↔ IsTokenStatus w := by
  constructor
  · rintro ⟨s, hs⟩
    rcases TokenStatus.ofWritten?_eq_some_iff.mp hs with ⟨hrecord, hauthenticated, huser, herror⟩
    refine ⟨hrecord, ?_⟩
    simp only [List.forall_mem_cons, List.not_mem_nil, false_implies, implies_true, and_true]
    refine ⟨fun v hv => ?_, fun v hv => ?_, fun v hv => ?_⟩
    · exact exists_bool?_iff.mp (exists_readOr_iff.mp ⟨_, hauthenticated⟩ v hv)
    · exact exists_userInfo?_iff.mp (exists_readOr_iff.mp ⟨_, huser⟩ v hv)
    · exact exists_nullable?_iff.mp (exists_readOr_iff.mp ⟨_, herror⟩ v hv)
  · rintro ⟨hrecord, hfields⟩
    simp only [List.forall_mem_cons, List.not_mem_nil, false_implies, implies_true, and_true]
      at hfields
    rcases hfields with ⟨hauthenticated, huser, herror⟩
    rcases exists_readOr_iff.mpr fun v hv => exists_bool?_iff.mpr (hauthenticated v hv) with
      ⟨authenticated, hauthenticated⟩
    rcases exists_readOr_iff.mpr fun v hv => exists_userInfo?_iff.mpr (huser v hv) with
      ⟨⟨username, groups⟩, huser⟩
    rcases exists_readOr_iff.mpr fun v hv => exists_nullable?_iff.mpr (herror v hv) with
      ⟨error, herror⟩
    -- Each field can be read, and so can the record of all three.
    exact ⟨⟨authenticated, username, groups, error⟩,
      TokenStatus.ofWritten?_eq_some_iff.mpr ⟨hrecord, hauthenticated, huser, herror⟩⟩

theorem exists_answer?_iff {α : Type} {default : α} {read : Written → Option α}
    {Shape : Written → Prop} (hread : ∀ w, (∃ a, read w = some a) ↔ Shape w) {body : List UInt8} :
    (∃ a, answer? default read body = some a) ↔
      ∃ w, Spells body w.tokens ∧ HasShape [("status", Shape)] w := by
  simp only [answer?_eq_some_iff, HasShape, List.map_cons, List.map_nil,
    List.forall_mem_singleton]
  constructor
  · rintro ⟨a, w, hw, hrecord, ha⟩
    exact ⟨w, hw, hrecord, fun v hv => (hread v).mp (exists_readOr_iff.mp ⟨a, ha⟩ v hv)⟩
  · rintro ⟨w, hw, hrecord, hstatus⟩
    rcases exists_readOr_iff.mpr fun v hv => (hread v).mpr (hstatus v hv) with ⟨a, ha⟩
    exact ⟨a, w, hw, hrecord, ha⟩

/-- The answers to access reviews that are read. -/
theorem exists_allowed?_iff {body : List UInt8} :
    (∃ b, allowed? body = some b) ↔ ∃ w, Spells body w.tokens ∧ IsAccessAnswer w := by
  rw [allowed?_eq_answer?]
  exact exists_answer?_iff fun w => exists_statusAllowed?_iff

/-- The answers to token reviews that are read. -/
theorem exists_verdict?_iff {body : List UInt8} :
    (∃ v, verdict? body = some v) ↔ ∃ w, Spells body w.tokens ∧ IsTokenAnswer w := by
  have hstatus : (∃ s, tokenStatus? body = some s) ↔
      ∃ w, Spells body w.tokens ∧ IsTokenAnswer w := by
    rw [tokenStatus?_eq_answer?]
    exact exists_answer?_iff fun w => exists_ofWritten?_iff
  -- Every status has a verdict, so nothing is lost after the reading.
  rw [← hstatus]
  constructor
  · rintro ⟨v, hv⟩
    rcases Option.map_eq_some_iff.mp hv with ⟨s, hs, -⟩
    exact ⟨s, hs⟩
  · rintro ⟨s, hs⟩
    exact ⟨s.verdict, Option.map_eq_some_iff.mpr ⟨s, hs, rfl⟩⟩

/-! ## What answers mean -/

/-- An access review allows the access if it says `true` and no other word for it. -/
def Allows (w : Written) (allowed : Bool) : Prop :=
  allowed = true ↔ allowedOf? w = some (.bool true)

/-- The error that a token review tells is this text. -/
def TellsError (w : Written) (e : String) : Prop :=
  ∃ v, statusOf? w "error" = some v ∧ Says v e

/-- What a token review means for the token. -/
structure Decides (w : Written) (v : TokenVerdict) : Prop where
  username : Given (userOf? w "username") "" Says v.username
  groups : Given (userOf? w "groups") [] SaysAll v.groups
  accepted : v.statusError = none ↔
    statusOf? w "authenticated" = some (.bool true) ∧ ∀ e, TellsError w e → e = ""
  told : ∀ e, TellsError w e → e ≠ "" → v.statusError = some e
  untold : statusOf? w "authenticated" ≠ some (.bool true) → (∀ e, TellsError w e → e = "") →
    ∃ reason, v.statusError = some reason ∧ reason ≠ ""

-- Only the literal word is taken for yes.
theorem eq_true_of_readOr {value : Option Written} {b : Bool}
    (h : readOr false bool? value = some b) : b = true ↔ value = some (.bool true) := by
  cases value with
  | none =>
      cases h
      exact iff_of_false (by rintro ⟨⟩) (by rintro ⟨⟩)
  | some v => rw [bool?_eq_some_iff.mp h, Option.some.injEq, Json.Written.bool.injEq]

/-- An access review that is read means what was read. -/
theorem allows_of_readOr {w : Written} {b : Bool}
    (h : readOr false statusAllowed? (valueOf? ["status"] w "status") = some b) : Allows w b := by
  refine eq_true_of_readOr ?_
  rw [allowedOf?]
  cases hstatus : valueOf? ["status"] w "status" with
  | none =>
      rw [hstatus] at h
      exact h
  | some status =>
      rw [hstatus] at h
      exact (statusAllowed?_eq_some_iff.mp h).2

-- A status that is left out says nothing, under no name.
theorem readOr_statusOf? {w : Written} {s : TokenStatus}
    (h : readOr .silent TokenStatus.ofWritten? (valueOf? ["status"] w "status") = some s) :
    readOr false bool? (statusOf? w "authenticated") = some s.authenticated ∧
      readOr ("", []) userInfo? (statusOf? w "user") = some (s.username, s.groups) ∧
      readOr none nullable? (statusOf? w "error") = some s.error := by
  simp only [statusOf?]
  cases hstatus : valueOf? ["status"] w "status" with
  | none =>
      rw [hstatus] at h
      cases h
      exact ⟨rfl, rfl, rfl⟩
  | some status =>
      rw [hstatus] at h
      exact (TokenStatus.ofWritten?_eq_some_iff.mp h).2

theorem readOr_userOf? {w : Written} {username : String} {groups : List String}
    (h : readOr ("", []) userInfo? (statusOf? w "user") = some (username, groups)) :
    readOr "" text? (userOf? w "username") = some username ∧
      readOr [] texts? (userOf? w "groups") = some groups := by
  simp only [userOf?]
  cases huser : statusOf? w "user" with
  | none =>
      rw [huser] at h
      cases h
      exact ⟨rfl, rfl⟩
  | some user =>
      rw [huser] at h
      exact (userInfo?_eq_some_iff.mp h).2

theorem says_iff_of_nullable? {v : Written} {error : Option String} (h : nullable? v = some error)
    (e : String) : Says v e ↔ error = some e := by
  rcases nullable?_eq_some_iff.mp h with ⟨rfl, rfl⟩ | ⟨s, hs, rfl⟩
  · exact iff_of_false (by rintro ⟨_, ⟨⟩, _⟩) (by rintro ⟨⟩)
  · rw [← text?_eq_some_iff, text?_eq_some_iff.mpr hs]

theorem tellsError_iff {w : Written} {error : Option String}
    (h : readOr none nullable? (statusOf? w "error") = some error) (e : String) :
    TellsError w e ↔ error = some e := by
  rw [TellsError]
  cases hvalue : statusOf? w "error" with
  | none =>
      rw [hvalue] at h
      cases h
      exact iff_of_false (by rintro ⟨_, ⟨⟩, _⟩) (by rintro ⟨⟩)
  | some v =>
      rw [hvalue] at h
      rw [← says_iff_of_nullable? h]
      constructor
      · rintro ⟨v', hv', he⟩
        rw [Option.some.inj hv']
        exact he
      · exact fun he => ⟨v, rfl, he⟩

theorem TokenStatus.rejection?_of_error {s : TokenStatus} {e : String} (h : s.error = some e)
    (he : e ≠ "") : s.rejection? = some e := by
  rw [rejection?, h, Option.filter_some_pos]
  simpa using he

-- An error that is empty is none.
theorem TokenStatus.rejection?_of_no_error {s : TokenStatus}
    (h : ∀ e, s.error = some e → e = "") :
    s.rejection? = if s.authenticated then none else some notAuthenticated := by
  have hnone : (s.error.filter fun e => !e.isEmpty) = none := by
    rw [Option.filter_eq_none_iff]
    intro e he
    rw [h e he]
    decide
  rw [rejection?, hnone]

/-- A token review that is read means what was read. -/
theorem decides_of_readOr {w : Written} {s : TokenStatus}
    (h : readOr .silent TokenStatus.ofWritten? (valueOf? ["status"] w "status") = some s) :
    Decides w s.verdict := by
  rcases readOr_statusOf? h with ⟨hauthenticated, huser, herror⟩
  rcases readOr_userOf? huser with ⟨husername, hgroups⟩
  have hauthentic := eq_true_of_readOr hauthenticated
  have htells := tellsError_iff herror
  refine ⟨given_of_readOr (fun _ _ => text?_eq_some_iff) husername,
    given_of_readOr (fun _ _ => texts?_eq_some_iff) hgroups, ?_, ?_, ?_⟩
  · by_cases hnone : ∀ e, s.error = some e → e = ""
    · -- No error is told, and then the word about the token decides.
      rw [TokenStatus.verdict, TokenStatus.rejection?_of_no_error hnone, ← hauthentic]
      by_cases hyes : s.authenticated = true
      · rw [if_pos hyes]
        exact ⟨fun _ => ⟨hyes, fun e he => hnone e ((htells e).mp he)⟩, fun _ => rfl⟩
      · rw [if_neg hyes]
        exact iff_of_false (by rintro ⟨⟩) fun h => hyes h.1
    · -- The token is not accepted, because an error is told that is not empty.
      rcases not_forall.mp hnone with ⟨e, he⟩
      rcases Classical.not_imp.mp he with ⟨he, hne⟩
      rw [TokenStatus.verdict, TokenStatus.rejection?_of_error he hne]
      exact iff_of_false (by rintro ⟨⟩) fun h => hne (h.2 e ((htells e).mpr he))
  · intro e he hne
    exact TokenStatus.rejection?_of_error ((htells e).mp he) hne
  · intro hno hempty
    refine ⟨TokenStatus.notAuthenticated, ?_, by decide⟩
    rw [TokenStatus.verdict,
      TokenStatus.rejection?_of_no_error fun e he => hempty e ((htells e).mpr he),
      if_neg (mt hauthentic.mp hno)]

/-! ## Answers to the client -/

/-- What becomes of a response: refused for its status, refused for its body, or decoded. -/
structure Decoded {α : Type} (Shape : Written → Prop) (Means : Written → α → Prop)
    (status : Http.Status) (body : List UInt8) (outcome : Except Error α) : Prop where
  refused : ¬ (200 ≤ status.code ∧ status.code ≤ 299) → outcome = .error (.status status)
  unreadable : 200 ≤ status.code → status.code ≤ 299 →
    (∀ w, Spells body w.tokens → ¬ Shape w) → ∃ reason, outcome = .error (.decode reason)
  readable : 200 ≤ status.code → status.code ≤ 299 →
    ∀ w, Spells body w.tokens → Shape w → ∃ a, outcome = .ok a ∧ Means w a

theorem decoded_interpret [Wording] {α : Type} {read? : List UInt8 → Option α}
    {Shape : Written → Prop} {Means : Written → α → Prop} {body : List UInt8}
    (kind : Metrics.ReviewKind)
    (hshape : (∃ a, read? body = some a) ↔ ∃ w, Spells body w.tokens ∧ Shape w)
    (hmeans : ∀ w a, Spells body w.tokens → read? body = some a → Means w a)
    (status : Http.Status) :
    Decoded Shape Means status body
      (Client.interpret kind read? (.response status body)).answer := by
  have hsuccess : status.isSuccess = true ↔ 200 ≤ status.code ∧ status.code ≤ 299 := by
    rw [Http.Status.isSuccess, Bool.and_eq_true, decide_eq_true_eq, decide_eq_true_eq]
    omega
  constructor
  · intro h
    rw [Client.interpret, if_neg (mt hsuccess.mp h)]
    rfl
  · intro hlow hhigh hnone
    rw [Client.interpret, if_pos (hsuccess.mpr ⟨hlow, hhigh⟩)]
    cases hread : read? body with
    | none => exact ⟨_, rfl⟩
    | some a =>
        rcases hshape.mp ⟨a, hread⟩ with ⟨w, hw, hw'⟩
        exact absurd hw' (hnone w hw)
  · intro hlow hhigh w hw hw'
    rcases hshape.mpr ⟨w, hw, hw'⟩ with ⟨a, ha⟩
    rw [Client.interpret, if_pos (hsuccess.mpr ⟨hlow, hhigh⟩), ha]
    exact ⟨a, rfl, hmeans w a hw ha⟩

-- A text is that of one tree only.
theorem readOr_of_answer? {α : Type} {default : α} {read : Written → Option α}
    {body : List UInt8} {w : Written} {a : α} (hw : Spells body w.tokens)
    (h : answer? default read body = some a) :
    readOr default read (valueOf? ["status"] w "status") = some a := by
  rcases answer?_eq_some_iff.mp h with ⟨w', hw', -, ha⟩
  have heq := (Written.read?_eq_some_iff.mpr hw).symm.trans (Written.read?_eq_some_iff.mpr hw')
  rwa [Option.some.inj heq]

end Review

/-- None of the waits among the steps reaches the end of the time that is left. -/
def Call.InTime (left : Nat) : List Call.Step → Prop
  | [] => True
  | .cancel _ :: steps => InTime left steps
  | .work milliseconds :: steps => InTime (left - milliseconds) steps
  | .wait milliseconds :: steps => milliseconds < left ∧ InTime (left - milliseconds) steps

/-- A call that answers in time is not given up. -/
theorem Call.within_go_of_inTime {α : Type} {late a : α} {c : Call α} (hanswer : c.answer = some a)
    (steps : List Step) {left : Nat} (h : InTime left steps) :
    within.go late c left steps = ⟨steps, some a⟩ := by
  induction steps generalizing left with
  | nil =>
      rw [within.go, hanswer]
      rfl
  | cons step steps ih =>
      cases step with
      | cancel reach =>
          rw [within.go, ih h]
          rfl
      | work milliseconds =>
          rw [within.go, ih h]
          rfl
      | wait milliseconds =>
          rw [within.go, if_neg (Nat.not_le.mpr h.1), ih h.2]
          rfl

namespace Review

theorem Client.post_of_answer [Wording] {σ α : Type} {c : Client} {network : Network σ}
    {r : Outgoing} {memory memory' : σ} {call : Call Exchange} {exchange : Exchange}
    (kind : Metrics.ReviewKind) (path : String) (read? : List UInt8 → Option α)
    (hsend : network.send r memory = (call, memory')) (hanswer : call.answer = some exchange)
    (htime : Call.InTime c.timeout call.steps) :
    c.post network kind path read? (some r) memory
      = (⟨call.steps, some (interpret kind read? exchange)⟩, memory') := by
  have hcall : (call.map (interpret kind read?)).answer = some (interpret kind read? exchange) := by
    rw [Call.map, hanswer]
    rfl
  rw [post, hsend]
  exact congrArg (·, memory') (Call.within_go_of_inTime hcall call.steps htime)

/-- Answers are decoded fail-closed. A review that is answered in time is decided by the status and
    the body alone. No status but success lets the body be looked at. A body that is not one value
    of the shape is no answer. And of a value that is, only `true` allows an access, and only `true`
    without an error accepts a token. -/
theorem decodes_fail_closed [Wording] {σ : Type} (c : Client) (network : Network σ) {r : Outgoing}
    {memory memory' : σ} {call : Call Exchange} {status : Http.Status} {body : List UInt8}
    (hsend : network.send r memory = (call, memory'))
    (hanswer : call.answer = some (.response status body))
    (htime : Call.InTime c.timeout call.steps) :
    (∀ q, c.accessRequest? q = some r → ∃ outcome,
      (c.authority network).access q memory = (⟨call.steps, some outcome⟩, memory') ∧
        Decoded IsAccessAnswer Allows status body outcome) ∧
    ∀ q, c.tokenRequest? q = some r → ∃ outcome,
      (c.authority network).token q memory = (⟨call.steps, some outcome⟩, memory') ∧
        Decoded IsTokenAnswer Decides status body outcome := by
  constructor
  · intro q hq
    refine ⟨(Client.interpret .access allowed? (.response status body)).answer, ?_,
      decoded_interpret .access ?_ ?_ status⟩
    · rw [Client.authority_access, hq, Client.post_of_answer _ _ _ hsend hanswer htime]
      rfl
    · exact exists_allowed?_iff
    · intro w b hw hb
      rw [allowed?_eq_answer?] at hb
      exact allows_of_readOr (readOr_of_answer? hw hb)
  · intro q hq
    refine ⟨(Client.interpret .token verdict? (.response status body)).answer, ?_,
      decoded_interpret .token ?_ ?_ status⟩
    · rw [Client.authority_token, hq, Client.post_of_answer _ _ _ hsend hanswer htime]
      rfl
    · exact exists_verdict?_iff
    · intro w v hw hv
      rcases Option.map_eq_some_iff.mp hv with ⟨s, hs, rfl⟩
      rw [tokenStatus?_eq_answer?] at hs
      exact decides_of_readOr (readOr_of_answer? hw hs)

/-- Arrays that stand for objects allow the access they say `true` for, if the status is one of
    success. -/
theorem decodes_fail_closed_arrays :
    let _ : Wording := .own
    let network : Network Nat := ⟨fun _ count =>
      (.instant (.response ⟨if count = 0 then 500 else 201⟩ "[[true]]".toUTF8.toList), count + 1)⟩
    let c : Client := ⟨"http://authority", none, 1000, ⟨none, none⟩⟩
    let q : AccessQuery := .impersonate "bob" [] .users "carol"
    ((c.authority network).access q 0).1.answer = some (.error (.status ⟨500⟩)) ∧
      ((c.authority network).access q 1).1.answer = some (.ok true) := by
  intro _ network c q
  have hrequest : (c.accessRequest? q).isSome = true := by decide +kernel
  rcases Option.isSome_iff_exists.mp hrequest with ⟨r, hr⟩
  have hspells : Spells "[[true]]".toUTF8.toList (Written.array [.array [.bool true]]).tokens := by
    rw [show "[[true]]".toUTF8.toList = [0x5B, 0x5B, 0x74, 0x72, 0x75, 0x65, 0x5D, 0x5D]
      by decide +kernel]
    exact Written.read?_eq_some_iff.mp (by with_unfolding_all rfl)
  have hshape : IsAccessAnswer (.array [.array [.bool true]]) := by
    refine ⟨Nat.le_refl 1, fun f hf v hv => ?_⟩
    rw [List.mem_singleton.mp hf] at hv ⊢
    rw [← Option.some.inj hv]
    refine ⟨Nat.le_refl 1, fun f hf v hv => ?_⟩
    rw [List.mem_singleton.mp hf] at hv ⊢
    exact ⟨true, (Option.some.inj hv).symm⟩
  constructor
  · rcases (decodes_fail_closed c network (show network.send r 0 = _ from rfl) rfl
      trivial).1 q hr with ⟨outcome, houtcome, hdecoded⟩
    rw [houtcome, hdecoded.refused (by decide)]
    rfl
  · rcases (decodes_fail_closed c network (show network.send r 1 = _ from rfl) rfl
      trivial).1 q hr with ⟨outcome, houtcome, hdecoded⟩
    rcases hdecoded.readable (by decide) (by decide) _ hspells hshape with ⟨b, rfl, hb⟩
    rw [houtcome, hb.mpr rfl]

end Review

end ForwardAuth
