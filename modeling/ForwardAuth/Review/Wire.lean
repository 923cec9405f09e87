import ForwardAuth.Json.Printer
import ForwardAuth.Review.Basic

/-!
# Reviews as they are sent

A review is asked for by a JSON object that says what kind of review it is and what it is about, and
is answered by an object with a status. What the answer leaves out is taken to its own disadvantage:
access is not allowed, and a token is not authentic, unless the answer says so. What it says wrongly
makes it no answer at all.

An answer is read with care for its form and no further. A field that nobody asks for may hold
anything; a field that is asked for may be given once. An array may stand for an object and then
gives the fields in their order.

## Main definitions

* `AccessQuery.body`, `TokenQuery.body`: The questions as JSON values.
* `fields?`: The named fields of a written object or array.
* `allowed?`: The answer to an access review.
* `TokenStatus`, `tokenStatus?`: The status in the answer to a token review.
* `verdict?`: The answer to a token review.
-/

namespace ForwardAuth.Review

open Json (Written)

/-- Where access reviews are asked for. -/
def AccessQuery.path : String := "/apis/authorization.k8s.io/v1/subjectaccessreviews"

/-- Where token reviews are asked for. -/
def TokenQuery.path : String := "/apis/authentication.k8s.io/v1/tokenreviews"

/-- A review of a kind, with what it is about. -/
def envelope (version kind : String) (spec : Json) : Json :=
  .object [("apiVersion", .string version), ("kind", .string kind), ("spec", spec)]

/-- The question about an access, as it is sent. -/
def AccessQuery.body (q : AccessQuery) : Json :=
  envelope "authorization.k8s.io/v1" "SubjectAccessReview" <|
    .object [
      ("resourceAttributes", .object [("verb", .string q.verb),
        ("resource", .string q.resource.name), ("name", .string q.name)]),
      ("user", .string q.actingUser),
      ("groups", .array (q.actingGroups.map .string))]

/-- The question about a token, as it is sent. -/
def TokenQuery.body (q : TokenQuery) : Json :=
  envelope "authentication.k8s.io/v1" "TokenReview" <| .object [("token", .string q.token)]

/-- The one value among members that have a name. Two are a mistake. -/
def field? (members : List (String × Written)) (name : String) : Option (Option Written) :=
  match members.filter fun m => m.1 = name with
  | [] => some none
  | [m] => some (some m.2)
  | _ => none

/-- The fields with the given names, each with its value if it has one. The names of an object are
    all texts, and an array has no more items than there are names. -/
def fields? (names : List String) : Written → Option (List (Option Written))
  | .object members => do
    let members ← members.mapM fun (k, v) => (Json.Piece.text? k).map fun k => (k, v)
    names.mapM (field? members)
  | .array items =>
    if items.length ≤ names.length then
      some (items.map some ++ List.replicate (names.length - items.length) none)
    else none
  | _ => none

/-- The value as a truth value. -/
def bool? : Written → Option Bool
  | .bool b => some b
  | _ => none

/-- The value as a text. -/
def text? : Written → Option String
  | .string pieces => Json.Piece.text? pieces
  | _ => none

/-- The value as a list of texts. -/
def texts? : Written → Option (List String)
  | .array items => items.mapM text?
  | _ => none

/-- The value as a text that may be null. -/
def nullable? : Written → Option (Option String)
  | .null => some none
  | w => (text? w).map some

/-- Reads a field, or takes its default if it is left out. -/
def readOr {α : Type} (default : α) (read : Written → Option α) (value : Option Written) :
    Option α :=
  value.elim (some default) read

/-- Whether the status of an access review allows the access. -/
def statusAllowed? (w : Written) : Option Bool :=
  match fields? ["allowed"] w with
  | some [allowed] => readOr false bool? allowed
  | _ => none

/-- The answer to an access review. -/
def allowed? (body : List UInt8) : Option Bool := do
  match fields? ["status"] (← Written.read? body) with
  | some [status] => readOr false statusAllowed? status
  | _ => none

/-- A user name and groups. -/
def userInfo? (w : Written) : Option (String × List String) :=
  match fields? ["username", "groups"] w with
  | some [username, groups] => return (← readOr "" text? username, ← readOr [] texts? groups)
  | _ => none

/-- What the status of a token review says: whether the token is authentic, whose it is, and what is
    wrong with it. -/
structure TokenStatus where
  authenticated : Bool
  username : String
  groups : List String
  error : Option String
  deriving DecidableEq, Repr

namespace TokenStatus

/-- The status that says nothing. -/
def silent : TokenStatus :=
  ⟨false, "", [], none⟩

/-- Why a token is not accepted that the authority says nothing else about. -/
def notAuthenticated : String := "token is not authenticated"

/-- Why the token is not accepted, if it is not: its own error counts first, unless it is empty. -/
def rejection? (s : TokenStatus) : Option String :=
  match s.error.filter fun e => !e.isEmpty with
  | some e => some e
  | none => if s.authenticated then none else some notAuthenticated

/-- What the status means for the token. -/
def verdict (s : TokenStatus) : TokenVerdict :=
  ⟨s.username, s.groups, s.rejection?⟩

/-- Reads the status of a token review. -/
def ofWritten? (w : Written) : Option TokenStatus :=
  match fields? ["authenticated", "user", "error"] w with
  | some [authenticated, user, error] => do
    let authenticated ← readOr false bool? authenticated
    let (username, groups) ← readOr ("", []) userInfo? user
    let error ← readOr none nullable? error
    return ⟨authenticated, username, groups, error⟩
  | _ => none

end TokenStatus

/-- The status in the answer to a token review. -/
def tokenStatus? (body : List UInt8) : Option TokenStatus := do
  match fields? ["status"] (← Written.read? body) with
  | some [status] => readOr .silent TokenStatus.ofWritten? status
  | _ => none

/-- The answer to a token review. -/
def verdict? (body : List UInt8) : Option TokenVerdict :=
  (tokenStatus? body).map TokenStatus.verdict

end ForwardAuth.Review
