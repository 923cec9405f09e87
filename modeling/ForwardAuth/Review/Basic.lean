import ForwardAuth.Http.Status

/-!
# Reviews

The questions that only the authority can answer, and its answers. An access review asks whether a
caller may impersonate a user or a group. A token review asks whom an opaque token belongs to.

## Main definitions

* `AccessQuery`, `TokenQuery`: The questions.
* `TokenVerdict`: The answer to a token review. The answer to an access review is a `Bool`.
* `Misconfiguration`: Why nothing can be asked at all.
* `Review.Error`: Why there is no answer.
* `Review.Entry`: A review that was begun, with its answer if one was received.
-/

namespace ForwardAuth.Review

/-- What an impersonation is of, in the words of the authority. -/
inductive Resource where
  | users
  | groups
  deriving DecidableEq, Repr

/-- The name of the resource. -/
def Resource.name : Resource → String
  | .users => "users"
  | .groups => "groups"

/-- May this user, a member of these groups, do this to that user or group? -/
structure AccessQuery where
  actingUser : String
  actingGroups : List String
  verb : String
  resource : Resource
  name : String
  deriving DecidableEq, Repr

namespace AccessQuery

/-- What is asked about a resource here. -/
def impersonateVerb : String := "impersonate"

/-- May this user, a member of these groups, impersonate that user or group? -/
def impersonate (actingUser : String) (actingGroups : List String) (resource : Resource)
    (name : String) : AccessQuery :=
  ⟨actingUser, actingGroups, impersonateVerb, resource, name⟩

end AccessQuery

/-- Whose token is this? -/
structure TokenQuery where
  token : String
  deriving DecidableEq, Repr

/-- What the authority knows of a token: whom it belongs to, or why it is not accepted. -/
structure TokenVerdict where
  username : String
  groups : List String
  statusError : Option String
  deriving DecidableEq, Repr

/-- Why the client of the authority cannot be set up. -/
inductive Misconfiguration where
  /-- Of the client's certificate and its private key only one is configured. -/
  | halfIdentity
  /-- Of the client's certificate and its private key only one was given to a connection. -/
  | halfConnection
  /-- The address of the authority is no URI. -/
  | invalidUrl (reason : String)
  /-- The address of the authority does not say how to reach it over HTTP. -/
  | foreignScheme (url : String)
  /-- A file cannot be read, or what it holds cannot be used. -/
  | material (reason : String)
  deriving DecidableEq, Repr

/-- The cause in a sentence. -/
def Misconfiguration.message : Misconfiguration → String
  | halfIdentity => "Both certificate and key required for mTLS"
  | halfConnection => "Client certificate and private key must be both provided"
  | invalidUrl reason => "Invalid authority URL: " ++ reason
  | foreignScheme url => "Authority URL must be http or https: " ++ url
  | material reason => reason

/-- Why a review has no answer. -/
inductive Error where
  /-- The client of the authority cannot be set up. -/
  | configuration (cause : Misconfiguration)
  /-- The request could not be sent, or no response came back. -/
  | transport (reason : String)
  /-- The authority answered with a status that is no success. -/
  | status (code : Http.Status)
  /-- The authority answered something that is no review. -/
  | decode (reason : String)
  /-- The authority took too long. -/
  | timeout
  deriving DecidableEq, Repr

namespace Error

/-- The short name of the error. -/
def kind : Error → String
  | configuration _ => "configuration"
  | transport _ => "transport"
  | status _ => "status"
  | decode _ => "decode"
  | timeout => "timeout"

/-- The error in a sentence. -/
def message : Error → String
  | configuration cause => "authority client configuration error: " ++ cause.message
  | transport reason => "authority request failed: " ++ reason
  | status code => "authority answered with HTTP " ++ code.text
  | decode reason => "cannot decode authority response: " ++ reason
  | timeout => "authority request timed out"

end Error

/-- A review that was begun, and the answer to it if one was received. -/
inductive Entry where
  | access (query : AccessQuery) (answer : Option (Except Error Bool))
  | token (query : TokenQuery) (answer : Option (Except Error TokenVerdict))

end ForwardAuth.Review
