import ForwardAuth.Identity
import ForwardAuth.Json.Value
import ForwardAuth.Refusal

/-!
# Claims

What the claims of a token say about its bearer. A token issued to a service account names its
subject and its namespace, and the groups follow from the namespace. Every other token names the
user in a claim that the configuration chooses, and lists the groups.

The issuer decides alone which of the two readings applies; no claim of the other reading is looked
at.

## Main definitions

* `Claims`: The two readings.
* `Claims.decode`: Reads the claims of a token.
* `Claims.identity`: The identity that the claims give.
-/

namespace ForwardAuth.Token

/-- The issuer of service account tokens. -/
def serviceAccountIssuer : String := "kubernetes/serviceaccount"

/-- The claim that holds the namespace of a service account. -/
def namespaceClaim : String := "kubernetes.io/serviceaccount/namespace"

/-- The group of all service accounts. -/
def serviceAccountsGroup : String := "system:serviceaccounts"

/-- The claim that lists groups. -/
def groupsClaim : String := "groups"

/-- What the claims of a token say about its bearer. -/
inductive Claims where
  | serviceAccount (subject space : String)
  | generic (username : String) (groups : List String)
  deriving DecidableEq, Repr

namespace Claims

/-- The claim with a name, if it is a string. -/
def string? (claims : Json.Members) (name : String) : Option String :=
  (claims.get? name).bind Json.string?

/-- The claim with a name, which has to be a string. -/
def requireString (claims : Json.Members) (name : String) : Except Refusal String :=
  (string? claims name).elim (throw (.claimType name)) pure

/-- The groups that are listed, which have to be strings. -/
def requireGroups (claims : Json.Members) : Except Refusal (List String) :=
  match claims.get? groupsClaim with
  | none => throw .missingGroupsClaim
  | some (.array items) => (items.mapM Json.string?).elim (throw (.claimType groupsClaim)) pure
  | some _ => throw (.claimType groupsClaim)

/-- Reads the claims of a token whose user is named by the claim `usernameClaim`. -/
def decode (claims : Json.Members) (usernameClaim : String) : Except Refusal Claims :=
  if string? claims "iss" = some serviceAccountIssuer then do
    let subject ← requireString claims "sub"
    let space ← requireString claims namespaceClaim
    return .serviceAccount subject space
  else do
    let username ← (string? claims usernameClaim).elim
      (throw (.missingUsernameClaim usernameClaim)) pure
    let groups ← requireGroups claims
    return .generic username groups

/-- The identity that the claims give. -/
def identity : Claims → Identity
  | serviceAccount subject space =>
    .of subject [serviceAccountsGroup, serviceAccountsGroup ++ ":" ++ space]
  | generic username groups => .of username groups

end Claims

end ForwardAuth.Token
