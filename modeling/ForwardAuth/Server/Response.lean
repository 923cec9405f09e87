import ForwardAuth.Http.Headers
import ForwardAuth.Identity
import ForwardAuth.Json.Printer
import ForwardAuth.Server.Error
import ForwardAuth.Wording

/-!
# Responses

What the proxy in front is told about a request. A resolved identity is told twice: in headers,
which the proxy passes on to its backends, and as JSON. A refusal is told as JSON only.

A name that holds a control character makes no header. Then nothing of the identity is told, since a
part of it would pass for the whole.

## Main definitions

* `Response`: A response.
* `Response.ofIdentity`: The response for an identity.
* `Response.ofError`: The response for an error.
* `Response.metrics`: The response with the metrics.
-/

namespace ForwardAuth.Server

/-- A response. -/
structure Response where
  status : Http.Status
  headers : Http.Headers
  body : List UInt8
  deriving DecidableEq, Repr

namespace Response

/-- The header with the type of the body. -/
def contentTypeHeader : Http.HeaderName := ⟨"content-type"⟩

/-- The header with the user name. -/
def userHeader : Http.HeaderName := ⟨"x-remote-user"⟩

/-- The header with one of the groups. -/
def groupHeader : Http.HeaderName := ⟨"x-remote-group"⟩

/-- Header fields of texts, unless one of them makes no header. -/
def fields? (fields : List (Http.HeaderName × String)) : Option Http.Headers :=
  fields.mapM fun (name, text) => (Http.HeaderValue.ofString? text).map fun value => (name, value)

/-- The header that tells that the body is JSON. -/
def jsonType : Http.Headers :=
  (fields? [(contentTypeHeader, "application/json")]).getD []

/-- The header that tells that the body is an exposition of metrics. -/
def expositionType : Http.Headers :=
  (fields? [(contentTypeHeader, "text/plain; version=0.0.4")]).getD []

/-- The header fields that tell an identity, the user name before the groups. -/
def identityFields? (i : Identity) : Option Http.Headers :=
  fields? ((userHeader, i.username) :: i.groups.map fun g => (groupHeader, g))

/-- An identity as JSON. -/
def identityJson (i : Identity) : Json :=
  .object [("username", .string i.username), ("groups", .array (i.groups.map .string))]

variable [Wording]

/-- The response for an identity, unless it cannot be told in headers. -/
def ofIdentity (i : Identity) : Except Error Response :=
  match identityFields? i with
  | some fields => pure ⟨⟨200⟩, jsonType ++ fields, Json.encode (identityJson i)⟩
  | none => throw (.internal ("Unable to build response: " ++ Wording.header))

/-- The response for an error. -/
def ofError (e : Error) (requestId : Option String) : Response :=
  ⟨e.status, jsonType, Json.encode (e.json requestId)⟩

/-- The response with an exposition of the metrics. -/
def metrics (exposition : String) : Response :=
  ⟨⟨200⟩, expositionType, exposition.toUTF8.toList⟩

/-- The response for the end of a resolution. -/
def ofResult (result : Except Refusal Identity) : Response :=
  match result with
  | .error cause => ofError (.identity cause) none
  | .ok i =>
    match ofIdentity i with
    | .ok response => response
    | .error e => ofError e none

end Response

end ForwardAuth.Server
