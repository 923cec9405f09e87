import ForwardAuth.Certificate.Element
import ForwardAuth.Http.Headers
import ForwardAuth.Text.Blank

/-!
# Credentials

What a request offers as proof of who sent it. A client certificate, once the connection carries
one, decides alone: no header can replace it. Without one the first `Authorization` header is
looked at, and it offers a bearer token when it reads `Bearer` and a token that is not blank. A
request with neither is anonymous.

The token is read from the first header only. A later one never stands in for a first one that is
malformed, because then two parties that look at different headers would see different callers.

## Main definitions

* `Request`: What of a request the decision depends on.
* `Request.bearerToken?`: The bearer token of the first `Authorization` header.
* `Credential`, `Credential.ofRequest`: The credential that a request offers.
* `Credential.method`: The name of the way a credential authenticates, for counters.
-/

namespace ForwardAuth

/-- A request: its method and path, its headers, and the certificate chain of its connection, if
    the client showed one, the client's own certificate first. -/
structure Request where
  method : String
  path : String
  headers : Http.Headers
  peerChain : Option (List Certificate.Encoded)
  deriving Repr

namespace Request

/-- The text after `Bearer` and a space in the first `Authorization` header, without the blanks
    around it, unless nothing is left. -/
def bearerToken? (r : Request) : Option String := do
  let text ← r.headers.text? ⟨"authorization"⟩
  let scheme := "Bearer ".toList
  guard (scheme.isPrefixOf text.toList)
  let token := Text.trimChars (text.toList.drop scheme.length)
  guard (!token.isEmpty)
  return String.ofList token

end Request

/-- What a request offers as proof of who sent it. -/
inductive Credential where
  | certificate (chain : List Certificate.Encoded)
  | bearer (token : String)
  | anonymous
  deriving DecidableEq, Repr

namespace Credential

/-- The credential that a request offers: a certificate before a token, a token before nothing. -/
def ofRequest (r : Request) : Credential :=
  match r.peerChain with
  | some (leaf :: issuers) => .certificate (leaf :: issuers)
  | _ =>
    match r.bearerToken? with
    | some token => .bearer token
    | none => .anonymous

/-- The name of the way a credential authenticates. -/
def method : Credential → String
  | .certificate _ => "certificate"
  | .bearer _ => "bearer"
  | .anonymous => "anonymous"

/-- What a log may show of a credential: never the token. -/
def redacted : Credential → String
  | .certificate _ => "Certificate"
  | .bearer _ => "BearerToken(<redacted>)"
  | .anonymous => "Anonymous"

end Credential

end ForwardAuth
