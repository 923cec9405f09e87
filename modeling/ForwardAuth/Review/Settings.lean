import ForwardAuth.Path
import ForwardAuth.Review.Basic
import ForwardAuth.Uri
import ForwardAuth.Wording

/-!
# Settings of the authority's client

Where the authority is, how long to wait for it, and the files with what the two sides show each
other: a token, the certificates to trust, and the client's own certificate with its private key.
The last two only make sense together, and the address has to be one of HTTP.

## Main definitions

* `Settings`: The settings.
* `Settings.check`: The conditions that the settings alone can break.
* `Settings.anchor`: The settings with their relative paths taken from a directory.
-/

namespace ForwardAuth.Review

/-- Where the authority is and how it is talked to. -/
structure Settings where
  url : String
  /-- How long a review may take, in milliseconds. -/
  timeout : Nat
  bearerTokenFile : Option String
  serverCaBundle : Option String
  clientCertificate : Option String
  clientPrivateKey : Option String
  deriving DecidableEq, Repr

namespace Settings

/-- How long a review may take if nothing is said about it. -/
def defaultTimeout : Nat := 5000

/-- The address can be reached over HTTP. -/
def isHttp (u : Uri) : Bool :=
  u.scheme == some .http || u.scheme == some .https

/-- Refuses a certificate without its key, a key without its certificate, and an address that is
    none or not one of HTTP. -/
def check [Wording] (s : Settings) : Except Misconfiguration Unit :=
  if s.clientCertificate.isSome ≠ s.clientPrivateKey.isSome then throw .halfIdentity
  else
    match Uri.parse? s.url with
    | none => throw (.invalidUrl (Wording.uri s.url))
    | some u => if isHttp u then pure () else throw (.foreignScheme s.url)

/-- The settings with their relative paths taken from a directory. -/
def anchor (base : String) (s : Settings) : Settings :=
  { s with
    bearerTokenFile := s.bearerTokenFile.map (Path.anchor base)
    serverCaBundle := s.serverCaBundle.map (Path.anchor base)
    clientCertificate := s.clientCertificate.map (Path.anchor base)
    clientPrivateKey := s.clientPrivateKey.map (Path.anchor base) }

end Settings

end ForwardAuth.Review
