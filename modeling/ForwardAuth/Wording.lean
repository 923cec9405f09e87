import ForwardAuth.Tls.Fault

/-!
# The words of libraries

Certificates, addresses, header fields, replies, configuration files and keys are read by libraries.
Where one of them cannot be read, what the library says is passed on inside of an error. Nothing
here depends on which words these are, so they are a parameter of everything that passes them on:
each is a function of what could not be read, and nothing else is known about it.

## Main definitions

* `Wording`: What libraries say.
* `Wording.own`: What is said where this program reads everything itself.
-/

namespace ForwardAuth

/-- What libraries say of things that they cannot read. -/
class Wording where
  /-- Why bytes are no certificate. -/
  certificate : Certificate.Encoded → String
  /-- Why a text is no URI. -/
  uri : String → String
  /-- Why a text is no value of a header field. -/
  header : String
  /-- Why bytes are not the answer to a review. -/
  reply : List UInt8 → String
  /-- Why a text is no configuration. -/
  configuration : String → String
  /-- What is wrong with the files that secure connections. -/
  tls : Tls.Fault → String

/-- What is said where this program reads everything itself. -/
@[reducible] def Wording.own : Wording where
  certificate _ := "not a certificate"
  uri _ := "not a URI"
  header := "not a header value"
  reply _ := "not a review"
  configuration _ := "not a configuration"
  tls
    | .unreadable cause => "I/O error: " ++ cause.message
    | .malformed _ => "the sections of the file are in disorder"
    | .noPrivateKey _ => "there is no private key in the file"
    | .badPrivateKey _ => "the private key cannot be used"
    | .noCertificate => "there is no certificate to show"
    | .badCertificate _ => "a certificate cannot be used"
    | .foreignKey _ _ => "the private key belongs to another certificate"
    | .noRoots => "there is no certificate to trust"

end ForwardAuth
