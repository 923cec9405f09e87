import ForwardAuth.Review.Basic

/-!
# Configuration errors

Why a configuration is not taken. A file may be unreadable, its text may not be of the
configuration's form, a value may be out of its range, or what the values lead to cannot be used:
the address and the identity of the authority's client, or the certificates and the key of the
listener.

## Main definitions

* `Configuration.Error`: The causes.
* `Configuration.Error.message`: The cause in a sentence.
-/

namespace ForwardAuth.Configuration

/-- Why a configuration is not taken. -/
inductive Error where
  /-- The file cannot be read. -/
  | unreadable (reason : String)
  /-- The text is not of the configuration's form. -/
  | malformed (reason : String)
  /-- A number has to be positive, and is zero. -/
  | zero (field : String)
  /-- The claim that names the user cannot be looked up. -/
  | identity (reason : String)
  /-- The authority cannot be asked. -/
  | authority (cause : Review.Error)
  /-- The listener cannot be secured. -/
  | tls (reason : String)
  deriving DecidableEq, Repr

namespace Error

/-- The short name of the error. -/
def kind : Error → String
  | unreadable _ => "io"
  | malformed _ | zero _ => "configuration_file_format"
  | identity _ => "identity"
  | authority _ => "authority"
  | tls _ => "tls"

/-- The error in a sentence. -/
def message : Error → String
  | unreadable reason => "IO error: " ++ reason
  | malformed reason => "Configuration file format error: " ++ reason
  | zero field => "Configuration file format error: " ++ field ++ " must be greater than zero"
  | identity reason => "Identity configuration error: " ++ reason
  | authority cause => "Authority configuration error: " ++ cause.message
  | tls reason => "Listener TLS error: " ++ reason

end Error

end ForwardAuth.Configuration
