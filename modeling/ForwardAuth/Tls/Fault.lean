import ForwardAuth.Certificate.Element
import ForwardAuth.Files
import ForwardAuth.Tls.Pem

/-!
# Faults in the files that secure connections

Files are read by one library, section by section, and what the sections hold is put together by
another. Each of them has its own way to report what is wrong.

## Main definitions

* `Fault`: What is wrong with the files.
* `Fault.isOfSections`: It is found where the sections of a file are read.
-/

namespace ForwardAuth.Tls

/-- What is wrong with the files that secure connections, and what it is found in. -/
inductive Fault where
  | unreadable (cause : SystemError)
  /-- The sections of a file are in disorder. -/
  | malformed (file : List UInt8)
  | noPrivateKey (file : List UInt8)
  | badPrivateKey (key : Section)
  | noCertificate
  | badCertificate (certificate : Certificate.Encoded)
  /-- The key belongs to another certificate. -/
  | foreignKey (certificate : Certificate.Encoded) (key : Section)
  /-- Clients are asked for certificates, but none could be trusted. -/
  | noRoots
  deriving DecidableEq, Repr

/-- The fault is found where the sections of a file are read. -/
def Fault.isOfSections : Fault → Bool
  | unreadable _ | malformed _ | noPrivateKey _ => true
  | _ => false

end ForwardAuth.Tls
