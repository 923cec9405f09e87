import ForwardAuth.Configuration.Basic
import ForwardAuth.Tls.CertificateForm
import ForwardAuth.Tls.PrivateKey
import ForwardAuth.Wording

/-!
# Securing connections

Either side of a secured connection may show certificates and prove with a private key that the
first of them is its own. Who asks for certificates names the roots that it trusts.

The server always shows a certificate. It asks its clients for one only if it is given roots for
them, and takes those clients, too, that show none. The client of the authority trusts the given
roots, or else those of its platform, and shows a certificate if it has one. What it says of a fault
begins with who found it.

## Main definitions

* `Credentials`: Certificates with the key of the first one.
* `Acceptor`, `Acceptor.ofFiles`: How the server secures connections.
* `Fault.report`: What the client of the authority says of a fault.
* `Connector`, `Connector.ofFiles`: How the client of the authority secures them.
-/

namespace ForwardAuth.Tls

/-- The bytes at a path. -/
def readFile (files : Files) (path : String) : Except Fault (List UInt8) :=
  (files path).mapError .unreadable

/-- The certificates in a file. There may be none. -/
def readCertificates (files : Files) (path : String) :
    Except Fault (List Certificate.Encoded) := do
  let file ← readFile files path
  (Pem.all? .certificate file).elim (throw (.malformed file)) pure

/-- The section with the private key in a file. -/
def readPrivateKey (files : Files) (path : String) : Except Fault Section := do
  let file ← readFile files path
  (Pem.first? PrivateKey.sectionKinds file).elim (throw (.noPrivateKey file)) pure

/-- Certificates with the private key of the first one. -/
structure Credentials where
  chain : List Certificate.Encoded
  key : Section
  deriving DecidableEq, Repr

/-- Puts certificates and a private key together. -/
def Credentials.of (chain : List Certificate.Encoded) (key : Section) :
    Except Fault Credentials := do
  let expected ← (PrivateKey.publicKey? key).elim (throw (.badPrivateKey key)) pure
  match chain with
  | [] => throw .noCertificate
  | own :: _ =>
    let found ← (CertificateForm.publicKey? own).elim (throw (.badCertificate own)) pure
    if found = expected then return ⟨chain, key⟩ else throw (.foreignKey own key)

/-- How the server secures connections. -/
structure Acceptor where
  credentials : Credentials
  /-- The roots that clients' certificates are checked against, if clients are asked for any. -/
  clientRoots : Option (List Certificate.Encoded)
  deriving DecidableEq, Repr

/-- Reads the roots for clients, all of which have to be good. -/
def readClientRoots (files : Files) (path : String) :
    Except Fault (List Certificate.Encoded) := do
  let roots ← readCertificates files path
  match roots.find? fun root => !CertificateForm.isRoot root with
  | some bad => throw (.badCertificate bad)
  | none => if roots.isEmpty then throw .noRoots else return roots

/-- How the server secures connections with the given files. -/
def Acceptor.ofFiles (files : Files) (tls : Configuration.Tls) : Except Fault Acceptor := do
  let chain ← readCertificates files tls.certificateBundle
  let key ← readPrivateKey files tls.privateKey
  let clientRoots ← tls.clientCaBundle.mapM (readClientRoots files)
  let credentials ← Credentials.of chain key
  return ⟨credentials, clientRoots⟩

/-- How the client of the authority secures connections. -/
structure Connector where
  /-- The roots that the authority's certificate is checked against, if they are not those of the
      platform. -/
  roots : Option (List Certificate.Encoded)
  credentials : Option Credentials
  deriving DecidableEq, Repr

variable [Wording]

/-- What the client of the authority says of a fault. -/
def Fault.report (fault : Fault) : String :=
  (if fault.isOfSections then "PEM error: " else "TLS error: ") ++ Wording.tls fault

/-- How the client of the authority secures connections with the given files. Of the roots those
    that are good count. -/
def Connector.ofFiles (files : Files) (s : Review.Settings) :
    Except Review.Misconfiguration Connector := do
  let material {α : Type} (result : Except Fault α) : Except Review.Misconfiguration α :=
    result.mapError fun fault => .material fault.report
  let roots ← s.serverCaBundle.mapM fun path => material (readCertificates files path)
  let credentials ←
    match s.clientCertificate, s.clientPrivateKey with
    | some certificate, some key => do
      let chain ← material (readCertificates files certificate)
      let key ← material (readPrivateKey files key)
      let credentials ← material (Credentials.of chain key)
      pure (some credentials)
    | none, none => pure none
    | _, _ => throw .halfConnection
  return ⟨roots.map fun rs => rs.filter CertificateForm.isRoot, credentials⟩

end ForwardAuth.Tls
