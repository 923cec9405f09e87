import ForwardAuth.Certificate.Element
import ForwardAuth.Der
import ForwardAuth.Key.PublicKey

/-!
# Certificates that secure connections

A certificate that is shown, or that others are checked against, is looked at before any connection
is made. It is read strictly as far as it is read: names, times and keys inside of it stay closed.
Each of the known extensions may stand in it once.

An unknown extension that is critical forbids to show a certificate. A root is trusted for its name
and its key alone, so there such an extension is passed over, and a root may also be a certificate
of the first version, from before there were extensions.

## Main definitions

* `Envelope`: What is signed, and by what algorithm.
* `Extension`: An extension of a certificate.
* `CertificateForm`: What is read of a certificate.
* `CertificateForm.publicKey?`: The public key in a certificate that can be shown.
* `CertificateForm.isRoot`: Other certificates can be checked against a certificate.
-/

namespace ForwardAuth.Tls

open Certificate (Encoded)

/-- The sizes of parts of certificates stay below this one. -/
def partLimit : Nat := 65535

/-- Reads a part of a certificate. -/
def part? (tag : UInt8) (bytes : List UInt8) : Option (List UInt8 × List UInt8) := do
  let (content, rest) ← Der.take? tag bytes
  guard (content.length < partLimit)
  return (content, rest)

/-- What is signed in a certificate, and by what algorithm. -/
structure Envelope where
  signed : List UInt8
  algorithm : List UInt8
  deriving DecidableEq, Repr

/-- The envelope that takes up all the bytes. The signature consists of whole bytes. -/
def Envelope.ofEncoded? (encoded : Encoded) : Option Envelope := do
  let (content, beyond) ← part? Der.Tag.sequence encoded
  let (signed, rest) ← part? Der.Tag.sequence content
  let (algorithm, rest) ← part? Der.Tag.sequence rest
  let (signature, rest) ← part? Der.Tag.bitString rest
  guard (beyond.isEmpty && rest.isEmpty && signature.head? == some 0)
  return { signed, algorithm }

/-- An extension of a certificate. -/
structure Extension where
  /-- The object identifier that names it. -/
  name : List UInt8
  /-- Who does not know the extension must not use the certificate. -/
  critical : Bool
  value : List UInt8
  deriving DecidableEq, Repr

namespace Extension

/-- The truth value that the content of an element stands for. -/
def toFlag? : List UInt8 → Option Bool
  | [0xFF] => some true
  | [0x00] => some false
  | _ => none

/-- Reads the content of an extension. -/
def ofContent? (content : List UInt8) : Option Extension := do
  let (name, rest) ← part? Der.Tag.objectIdentifier content
  let (critical, rest) ←
    if rest.head? = some Der.Tag.boolean then do
      let (flag, rest) ← part? Der.Tag.boolean rest
      some (← toFlag? flag, rest)
    else some (false, rest)
  let (value, rest) ← part? Der.Tag.octetString rest
  guard rest.isEmpty
  return { name, critical, value }

/-- The extension in the arc of certificate extensions, 2.5.29, with a number. -/
def numbered (number : UInt8) : List UInt8 :=
  [0x55, 0x1D, number]

/-- What the key may be used for. -/
def keyUsage : List UInt8 := numbered 15

/-- The known extensions whose value is a sequence: other names of the owner, whether it signs
    certificates, for which names, where revoked ones are listed, and for what purposes. -/
def sequences : List (List UInt8) :=
  [17, 19, 30, 31, 37].map numbered

/-- The extension is known. -/
def isKnown (e : Extension) : Bool :=
  e.name = keyUsage || sequences.contains e.name

/-- The value of the extension has the form that is known of it. -/
def isWellFormed (e : Extension) : Bool :=
  !sequences.contains e.name || (part? Der.Tag.sequence e.value).any (·.2.isEmpty)

/-- The extension need not be known, or is. -/
def isUnderstood (e : Extension) : Bool :=
  e.isKnown || !e.critical

/-- Reads the extensions of a certificate up to its end, if there are any. -/
def read? (bytes : List UInt8) : Option (List Extension) := do
  if bytes.isEmpty then return []
  let (list, beyond) ← part? (Der.Tag.fieldOf 3) bytes
  let (content, rest) ← part? Der.Tag.sequence list
  guard (beyond.isEmpty && rest.isEmpty)
  let extensions ← (← Der.contents? Der.Tag.sequence content).mapM ofContent?
  guard (extensions.all isWellFormed)
  guard ((extensions.filter isKnown).map (·.name)).Nodup
  return extensions

end Extension

/-- What is read of a certificate with extensions. -/
structure CertificateForm where
  publicKey : PublicKey
  extensions : List Extension
  deriving DecidableEq, Repr

namespace CertificateForm

/-- The version of certificates with extensions, as it is encoded. -/
def version : List UInt8 := Der.encodeNatural 2

/-- Reads the parts that stand before the key in certificates of all versions: the serial number,
    the algorithm of the signature, the issuer, the validity and the owner. Returns the
    algorithm. -/
def openingParts? (bytes : List UInt8) : Option (List UInt8 × List UInt8) := do
  let (_, rest) ← part? Der.Tag.integer bytes
  let (algorithm, rest) ← part? Der.Tag.sequence rest
  let (_, rest) ← part? Der.Tag.sequence rest
  let (_, rest) ← part? Der.Tag.sequence rest
  let (_, rest) ← part? Der.Tag.sequence rest
  return (algorithm, rest)

/-- Reads a certificate with extensions. What is signed names the algorithm of the signature once
    more. -/
def ofEncoded? (encoded : Encoded) : Option CertificateForm := do
  let envelope ← Envelope.ofEncoded? encoded
  let (found, rest) ← part? (Der.Tag.fieldOf 0) envelope.signed
  let (algorithm, rest) ← openingParts? rest
  let (publicKey, rest) ← part? Der.Tag.sequence rest
  guard (found = version && algorithm = envelope.algorithm)
  return { publicKey, extensions := ← Extension.read? rest }

/-- The public key in a certificate that can be shown. -/
def publicKey? (encoded : Encoded) : Option PublicKey := do
  let form ← ofEncoded? encoded
  guard (form.extensions.all (·.isUnderstood))
  return form.publicKey

/-- The certificate has the form of the first version. -/
def isFirstVersion (encoded : Encoded) : Bool :=
  let rest? := do
    let envelope ← Envelope.ofEncoded? encoded
    let (_, rest) ← openingParts? envelope.signed
    let (_, rest) ← part? Der.Tag.sequence rest
    return rest
  rest?.any (·.isEmpty)

/-- Other certificates can be checked against the certificate. -/
def isRoot (encoded : Encoded) : Bool :=
  (ofEncoded? encoded).isSome || isFirstVersion encoded

end CertificateForm

end ForwardAuth.Tls
