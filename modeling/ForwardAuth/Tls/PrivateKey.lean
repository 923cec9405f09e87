import ForwardAuth.Key.CurveKey
import ForwardAuth.Key.Edwards
import ForwardAuth.Key.Lattice
import ForwardAuth.Key.Rsa
import ForwardAuth.Tls.Pem

/-!
# Private keys

A private key is read from a section of a file, and it belongs to a certificate that holds the
public key that goes with it. There are sections for RSA keys and for keys on elliptic curves in
encodings of their own, and sections for keys of any algorithm, which name it.

## Main definitions

* `KeyPackage`: A private key with the name of its algorithm.
* `KeyPackage.ofBytes?`: Reads a key package.
* `KeyPackage.publicKey?`: The public key that goes with a packed key.
* `PrivateKey.publicKey?`: The public key that goes with the private key of a section.
* `PrivateKey.sectionKinds`: The kinds of sections that hold private keys.
-/

namespace ForwardAuth.Tls

open Key

/-- A private key with the name of its algorithm. -/
structure KeyPackage where
  algorithm : List UInt8
  /-- What the algorithm leaves open, as it is encoded. -/
  parameters : List UInt8
  /-- The key in the encoding of its algorithm. -/
  key : List UInt8
  /-- The public key, if the package repeats it: a list of bits without a tag. -/
  repeated : Option (List UInt8)
  deriving DecidableEq, Repr

namespace KeyPackage

/-- Reads a key package. Attributes are passed over, and so is what follows the package. Only the
    second version may repeat the public key. -/
def ofBytes? (bytes : List UInt8) : Option KeyPackage := do
  let (content, _) ← Der.take? Der.Tag.sequence bytes
  let (version, inner) ← Der.natural? content
  guard (version ≤ 1)
  let (identifier, inner) ← Der.take? Der.Tag.sequence inner
  let (algorithm, parameters) ← Der.take? Der.Tag.objectIdentifier identifier
  let (key, inner) ← Der.take? Der.Tag.octetString inner
  let (_, inner) ← Der.takeOptional? (Der.Tag.fieldOf 0) inner
  let (repeated, inner) ←
    if version = 1 then Der.takeOptional? (Der.Tag.field 1) inner else some (none, inner)
  guard inner.isEmpty
  return { algorithm, parameters, key, repeated }

/-- The public key of a packed RSA key. -/
def rsaKey? (k : KeyPackage) : Option PublicKey := do
  guard (k.parameters = Der.encode Der.Tag.null [] && k.repeated.isNone)
  match ← Rsa.read? k.key with
  | (key, []) => return key.publicKey
  | _ => none

/-- The public key of a packed key on an elliptic curve. The parameters name the curve. -/
def curveKey? (k : KeyPackage) : Option PublicKey := do
  guard k.repeated.isNone
  match ← Curve.parameters? k.parameters with
  | (curve, []) =>
    match ← CurveKey.read? curve k.key with
    | (publicKey, []) => return publicKey
    | _ => none
  | _ => none

/-- The public key of a packed Ed25519 key. Where it is repeated, it is the right one. -/
def edwardsKey? (k : KeyPackage) : Option PublicKey := do
  guard k.parameters.isEmpty
  let bytes := Edwards.publicBytes (← Edwards.seed? k.key)
  guard (k.repeated.all (· = 0 :: bytes))
  return Edwards.publicKey bytes

/-- A packed ML-DSA key: the seed, what follows from it, or both. -/
def expanded? (level : Lattice.Level) (key : List UInt8) : Option Lattice.Expanded := do
  if key.head? = some (Der.Tag.field 0) then
    match ← Der.take? (Der.Tag.field 0) key with
    | (seed, []) => guard (seed.length = 32); Lattice.Expanded.ofSeed? level seed
    | _ => none
  else if key.head? = some Der.Tag.octetString then
    match ← Der.take? Der.Tag.octetString key with
    | (bytes, []) => Lattice.Expanded.ofBytes? level bytes
    | _ => none
  else
    match ← Der.take? Der.Tag.sequence key with
    | (content, []) =>
      match ← Der.contents? Der.Tag.octetString content with
      | [seed, bytes] =>
        guard (seed.length = 32)
        let expanded ← Lattice.Expanded.ofSeed? level seed
        guard (expanded.bytes? = some bytes)
        return expanded
      | _ => none
    | _ => none

/-- The public key of a packed ML-DSA key of a level. -/
def latticeKey? (level : Lattice.Level) (k : KeyPackage) : Option PublicKey := do
  guard k.parameters.isEmpty
  let expanded ← expanded? level k.key
  return .of level.name [] (← expanded.publicBytes?)

/-- The public key that goes with a packed key. -/
def publicKey? (k : KeyPackage) : Option PublicKey :=
  if Rsa.algorithms.contains k.algorithm then k.rsaKey?
  else if k.algorithm = Curve.algorithm then k.curveKey?
  else if k.algorithm = Edwards.algorithm then k.edwardsKey?
  else do k.latticeKey? (← Lattice.Level.known.find? fun level => level.name = k.algorithm)

/-- The package holds a key on an elliptic curve. -/
def isCurveKey (k : KeyPackage) : Bool :=
  k.algorithm = Curve.algorithm

end KeyPackage

namespace PrivateKey

/-- The public key of an RSA key. What follows the key is passed over. -/
def rsaKey? (bytes : List UInt8) : Option PublicKey :=
  (Rsa.read? bytes).map fun (key, _) => key.publicKey

/-- The public key of a key on an elliptic curve, which may be packed. Where the curve is not named,
    it is the first one that the key fits. What follows the key is passed over. -/
def curveKey? (bytes : List UInt8) : Option PublicKey :=
  let packed := do
    let package ← KeyPackage.ofBytes? bytes
    guard package.isCurveKey
    package.publicKey?
  packed <|> Curve.known.findSome? fun c => (CurveKey.read? c bytes).map (·.1)

/-- The public key that goes with the private key of a section. -/
def publicKey? (s : Section) : Option PublicKey :=
  match s.kind with
  | .privateKey => (KeyPackage.ofBytes? s.bytes).bind (·.publicKey?)
  | .rsaPrivateKey => rsaKey? s.bytes
  | .ecPrivateKey => curveKey? s.bytes
  | _ => none

/-- The kinds of sections that hold private keys. -/
def sectionKinds : List SectionKind :=
  [.privateKey, .rsaPrivateKey, .ecPrivateKey]

end PrivateKey

end ForwardAuth.Tls
