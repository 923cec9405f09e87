import ForwardAuth.Der
import ForwardAuth.Key.Curve
import ForwardAuth.Key.PublicKey

/-!
# Keys on elliptic curves

The encoding of a private key on a curve holds its number, and may name the curve and repeat the
public key. What it repeats has to agree with the rest. A curve is named by its object identifier or
by all of its numbers.

## Main definitions

* `Curve.parameters?`: Reads the curve that is named.
* `CurveKey.read?`: Reads a private key on a curve.
-/

namespace ForwardAuth.Key

/-- The name of keys on elliptic curves, 1.2.840.10045.2.1. -/
def Curve.algorithm : List UInt8 := [0x2A, 0x86, 0x48, 0xCE, 0x3D, 0x02, 0x01]

/-- The name of fields whose size is a prime, 1.2.840.10045.1.1. -/
def Curve.primeField : List UInt8 := [0x2A, 0x86, 0x48, 0xCE, 0x3D, 0x01, 0x01]

/-- The content of a base point: the mark of both coordinates, and two halves. -/
def Curve.base? : List UInt8 → Option (Nat × Nat)
  | 0x04 :: coordinates =>
    if coordinates.length % 2 = 0 then
      let half := coordinates.length / 2
      some (Bytes.ofBigEndian (coordinates.take half), Bytes.ofBigEndian (coordinates.drop half))
    else none
  | _ => none

/-- Reads a curve that is given by its numbers. It has to be one that is supported. A seed, from
    which the numbers were drawn, does not matter. -/
def Curve.explicit? (bytes : List UInt8) : Option (Curve × List UInt8) := do
  let (content, rest) ← Der.take? Der.Tag.sequence bytes
  let (version, inner) ← Der.natural? content
  guard (version = 1)
  let (field, inner) ← Der.take? Der.Tag.sequence inner
  let (kind, size) ← Der.take? Der.Tag.objectIdentifier field
  let (prime, beyond) ← Der.natural? size
  guard (kind = primeField && beyond.isEmpty)
  let (equation, inner) ← Der.take? Der.Tag.sequence inner
  let (a, coefficients) ← Der.take? Der.Tag.octetString equation
  let (b, coefficients) ← Der.take? Der.Tag.octetString coefficients
  let (_, beyond) ← Der.takeOptional? Der.Tag.bitString coefficients
  guard beyond.isEmpty
  let (point, inner) ← Der.take? Der.Tag.octetString inner
  let base ← base? point
  let (order, inner) ← Der.natural? inner
  let (cofactor, beyond) ← Der.takeOptional? Der.Tag.integer inner
  guard (cofactor.all (· = [0x01]) && beyond.isEmpty)
  let curve ← known.find? fun c =>
    c.prime = prime && c.a = Bytes.ofBigEndian a && c.b = Bytes.ofBigEndian b && c.base = base &&
      c.order = order
  return (curve, rest)

/-- Reads the curve that is named, which has to be one that is supported. -/
def Curve.parameters? (bytes : List UInt8) : Option (Curve × List UInt8) :=
  if bytes.head? = some Der.Tag.sequence then explicit? bytes
  else do
    let (name, rest) ← Der.take? Der.Tag.objectIdentifier bytes
    let curve ← known.find? fun c => c.name = name
    return (curve, rest)

namespace CurveKey

/-- The public key at a point. -/
def publicKey (c : Curve) (point : Nat × Nat) : PublicKey :=
  .of Curve.algorithm (Der.encode Der.Tag.objectIdentifier c.name) (c.uncompressed point)

/-- The curve that the field may name is the given one. -/
def agrees (c : Curve) (named : Option (List UInt8)) : Bool :=
  named.all fun bytes => Curve.parameters? bytes == some (c, [])

/-- The public key that the field may hold is the given point. -/
def holds (c : Curve) (point : Nat × Nat) (held : Option (List UInt8)) : Bool :=
  held.all fun bytes =>
    match Der.bits? bytes with
    | some (form, []) => (c.forms point).contains form
    | _ => false

/-- Reads a private key on a given curve, and returns the public key that goes with it. -/
def read? (c : Curve) (bytes : List UInt8) : Option (PublicKey × List UInt8) := do
  let (content, rest) ← Der.take? Der.Tag.sequence bytes
  let (version, inner) ← Der.natural? content
  guard (version = 1)
  let (secret, inner) ← Der.take? Der.Tag.octetString inner
  let (named, inner) ← Der.takeOptional? (Der.Tag.fieldOf 0) inner
  let (held, inner) ← Der.takeOptional? (Der.Tag.fieldOf 1) inner
  let scalar := Bytes.ofBigEndian secret
  guard (inner.isEmpty && agrees c named && c.isScalar scalar)
  let point ← c.multiply scalar (some c.base)
  guard (holds c point held)
  return (publicKey c point, rest)

end CurveKey

end ForwardAuth.Key
