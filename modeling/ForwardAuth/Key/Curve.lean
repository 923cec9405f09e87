import ForwardAuth.Bytes
import ForwardAuth.Modular

/-!
# Elliptic curves

A key on an elliptic curve is a number, and the public key that goes with it is that multiple of the
base point of the curve. The points of a curve `y² = x³ + a x + b` over a prime field form a group
with the point at infinity, and the base point has prime order in it.

## Main definitions

* `Curve`: A curve with its base point.
* `Curve.Point`: A point.
* `Curve.add`, `Curve.multiply`: The group.
* `Curve.forms`: How a point may be encoded.
* `Curve.p256`, `Curve.p384`, `Curve.p521`, `Curve.known`: The curves that are supported.
-/

namespace ForwardAuth.Key

/-- An elliptic curve with a base point. -/
structure Curve where
  /-- The object identifier that names the curve. -/
  name : List UInt8
  /-- The bytes of a coordinate. -/
  size : Nat
  prime : Nat
  a : Nat
  b : Nat
  base : Nat × Nat
  /-- The order of the base point. -/
  order : Nat
  deriving DecidableEq, Repr

namespace Curve

/-- A point with its coordinates. The point at infinity has none. -/
abbrev Point := Option (Nat × Nat)

/-- The third point on the line with a slope through two points, turned over. -/
def turned (c : Curve) (slope : Nat) (p q : Nat × Nat) : Nat × Nat :=
  let x := (slope * slope + (c.prime - p.1) + (c.prime - q.1)) % c.prime
  (x, (slope * (p.1 + (c.prime - x)) + (c.prime - p.2)) % c.prime)

/-- The sum of two points: by the line through them, or the tangent where they are the same. -/
def add (c : Curve) : Point → Point → Point
  | none, q => q
  | p, none => p
  | some p, some q =>
    if p.1 ≠ q.1 then
      let run := Modular.inverse c.prime (q.1 + (c.prime - p.1))
      some (c.turned ((q.2 + (c.prime - p.2)) * run % c.prime) p q)
    else if (p.2 + q.2) % c.prime = 0 then none
    else
      let run := Modular.inverse c.prime (2 * p.2)
      some (c.turned ((3 * p.1 * p.1 + c.a) * run % c.prime) p q)

/-- A multiple of a point, by doubling. -/
def multiply (c : Curve) (n : Nat) (p : Point) : Point :=
  if n = 0 then none
  else
    let half := multiply c (n / 2) p
    let even := c.add half half
    if n % 2 = 0 then even else c.add even p

/-- The numbers that are private keys. -/
def isScalar (c : Curve) (n : Nat) : Bool :=
  0 < n && n < c.order

/-- A coordinate in bytes. -/
def coordinate (c : Curve) (n : Nat) : List UInt8 :=
  Bytes.toBigEndian c.size n

/-- A point with both of its coordinates. -/
def uncompressed (c : Curve) (p : Nat × Nat) : List UInt8 :=
  0x04 :: c.coordinate p.1 ++ c.coordinate p.2

/-- The ways to encode a point: with both coordinates, with one and a sign for the other, and with
    both and the sign. -/
def forms (c : Curve) (p : Nat × Nat) : List (List UInt8) :=
  let sign := UInt8.ofNat (p.2 % 2)
  [c.uncompressed p, (0x02 + sign) :: c.coordinate p.1,
    (0x06 + sign) :: c.coordinate p.1 ++ c.coordinate p.2]

/-! ### The curves that are supported -/

/-- The curve over a prime of 256 bits, 1.2.840.10045.3.1.7. -/
def p256 : Curve where
  name := [0x2A, 0x86, 0x48, 0xCE, 0x3D, 0x03, 0x01, 0x07]
  size := 32
  prime := 0xFFFFFFFF00000001000000000000000000000000FFFFFFFFFFFFFFFFFFFFFFFF
  a := 0xFFFFFFFF00000001000000000000000000000000FFFFFFFFFFFFFFFFFFFFFFFC
  b := 0x5AC635D8AA3A93E7B3EBBD55769886BC651D06B0CC53B0F63BCE3C3E27D2604B
  base := (0x6B17D1F2E12C4247F8BCE6E563A440F277037D812DEB33A0F4A13945D898C296,
    0x4FE342E2FE1A7F9B8EE7EB4A7C0F9E162BCE33576B315ECECBB6406837BF51F5)
  order := 0xFFFFFFFF00000000FFFFFFFFFFFFFFFFBCE6FAADA7179E84F3B9CAC2FC632551

/-- The curve over a prime of 384 bits, 1.3.132.0.34. -/
def p384 : Curve where
  name := [0x2B, 0x81, 0x04, 0x00, 0x22]
  size := 48
  prime := Nat.pow 2 384 - Nat.pow 2 128 - Nat.pow 2 96 + Nat.pow 2 32 - 1
  a := Nat.pow 2 384 - Nat.pow 2 128 - Nat.pow 2 96 + Nat.pow 2 32 - 4
  b := 0xB3312FA7E23EE7E4988E056BE3F82D19181D9C6EFE814112 * Nat.pow 2 192 +
    0x0314088F5013875AC656398D8A2ED19D2A85C8EDD3EC2AEF
  base := (0xAA87CA22BE8B05378EB1C71EF320AD746E1D3B628BA79B98 * Nat.pow 2 192 +
      0x59F741E082542A385502F25DBF55296C3A545E3872760AB7,
    0x3617DE4A96262C6F5D9E98BF9292DC29F8F41DBD289A147C * Nat.pow 2 192 +
      0xE9DA3113B5F0B8C00A60B1CE1D7E819D7A431D7C90EA0E5F)
  order := Nat.pow 2 384 - 0x389CB27E0BC8D220A7E5F24DB74F58851313E695333AD68D

/-- The curve over a prime of 521 bits, 1.3.132.0.35. -/
def p521 : Curve where
  name := [0x2B, 0x81, 0x04, 0x00, 0x23]
  size := 66
  prime := Nat.pow 2 521 - 1
  a := Nat.pow 2 521 - 4
  b := 0x51953EB9618E1C9A1F929A21A0B68540EEA2DA725B99B315F3B8B489918EF109E1 * Nat.pow 2 256 +
    0x56193951EC7E937B1652C0BD3BB1BF073573DF883D2C34F1EF451FD46B503F00
  base := (0xC6858E06B70404E9CD9E3ECB662395B4429C648139053FB521F828AF606B4D3DBA * Nat.pow 2 256 +
      0xA14B5E77EFE75928FE1DC127A2FFA8DE3348B3C1856A429BF97E7E31C2E5BD66,
    0x11839296A789A3BC0045C8A5FB42C7D1BD998F54449579B446817AFBD17273E662C * Nat.pow 2 256 +
      0x97EE72995EF42640C550B9013FAD0761353C7086A272C24088BE94769FD16650)
  order := Nat.pow 2 521 - 0x5AE79787C40D069948033FEB708F65A2FC44A36477663B851449048E16EC79BF7

/-- The curves that are supported. -/
def known : List Curve :=
  [p256, p384, p521]

end Curve

end ForwardAuth.Key
