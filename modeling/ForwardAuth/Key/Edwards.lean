import ForwardAuth.Hash.Sha512
import ForwardAuth.Key.PublicKey
import ForwardAuth.Modular

/-!
# Ed25519 keys

A private Ed25519 key is a seed of 32 bytes. Its hash gives a number, and the public key is that
multiple of the base point of the curve `y² - x² = 1 + d x² y²` over the field of `2²⁵⁵ - 19`
elements. On this curve one formula adds all pairs of points.

## Main definitions

* `Edwards.add`, `Edwards.multiply`: The group of the points.
* `Edwards.scalar`: The number that a seed gives.
* `Edwards.publicKey`: The public key that goes with a seed.
* `Edwards.seed?`: Reads a private key.
-/

namespace ForwardAuth.Key.Edwards

/-- The name of Ed25519 keys, 1.3.101.112. -/
def algorithm : List UInt8 := [0x2B, 0x65, 0x70]

/-- The size of the field. -/
def prime : Nat := Nat.pow 2 255 - 19

/-- A quotient in the field. -/
def quotient (n d : Nat) : Nat :=
  n * Modular.inverse prime d % prime

/-- The coefficient of the curve. -/
def d : Nat :=
  quotient (prime - 121665) 121666

/-- The base point, whose second coordinate is four fifths. -/
def base : Nat × Nat :=
  (0x216936D3CD6E53FEC0A4E231FDD6DC5C692CC7609525A7B2C9562D608F25D51A, quotient 4 5)

/-- The sum of two points. -/
def add (p q : Nat × Nat) : Nat × Nat :=
  let product := d * (p.1 * q.1 % prime) * (p.2 * q.2 % prime) % prime
  (quotient (p.1 * q.2 + p.2 * q.1) (1 + product),
    quotient (p.2 * q.2 + p.1 * q.1) (1 + (prime - product)))

/-- A multiple of a point, by doubling. -/
def multiply (n : Nat) (p : Nat × Nat) : Nat × Nat :=
  if n = 0 then (0, 1)
  else
    let half := multiply (n / 2) p
    let even := add half half
    if n % 2 = 0 then even else add even p

/-- The number that a seed gives: the first half of its hash without the three lowest bits and the
    highest one, and with the one below that. -/
def scalar (seed : List UInt8) : Nat :=
  let n := Bytes.ofLittleEndian ((Hash.Sha512.hash seed).take 32)
  Nat.pow 2 254 + n % Nat.pow 2 254 / 8 * 8

/-- A point in bytes: its second coordinate, and the sign of the first one in the highest bit. -/
def encode (p : Nat × Nat) : List UInt8 :=
  Bytes.toLittleEndian 32 (p.2 + Nat.pow 2 255 * (p.1 % 2))

/-- The bytes of the public key that goes with a seed. -/
def publicBytes (seed : List UInt8) : List UInt8 :=
  encode (multiply (scalar seed) base)

/-- The public key with given bytes. -/
def publicKey (bytes : List UInt8) : PublicKey :=
  .of algorithm [] bytes

/-- Reads the seed that a private key is. -/
def seed? (bytes : List UInt8) : Option (List UInt8) := do
  let (seed, rest) ← Der.take? Der.Tag.octetString bytes
  guard (seed.length = 32 && rest.isEmpty)
  return seed

end ForwardAuth.Key.Edwards
