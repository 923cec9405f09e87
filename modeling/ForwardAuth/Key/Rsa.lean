import ForwardAuth.Der
import ForwardAuth.Key.PublicKey

/-!
# RSA keys

An RSA key is a modulus with two exponents that undo each other. The encoding of a private key also
holds the two primes of the modulus and what follows from them, which lets its owner compute faster.
A key whose numbers do not belong together would give wrong signatures, so all of them are checked.
Whether the primes are prime is not.

## Main definitions

* `Rsa`: The numbers of a private key.
* `Rsa.IsConsistent`: The numbers belong together.
* `Rsa.isSupported`: The sizes are supported.
* `Rsa.read?`: Reads a private key.
-/

namespace ForwardAuth.Key

/-- The numbers of a private RSA key. -/
structure Rsa where
  modulus : Nat
  publicExponent : Nat
  privateExponent : Nat
  p : Nat
  q : Nat
  /-- The private exponent modulo `p - 1`. -/
  exponentP : Nat
  /-- The private exponent modulo `q - 1`. -/
  exponentQ : Nat
  /-- The inverse of `q` modulo `p`. -/
  coefficient : Nat
  deriving DecidableEq, Repr

namespace Rsa

/-- The name of RSA keys, 1.2.840.113549.1.1.1. -/
def algorithm : List UInt8 := [0x2A, 0x86, 0x48, 0x86, 0xF7, 0x0D, 0x01, 0x01, 0x01]

/-- The names of RSA keys: the usual one, and 2.5.8.1.1. -/
def algorithms : List (List UInt8) :=
  [algorithm, [0x55, 0x08, 0x01, 0x01]]

/-- The first number undoes the second one modulo `m`, and is reduced. -/
def Inverts (m inverse n : Nat) : Prop :=
  inverse < m ∧ inverse * n % m = 1

instance (m inverse n : Nat) : Decidable (Inverts m inverse n) :=
  inferInstanceAs (Decidable (_ ∧ _))

/-- The numbers belong together. The private exponent may be larger than it has to be. -/
def IsConsistent (k : Rsa) : Prop :=
  k.p < k.modulus ∧ k.q < k.modulus ∧ k.p * k.q = k.modulus ∧
    k.privateExponent < k.modulus ∧
    k.privateExponent * k.publicExponent % (k.p - 1) = 1 ∧
    k.privateExponent * k.publicExponent % (k.q - 1) = 1 ∧
    Inverts (k.p - 1) k.exponentP k.publicExponent ∧
    Inverts (k.q - 1) k.exponentQ k.publicExponent ∧
    Inverts k.p k.coefficient k.q

instance (k : Rsa) : Decidable k.IsConsistent :=
  inferInstanceAs (Decidable (_ ∧ _))

/-- The modulus has from 2048 to 8192 bits, and the public exponent at most 33. Both are odd, and
    the public exponent is not one. -/
def isSupported (k : Rsa) : Bool :=
  let bits := Bytes.bitLength k.modulus
  2048 ≤ bits && bits ≤ 8192 && k.modulus % 2 = 1 && k.publicExponent % 2 = 1 &&
    1 < k.publicExponent && Bytes.bitLength k.publicExponent ≤ 33

/-- The public key that goes with a private key. -/
def publicKey (k : Rsa) : PublicKey :=
  .of algorithm (Der.encode Der.Tag.null [])
    (Der.encode Der.Tag.sequence
      (Der.encodeNatural k.modulus ++ Der.encodeNatural k.publicExponent))

/-- Reads natural numbers up to the end. -/
def naturals? (bytes : List UInt8) : Option (List Nat) := do
  (← Der.contents? Der.Tag.integer bytes).mapM Der.toNatural?

/-- Reads a private key: the version of keys with two primes, and its numbers. -/
def read? (bytes : List UInt8) : Option (Rsa × List UInt8) := do
  let (content, rest) ← Der.take? Der.Tag.sequence bytes
  match ← naturals? content with
  | [0, modulus, publicExponent, privateExponent, p, q, exponentP, exponentQ, coefficient] =>
    let k : Rsa :=
      { modulus, publicExponent, privateExponent, p, q, exponentP, exponentQ, coefficient }
    guard (k.isSupported && decide k.IsConsistent)
    return (k, rest)
  | _ => none

end Rsa

end ForwardAuth.Key
