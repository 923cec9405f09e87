import ForwardAuth.Bytes
import ForwardAuth.Hash.Shake

/-!
# ML-DSA keys

A private ML-DSA key is a seed of 32 bytes. It is spread to a public matrix and two secret lists of
polynomials with small coefficients; the matrix takes the first of them to a list near which the
second leads, and the public key tells the high bits of what comes out.

Polynomials have 256 coefficients modulo a prime, and a product of them is reduced by `x²⁵⁶ = -1`.
The prime has a root of unity of order 512, and a polynomial is known from its values at the odd
powers of the root. Where values stand for a polynomial, as they do in the matrix, products are
taken value by value.

## Main definitions

* `Lattice.Level`: The sizes that the three levels of security differ in.
* `Lattice.Polynomial`, `Lattice.values`, `Lattice.ofValues`: Polynomials and their values.
* `Lattice.matrix?`, `Lattice.secret?`: What a seed is spread to.
* `Lattice.Expanded`: A private key with all that follows from its seed.
* `Lattice.Expanded.publicBytes`: The public key that goes with a private key.
-/

namespace ForwardAuth.Key.Lattice

/-- The sizes that a level of security stands for. -/
structure Level where
  /-- The object identifier that names the level. -/
  name : List UInt8
  /-- The rows of the matrix. -/
  rows : Nat
  /-- The columns of the matrix. -/
  columns : Nat
  /-- How far the coefficients of secret polynomials are from zero. -/
  bound : Nat
  deriving DecidableEq, Repr

/-- The three levels, 2.16.840.1.101.3.4.3.17 to 2.16.840.1.101.3.4.3.19. -/
def Level.known : List Level :=
  [⟨[0x60, 0x86, 0x48, 0x01, 0x65, 0x03, 0x04, 0x03, 0x11], 4, 4, 2⟩,
    ⟨[0x60, 0x86, 0x48, 0x01, 0x65, 0x03, 0x04, 0x03, 0x12], 6, 5, 4⟩,
    ⟨[0x60, 0x86, 0x48, 0x01, 0x65, 0x03, 0x04, 0x03, 0x13], 8, 7, 2⟩]

/-! ### Polynomials -/

/-- The prime. -/
abbrev prime : Nat := 8380417

/-- A coefficient. -/
abbrev Coefficient := Fin prime

/-- A polynomial by its coefficients, the constant one first. -/
abbrev Polynomial := Vector Coefficient 256

/-- A polynomial by its values. -/
abbrev Values := Vector Coefficient 256

/-- The powers of the root of unity 1753, up to its order. -/
def powers : Vector Coefficient 512 :=
  .ofFn fun i => i.val.fold (fun _ _ power => power * 1753) 1

/-- A power of the root of unity. -/
def powerAt (exponent : Nat) : Coefficient :=
  powers.get ⟨exponent % 512, by omega⟩

/-- The number with the eight lowest bits of another one in turned order. -/
def reversed (n : Nat) : Nat :=
  (List.range 8).foldl (fun r i => 2 * r + n / Nat.pow 2 i % 2) 0

/-- The odd powers of the root of unity, in the order in which values are kept. -/
def points : Vector Nat 256 :=
  .ofFn fun i => 2 * reversed i.val + 1

/-- The values of a polynomial. -/
def values (f : Polynomial) : Values :=
  points.map fun point =>
    Nat.fold 256 (fun j _ sum => sum + f[j] * powerAt (point * j)) 0

/-- The polynomial with the given values: by the sum over all points, and 8347681 is the inverse of
    256. -/
def ofValues (v : Values) : Polynomial :=
  .ofFn fun j =>
    8347681 * Nat.fold 256 (fun i _ sum => sum + v[i] * powerAt ((512 - points[i] % 512) * j.val)) 0

/-- A sum, coefficient by coefficient or value by value. -/
def add (f g : Vector Coefficient 256) : Vector Coefficient 256 :=
  .zipWith (· + ·) f g

/-- A product, value by value. -/
def multiply (f g : Values) : Values :=
  .zipWith (· * ·) f g

/-! ### Spreading a seed -/

/-- The first 256 of some coefficients, if there are so many. -/
def enough? (coefficients : List Coefficient) : Option (Vector Coefficient 256) :=
  let taken := (coefficients.take 256).toArray
  if h : taken.size = 256 then some ⟨taken, h⟩ else none

/-- The numbers of 23 bits in the bytes that are below the prime, three bytes for each. -/
def uniform : List UInt8 → List Coefficient
  | a :: b :: c :: rest =>
    let n := a.toNat + 256 * b.toNat + 65536 * (c.toNat % 128)
    if h : n < prime then ⟨n, h⟩ :: uniform rest else uniform rest
  | _ => []

/-- A polynomial of the matrix, by its values. 298 numbers are drawn at most. -/
def entry? (seed : List UInt8) (row column : Nat) : Option Values :=
  enough? (uniform (Hash.shake128 (seed ++ [UInt8.ofNat column, UInt8.ofNat row]) 894))

/-- The matrix that a public seed is spread to, row by row. -/
def matrix? (level : Level) (seed : List UInt8) : Option (List (List Values)) :=
  (List.range level.rows).mapM fun row =>
    (List.range level.columns).mapM fun column => entry? seed row column

/-- The coefficient that is so far below a bound. -/
def below (bound n : Nat) : Coefficient :=
  Fin.ofNat prime (bound + (prime - n))

/-- The small coefficients that four bits are good for, if they are good for one. -/
def small (bound n : Nat) : List Coefficient :=
  if bound = 2 then if n < 15 then [below 2 (n % 5)] else []
  else if n < 9 then [below 4 n] else []

/-- A secret polynomial with a number. 481 bytes are drawn at most. -/
def secret? (bound : Nat) (seed : List UInt8) (number : Nat) : Option Polynomial :=
  enough? ((Hash.shake256 (seed ++ Bytes.toLittleEndian 2 number) 481).flatMap fun b =>
    small bound (b.toNat % 16) ++ small bound (b.toNat / 16))

/-! ### Packing -/

/-- Numbers of so many bits each in bytes, the lowest bits first. They fill whole bytes. -/
def pack (width : Nat) (numbers : List Nat) : List UInt8 :=
  Bytes.toLittleEndian (width * numbers.length / 8)
    (numbers.foldr (fun n packed => n + Nat.pow 2 width * packed) 0)

/-- Numbers of so many bits each from bytes. -/
def unpack (width count : Nat) (bytes : List UInt8) : List Nat :=
  let packed := Bytes.ofLittleEndian bytes
  (List.range count).map fun i => packed / Nat.pow 2 (width * i) % Nat.pow 2 width

/-- The bits of a distance in a secret polynomial. -/
def width (bound : Nat) : Nat :=
  Bytes.bitLength (2 * bound)

/-- Secret polynomials, by the distances of their coefficients from the bound. -/
def packSecrets (bound : Nat) (fs : List Polynomial) : List UInt8 :=
  fs.flatMap fun f => pack (width bound) (f.toList.map fun c => (below bound c.val).val)

/-- Secret polynomials from bytes, so many of them, if their coefficients are small. -/
def unpackSecrets? (bound count : Nat) (bytes : List UInt8) : Option (List Polynomial) :=
  (List.range count).mapM fun i => do
    let size := 32 * width bound
    let distances := unpack (width bound) 256 ((bytes.drop (size * i)).take size)
    guard (distances.all (· ≤ 2 * bound))
    enough? (distances.map (below bound))

/-! ### Keys -/

/-- The bits of a coefficient that the public key does not tell. -/
def hidden : Nat := 13

/-- The high bits of a coefficient, such that what is left is as near to zero as possible. -/
def high (c : Coefficient) : Nat :=
  (c.val + (Nat.pow 2 (hidden - 1) - 1)) / Nat.pow 2 hidden

/-- How far what is left of a coefficient is from the most that it can be. -/
def low (c : Coefficient) : Nat :=
  Nat.pow 2 hidden * high c + Nat.pow 2 (hidden - 1) - c.val

/-- A private key with all that follows from its seed. -/
structure Expanded where
  level : Level
  /-- The seed of the matrix. -/
  publicSeed : List UInt8
  /-- The secret that signatures are drawn with. -/
  drawing : List UInt8
  first : List Polynomial
  second : List Polynomial
  deriving DecidableEq, Repr

namespace Expanded

/-- What the matrix makes of the first secrets, with the second secrets added. -/
def image? (k : Expanded) : Option (List Polynomial) := do
  let matrix ← matrix? k.level k.publicSeed
  let first := k.first.map values
  return List.zipWith (fun row secret =>
    let sum := (List.zipWith multiply row first).foldl add (Vector.replicate 256 0)
    add (ofValues sum) secret) matrix k.second

/-- The public key for an image. -/
def publicBytesOf (k : Expanded) (image : List Polynomial) : List UInt8 :=
  k.publicSeed ++ image.flatMap fun f => pack 10 (f.toList.map high)

/-- The public key that goes with a private key. -/
def publicBytes? (k : Expanded) : Option (List UInt8) :=
  k.image?.map k.publicBytesOf

/-- The private key in bytes. -/
def bytes? (k : Expanded) : Option (List UInt8) := do
  let image ← k.image?
  return k.publicSeed ++ k.drawing ++ Hash.shake256 (k.publicBytesOf image) 64 ++
    packSecrets k.level.bound k.first ++ packSecrets k.level.bound k.second ++
    image.flatMap fun f => pack hidden (f.toList.map low)

/-- What a seed is spread to. -/
def ofSeed? (level : Level) (seed : List UInt8) : Option Expanded := do
  let sizes := [UInt8.ofNat level.rows, UInt8.ofNat level.columns]
  let spread := Hash.shake256 (seed ++ sizes) 128
  let secretSeed := (spread.drop 32).take 64
  let secrets ← (List.range (level.columns + level.rows)).mapM (secret? level.bound secretSeed)
  return { level, publicSeed := spread.take 32, drawing := spread.drop 96,
           first := secrets.take level.columns, second := secrets.drop level.columns }

/-- Reads a private key from bytes. Writing it has to give the same bytes. -/
def ofBytes? (level : Level) (bytes : List UInt8) : Option Expanded := do
  let secrets ← unpackSecrets? level.bound (level.columns + level.rows) (bytes.drop 128)
  let k : Expanded :=
    { level, publicSeed := bytes.take 32, drawing := (bytes.drop 32).take 32,
      first := secrets.take level.columns, second := secrets.drop level.columns }
  guard (k.bytes? = some bytes)
  return k

end Expanded

end ForwardAuth.Key.Lattice
