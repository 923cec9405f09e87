/-!
# Numbers as bytes

A natural number is written as bytes with the highest or with the lowest first. Keys, hashes and the
lengths in encodings use one or the other, and most of them a fixed count of bytes.

## Main definitions

* `ofBigEndian`, `ofLittleEndian`: The number that bytes stand for.
* `toBigEndian`, `toLittleEndian`: A number in a given count of bytes.
* `sizeOf`: The least count of bytes that holds a number.

## Theorems

* `length_toLittleEndian`, `length_toBigEndian`: The count of bytes is the given one.
* `ofLittleEndian_toLittleEndian`: Bytes that are enough for a number give it back.
-/

namespace ForwardAuth.Bytes

/-- The natural number whose bytes are given, the highest first. -/
def ofBigEndian (bytes : List UInt8) : Nat :=
  bytes.foldl (fun n b => n * 256 + b.toNat) 0

/-- The natural number whose bytes are given, the lowest first. -/
def ofLittleEndian : List UInt8 → Nat
  | [] => 0
  | b :: rest => b.toNat + 256 * ofLittleEndian rest

/-- The lowest bytes of a number, so many of them, the lowest first. -/
def toLittleEndian : Nat → Nat → List UInt8
  | 0, _ => []
  | size + 1, n => UInt8.ofNat n :: toLittleEndian size (n / 256)

/-- The lowest bytes of a number, so many of them, the highest first. -/
def toBigEndian (size n : Nat) : List UInt8 :=
  (toLittleEndian size n).reverse

/-- The bits of a number without its leading zeros. -/
def bitLength (n : Nat) : Nat :=
  if n = 0 then 0 else n.log2 + 1

/-- The least count of bytes that holds a number. -/
def sizeOf (n : Nat) : Nat :=
  (bitLength n + 7) / 8

theorem length_toLittleEndian (size n : Nat) : (toLittleEndian size n).length = size := by
  induction size generalizing n with
  | zero => rfl
  | succ size ih => simp [toLittleEndian, ih]

theorem length_toBigEndian (size n : Nat) : (toBigEndian size n).length = size := by
  simp [toBigEndian, length_toLittleEndian]

theorem ofLittleEndian_toLittleEndian (size n : Nat) :
    ofLittleEndian (toLittleEndian size n) = n % Nat.pow 256 size := by
  induction size generalizing n with
  | zero => exact (Nat.mod_one n).symm
  | succ size ih =>
    have hpow : Nat.pow 256 (size + 1) = 256 * Nat.pow 256 size := Nat.mul_comm _ _
    simp only [toLittleEndian, ofLittleEndian, ih]
    rw [hpow, Nat.mod_mul]
    simp

end ForwardAuth.Bytes
