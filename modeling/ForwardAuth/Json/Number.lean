import ForwardAuth.Decimal

/-!
# Numbers in JSON texts

A number is written as an integer with an optional fraction and an optional exponent. An integer
that fits 64 bits, with or without sign, is kept exactly. Every other number is a double, read in
a fixed way: the digits are gathered into a 64-bit significand, those that no longer fit are
dropped, and the rounded significand is scaled by a rounded power of ten. A number too great for
a double is no number; one too small is zero. Minus zero is a double, since no integer is it.

## Main definitions

* `Json.Numeral`, `Json.Numeral.ofBytes?`: The parts of a written number.
* `Json.Number`: The value of a number.
* `Json.Numeral.value?`: The value that a written number has.
-/

namespace ForwardAuth.Json

/-- The byte is a decimal digit. -/
def isDigit (b : UInt8) : Bool :=
  0x30 ≤ b && b ≤ 0x39

/-- The digit that a byte stands for. -/
def digitValue (b : UInt8) : Nat :=
  b.toNat - 0x30

/-- The exponent of a written number. -/
structure Exponent where
  negative : Bool
  digits : List Nat
  deriving DecidableEq, Repr

/-- A written number in its parts. -/
structure Numeral where
  negative : Bool
  whole : List Nat
  fraction : List Nat
  exponent : Option Exponent
  /-- A fraction or an exponent is written. -/
  isReal : Bool
  deriving DecidableEq, Repr

namespace Numeral

/-- Splits off the digits a text begins with; there must be one. -/
def digits? (bytes : List UInt8) : Option (List Nat × List UInt8) :=
  match bytes.takeWhile isDigit with
  | [] => none
  | ds => some (ds.map digitValue, bytes.dropWhile isDigit)

/-- The sign of a number, where only the minus is written. -/
def sign : List UInt8 → Bool × List UInt8
  | 0x2D :: rest => (true, rest)
  | bytes => (false, bytes)

/-- The sign of an exponent, where the plus may be written. -/
def exponentSign : List UInt8 → Bool × List UInt8
  | 0x2B :: rest => (false, rest)
  | bytes => sign bytes

/-- The fraction, if a point follows. -/
def fraction? : List UInt8 → Option (List Nat × List UInt8)
  | 0x2E :: rest => digits? rest
  | bytes => some ([], bytes)

/-- The exponent, if a letter for it follows. -/
def exponent? : List UInt8 → Option (Option Exponent × List UInt8)
  | [] => some (none, [])
  | b :: rest =>
    if b == 0x65 || b == 0x45 then do
      let (negative, rest) := exponentSign rest
      let (ds, rest) ← digits? rest
      return (some ⟨negative, ds⟩, rest)
    else some (none, b :: rest)

/-- Reads a number that takes up the whole text. A zero begins no longer integer. -/
def ofBytes? (bytes : List UInt8) : Option Numeral := do
  let (negative, rest) := sign bytes
  let (whole, rest) ← digits? rest
  guard (whole.head? ≠ some 0 || whole.length == 1)
  let (fraction, tail) ← fraction? rest
  let (exponent, tail) ← exponent? tail
  guard tail.isEmpty
  return ⟨negative, whole, fraction, exponent, !rest.isEmpty⟩

end Numeral

/-- The value of a number. -/
inductive Number where
  | int (value : Int)
  | float (value : Float)
  deriving BEq, Repr

/-- The significand of a double-valued number is gathered in 64 bits. -/
def maxSignificand : Nat := Nat.pow 2 64 - 1

/-- The greatest exponent that is read as such. -/
def maxExponent : Nat := Nat.pow 2 31 - 1

/-- Adds digits to a significand as long as it fits; the digits that do not are returned. -/
def absorb (significand : Nat) : List Nat → Nat × List Nat
  | [] => (significand, [])
  | d :: ds =>
    if significand * 10 + d ≤ maxSignificand then absorb (significand * 10 + d) ds
    else (significand, d :: ds)

/-- The natural number that digits stand for. -/
def ofDigits (ds : List Nat) : Nat :=
  ds.foldl (fun n d => n * 10 + d) 0

/-- Scales a double by a power of ten, in one step of at most `10 ^ 308`, unless the exponent is
    lower. A result that is infinite is none. -/
def scale? (x : Float) (e : Int) : Option Float :=
  if e > 308 then if x == 0 then some x else none
  else if e ≥ 0 then
    let y := x * Decimal.nearest 1 e
    if y.isInf then none else some y
  else if e ≥ -308 then some (x / Decimal.nearest 1 (-e))
  else if x == 0 then some x
  else scale? (x / Decimal.nearest 1 308) (e + 308)
termination_by (-e).toNat

namespace Numeral

/-- The significand and the power of ten that the digits before and after the point give. -/
def significand (n : Numeral) : Nat × Int :=
  let (s, wholeLeft) := absorb 0 n.whole
  let (s, fractionLeft) := absorb s n.fraction
  (s, (wholeLeft.length : Int) - (n.fraction.length - fractionLeft.length : Nat))

/-- The magnitude of the number as a double. -/
def magnitude? (n : Numeral) : Option Float :=
  let (s, e) := n.significand
  match n.exponent with
  | none => scale? (Decimal.nearest s 0) e
  | some x =>
    let shift := ofDigits x.digits
    if shift > maxExponent then
      if s ≠ 0 ∧ ¬ x.negative then none else some 0
    else scale? (Decimal.nearest s 0) (if x.negative then e - shift else e + shift)

/-- The value of the number: exact if it is an integer of 64 bits, else a double. -/
def value? (n : Numeral) : Option Number :=
  let m := ofDigits n.whole
  if !n.isReal && !n.negative && m ≤ maxSignificand then some (.int m)
  else if !n.isReal && n.negative && 0 < m && m ≤ Nat.pow 2 63 then some (.int (-m))
  else n.magnitude?.map fun x => .float (if n.negative then -x else x)

end Numeral

end ForwardAuth.Json
