/-!
# Decimal numbers as doubles

The double nearest to a decimal, found in exact arithmetic. The value `m · 10 ^ e` is a quotient
of two natural numbers. It lies between two neighbouring multiples of a power of two; the nearer
of the two is the answer, and of two equally near the one with the even multiplier. Doubles come
in that order of multipliers, so the bits of the answer are the multiplier on top of the steps
before it, in the subnormal range as in any other, and a multiplier rounded up to the next power
of two is right without further care.

## Main definitions

* `Decimal.binaryLog`: The greatest power of two not above a quotient.
* `Decimal.roundHalfEven`: The natural number nearest to a quotient.
* `Decimal.nearest`: The double nearest to a decimal.
-/

namespace ForwardAuth.Decimal

/-- The exponent of the greatest power of two that is at most `num / den`, both being positive. -/
def binaryLog (num den : Nat) : Int :=
  let guess : Int := (num.log2 : Int) - den.log2
  let fits := if num.log2 ≥ den.log2 then den <<< (num.log2 - den.log2) ≤ num
    else den ≤ num <<< (den.log2 - num.log2)
  if fits then guess else guess - 1

/-- The natural number nearest to `num / den`; of two equally near, the even one. -/
def roundHalfEven (num den : Nat) : Nat :=
  let q := num / den
  let r := num % den
  if 2 * r < den then q
  else if den < 2 * r then q + 1
  else q + q % 2

/-- The exponent of the least positive double. -/
def minExponent : Int := -1074

/-- The bits of infinity, which stand above those of every finite double. -/
def infinityBits : Nat := 2047 * Nat.pow 2 52

/-- The bits of the double nearest to `num / den`. -/
def quotientBits (num den : Nat) : Nat :=
  if num = 0 then 0
  else
    let step := max (binaryLog num den - 52) minExponent
    let multiplier :=
      if step ≥ 0 then roundHalfEven num (den <<< step.toNat)
      else roundHalfEven (num <<< (-step).toNat) den
    min infinityBits ((step - minExponent).toNat * Nat.pow 2 52 + multiplier)

/-- The double nearest to `m · 10 ^ e`. Beyond the exponents asked about first every positive
    value is infinite, or is zero however many digits it has. -/
def nearest (m : Nat) (e : Int) : Float :=
  let bits :=
    if m = 0 then 0
    else if e > 400 then infinityBits
    else if e + (m.log2 : Int) < -1500 then 0
    else if e ≥ 0 then quotientBits (m * Nat.pow 10 e.toNat) 1
    else quotientBits m (Nat.pow 10 (-e).toNat)
  Float.ofBits (UInt64.ofNat bits)

end ForwardAuth.Decimal
