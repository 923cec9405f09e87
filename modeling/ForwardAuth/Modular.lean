/-!
# Powers modulo a number

A power modulo a number is computed by squaring, with one step for each bit of the exponent. Modulo
a prime every number but zero has an inverse, which is one of its powers.

## Main definitions

* `power`: A power modulo a number.
* `inverse`: The inverse modulo a prime.
-/

namespace ForwardAuth.Modular

/-- The power of a base modulo `m`. -/
def power (m base exponent : Nat) : Nat :=
  if exponent = 0 then 1 % m
  else
    let root := power m (base * base % m) (exponent / 2)
    if exponent % 2 = 0 then root else root * base % m

/-- The inverse of a number modulo a prime. By Fermat's theorem it is the power whose exponent is
    two less than the prime. -/
def inverse (prime n : Nat) : Nat :=
  power prime n (prime - 2)

end ForwardAuth.Modular
