import ForwardAuth.Decimal
import ForwardAuth.Toml.Text
import ForwardAuth.Toml.Value

/-!
# TOML scalars

Numbers, truth values, dates and times. Integers have 64 bits. A decimal number has no leading zero,
and among its digits single underscores may stand. A float is the nearest double; one that would
be infinite has to be written as infinity, unless it is negative. Dates have to be in the calendar.

## Main definitions

* `readInteger?`, `readFloat?`: A number.
* `skipMoment?`: A date, a time, or both.
* `readScalar?`: A value that has no parts.
-/

namespace ForwardAuth.Toml

open Text

/-- Reads a sign, if there is one, and says whether it is the minus. -/
def readSign : List Char → Bool × List Char
  | '-' :: rest => (true, rest)
  | '+' :: rest => (false, rest)
  | cs => (false, cs)

/-- Reads digits without a leading zero. -/
def readWhole? : Reader (List Nat)
  | '0' :: rest => some ([0], rest)
  | cs => digits? decimal? cs

/-- The greatest integer. -/
def maxInteger : Int := Nat.pow 2 63 - 1

/-- The integer, if it has 64 bits. -/
def integer? (n : Int) : Option Value :=
  if -maxInteger - 1 ≤ n ∧ n ≤ maxInteger then some (.integer n) else none

/-- Reads an integer in decimal, or after `0x`, `0o` or `0b` in another base. -/
def readInteger? : Reader Value
  | '0' :: 'x' :: rest => do
    let (ds, rest) ← digits? hexadecimal? rest
    return (← integer? (number 16 ds), rest)
  | '0' :: 'o' :: rest => do
    let (ds, rest) ← digits? (below? 8) rest
    return (← integer? (number 8 ds), rest)
  | '0' :: 'b' :: rest => do
    let (ds, rest) ← digits? (below? 2) rest
    return (← integer? (number 2 ds), rest)
  | cs => do
    let (negative, rest) := readSign cs
    let (ds, rest) ← readWhole? rest
    let n : Int := number 10 ds
    return (← integer? (if negative then -n else n), rest)

/-- Reads the digits after a point. -/
def readFraction? : Reader (List Nat)
  | '.' :: rest => digits? decimal? rest
  | _ => none

/-- Reads an exponent. -/
def readExponent? : Reader Int
  | [] => none
  | c :: rest => do
    guard (c == 'e' || c == 'E')
    let (negative, rest) := readSign rest
    let (ds, rest) ← digits? decimal? rest
    let n : Int := number 10 ds
    return (if negative then -n else n, rest)

/-- Reads the fraction and the exponent of a float, one of which has to be there. -/
def readScale? (cs : List Char) : Option ((List Nat × Int) × List Char) :=
  match readFraction? cs with
  | none => (readExponent? cs).map fun (e, rest) => (([], e), rest)
  | some (ds, rest) =>
    match readExponent? rest with
    | none => some ((ds, 0), rest)
    | some (e, rest) => some ((ds, e), rest)

/-- Reads a float that is written with digits. -/
def readDigitFloat? (cs : List Char) : Option (Value × List Char) := do
  let (negative, rest) := readSign cs
  let (whole, rest) ← readWhole? rest
  let ((fraction, e), rest) ← readScale? rest
  let x := Decimal.nearest (number 10 (whole ++ fraction)) (e - fraction.length)
  guard (negative || !x.isInf)
  return (.float (if negative then -x else x), rest)

/-- Infinity, above all doubles. -/
def infinity : Float := Float.ofBits 0x7FF0000000000000

/-- No number. -/
def noNumber : Float := Float.ofBits 0x7FF8000000000000

/-- Reads a float that is written as a word. -/
def readWordFloat? (cs : List Char) : Option (Value × List Char) :=
  let (negative, rest) := readSign cs
  match dropWord? "inf".toList rest, dropWord? "nan".toList rest with
  | some rest, _ => some (.float (if negative then -infinity else infinity), rest)
  | _, some rest => some (.float noNumber, rest)
  | _, _ => none

/-- Reads a float. -/
def readFloat? (cs : List Char) : Option (Value × List Char) :=
  readDigitFloat? cs <|> readWordFloat? cs

/-- The days of a month. -/
def daysInMonth (year month : Nat) : Nat :=
  match month with
  | 2 => if year % 4 = 0 ∧ (year % 100 ≠ 0 ∨ year % 400 = 0) then 29 else 28
  | 4 | 6 | 9 | 11 => 30
  | _ => 31

/-- Skips a date of the calendar. -/
def skipDate? (cs : List Char) : Option (List Char) := do
  let (year, rest) ← fixed? 4 cs
  let (month, rest) ← fixed? 2 (← dropSign? '-' rest)
  let (day, rest) ← fixed? 2 (← dropSign? '-' rest)
  guard (1 ≤ month ∧ month ≤ 12 ∧ 1 ≤ day ∧ day ≤ daysInMonth year month)
  return rest

/-- Skips hours and minutes. -/
def skipMinutes? (cs : List Char) : Option (List Char) := do
  let (hour, rest) ← fixed? 2 cs
  let (minute, rest) ← fixed? 2 (← dropSign? ':' rest)
  guard (hour ≤ 23 ∧ minute ≤ 59)
  return rest

/-- Skips the digits of a fraction of a second, if there are any. -/
def skipFraction : List Char → List Char
  | '.' :: c :: rest =>
    if c.isDigit then rest.dropWhile Char.isDigit else '.' :: c :: rest
  | cs => cs

/-- Skips a time of day, in which a leap second may be. -/
def skipTime? (cs : List Char) : Option (List Char) := do
  let (second, rest) ← fixed? 2 (← dropSign? ':' (← skipMinutes? cs))
  guard (second ≤ 60)
  return skipFraction rest

/-- Skips the distance of a time from the reference time, if it is written. -/
def skipOffset (cs : List Char) : List Char :=
  match cs with
  | [] => []
  | c :: rest =>
    if c = 'Z' ∨ c = 'z' then rest
    else if c = '+' ∨ c = '-' then (skipMinutes? rest).getD cs
    else cs

/-- Skips the time after a date, if there is one. -/
def skipTimeOfDate (cs : List Char) : List Char :=
  match cs with
  | [] => []
  | c :: rest =>
    if c = 'T' ∨ c = 't' ∨ c = ' ' then ((skipTime? rest).map skipOffset).getD cs else cs

/-- Skips a date, a time, or both. -/
def skipMoment? (cs : List Char) : Option (List Char) :=
  ((skipDate? cs).map skipTimeOfDate) <|> skipTime? cs

/-- Reads a date, a time, or both. -/
def readMoment? (cs : List Char) : Option (Value × List Char) :=
  (skipMoment? cs).map fun rest => (.moment, rest)

/-- Reads a truth value. -/
def readBoolean? (cs : List Char) : Option (Value × List Char) :=
  match dropWord? "true".toList cs, dropWord? "false".toList cs with
  | some rest, _ => some (.boolean true, rest)
  | _, some rest => some (.boolean false, rest)
  | _, _ => none

/-- Reads a value that has no parts. -/
def readScalar? (cs : List Char) : Option (Value × List Char) :=
  ((readString? cs).map fun (s, rest) => (.string s, rest)) <|> readBoolean? cs <|>
    readMoment? cs <|> readFloat? cs <|> readInteger? cs

end ForwardAuth.Toml
