import ForwardAuth.Certificate.Element

/-!
# Times in certificates

The validity of a certificate is given by two times, each with a year of two digits or of four. A
certificate whose times do not exist is malformed, whatever the time is now.

## Main definitions

* `Time.daysInMonth`: The length of a month.
* `Time.isMoment`: A time of day on a date of the calendar.
* `Time.isTime`: An element is a time that exists.
-/

namespace ForwardAuth.Certificate.Time

/-- The years with a leap day. -/
def isLeapYear (year : Nat) : Bool :=
  year % 4 = 0 && (year % 100 ≠ 0 || year % 400 = 0)

/-- The days of a month; a month that does not exist has none. -/
def daysInMonth (year month : Nat) : Nat :=
  match month with
  | 1 | 3 | 5 | 7 | 8 | 10 | 12 => 31
  | 4 | 6 | 9 | 11 => 30
  | 2 => if isLeapYear year then 29 else 28
  | _ => 0

/-- The date is in the calendar and the time is in the day. -/
def isMoment (year month day hour minute second : Nat) : Bool :=
  1 ≤ day && day ≤ daysInMonth year month && hour ≤ 23 && minute ≤ 59 && second ≤ 59

/-- The number that two digits stand for. -/
def twoDigits? (a b : UInt8) : Option Nat :=
  if 0x30 ≤ a ∧ a ≤ 0x39 ∧ 0x30 ≤ b ∧ b ≤ 0x39 then
    some ((a.toNat - 0x30) * 10 + (b.toNat - 0x30))
  else none

/-- Reads numbers of two digits, so many of them. -/
def pairs? : Nat → List UInt8 → Option (List Nat × List UInt8)
  | 0, bytes => some ([], bytes)
  | n + 1, a :: b :: rest => do
    let v ← twoDigits? a b
    let (vs, rest) ← pairs? n rest
    return (v :: vs, rest)
  | _, _ => none

/-- The seconds, which may be left out where only the zone follows. -/
def seconds? : List UInt8 → Option (Nat × List UInt8)
  | a :: b :: rest => (twoDigits? a b).map fun s => (s, rest)
  | rest => some (0, rest)

/-- The rest of a time is a zone: `Z`, or a distance from it. -/
def isZone : List UInt8 → Bool
  | [0x5A] => true
  | sign :: rest =>
    (sign == 0x2B || sign == 0x2D) &&
      match pairs? 2 rest with
      | some ([hours, minutes], []) => hours ≤ 25 && minutes ≤ 59
      | _ => false
  | _ => false

/-- The rest of a time is the end of one in universal time: up to three digits of a fraction of a
    second after a point, where there may be none at all, and `Z`. -/
def isUniversalEnd : List UInt8 → Bool
  | 0x2E :: rest =>
    let digits := rest.takeWhile fun b => 0x30 ≤ b && b ≤ 0x39
    digits.length ≤ 3 && rest.drop digits.length == [0x5A]
  | rest => rest == [0x5A]

/-- The content is a time with a year of two digits, which stand for a year from 1950 to 2049. -/
def isUtcTime (content : List UInt8) : Bool :=
  match pairs? 5 content with
  | some ([year, month, day, hour, minute], rest) =>
    match seconds? rest with
    | some (second, rest) =>
      isMoment (if year ≥ 50 then 1900 + year else 2000 + year) month day hour minute second &&
        isZone rest
    | none => false
  | _ => false

/-- The content is a time with a year of four digits. It is a universal time. -/
def isGeneralizedTime (content : List UInt8) : Bool :=
  match pairs? 6 content with
  | some ([century, year, month, day, hour, minute], rest) =>
    match seconds? rest with
    | some (second, rest) =>
      isMoment (century * 100 + year) month day hour minute second && isUniversalEnd rest
    | none => false
  | _ => false

/-- The element is a time that exists. -/
def isTime (e : Element) : Bool :=
  if e.tag = Tag.utcTime then isUtcTime e.content
  else if e.tag = Tag.generalizedTime then isGeneralizedTime e.content
  else false

end ForwardAuth.Certificate.Time
