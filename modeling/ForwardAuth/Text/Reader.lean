/-!
# Readers

A reader takes something off the front of a text and returns it with what is left, or refuses the
text. Texts are lists of characters, and blanks are spaces and tabs.

`separated` reads several things with a sign between them. It ends before a sign that nothing
readable follows, so that a caller may still read that sign in its own way.

## Main definitions

* `Reader`: A reader.
* `separated`: One or more things with a sign between them.
* `digits?`: Digits, among which single underscores may stand.
* `fixed?`: A number of so many decimal digits.
-/

namespace ForwardAuth.Text

/-- Takes something off the front of a text. -/
abbrev Reader (α : Type) := List Char → Option (α × List Char)

/-- The text without the spaces and tabs it begins with. -/
def dropBlanks (cs : List Char) : List Char :=
  cs.dropWhile fun c => c == ' ' || c == '\t'

/-- Takes a sign off the front. -/
def dropSign? (sign : Char) : List Char → Option (List Char)
  | [] => none
  | c :: rest => if c = sign then some rest else none

/-- Takes a word off the front. -/
def dropWord? (word : List Char) (cs : List Char) : Option (List Char) :=
  if word.isPrefixOf cs then some (cs.drop word.length) else none

/-- Reads further things, each after a sign. -/
def further {α : Type} (item : Reader α) (sign : Char) (cs : List Char) : List α × List Char :=
  match cs with
  | [] => ([], [])
  | c :: rest =>
    if c = sign then
      match item rest with
      | none => ([], c :: rest)
      | some (a, left) =>
        if left.length ≤ rest.length then
          let (as, left) := further item sign left
          (a :: as, left)
        else ([], c :: rest)
    else ([], c :: rest)
termination_by cs.length

/-- Reads one or more things with a sign between them. -/
def separated {α : Type} (item : Reader α) (sign : Char) : Reader (List α) := fun cs => do
  let (a, rest) ← item cs
  let (as, rest) := further item sign rest
  return (a :: as, rest)

/-- The value of a decimal digit. -/
def decimal? (c : Char) : Option Nat :=
  if '0' ≤ c ∧ c ≤ '9' then some (c.toNat - '0'.toNat) else none

/-- The value of a hexadecimal digit, in either case. -/
def hexadecimal? (c : Char) : Option Nat :=
  if 'a' ≤ c ∧ c ≤ 'f' then some (c.toNat - 'a'.toNat + 10)
  else if 'A' ≤ c ∧ c ≤ 'F' then some (c.toNat - 'A'.toNat + 10)
  else decimal? c

/-- The value of a digit below a base that is at most ten. -/
def below? (base : Nat) (c : Char) : Option Nat :=
  (decimal? c).filter (· < base)

/-- The number that digits stand for. -/
def number (base : Nat) (ds : List Nat) : Nat :=
  ds.foldl (fun n d => n * base + d) 0

/-- Further digits, each with at most one underscore before it. -/
def furtherDigits (digit? : Char → Option Nat) : List Char → List Nat × List Char
  | [] => ([], [])
  | '_' :: c :: rest =>
    match digit? c with
    | some d => let (ds, rest) := furtherDigits digit? rest; (d :: ds, rest)
    | none => ([], '_' :: c :: rest)
  | c :: rest =>
    match digit? c with
    | some d => let (ds, rest) := furtherDigits digit? rest; (d :: ds, rest)
    | none => ([], c :: rest)

/-- Reads one or more digits, among which single underscores may stand. -/
def digits? (digit? : Char → Option Nat) : Reader (List Nat)
  | [] => none
  | c :: rest => (digit? c).map fun d =>
    let (ds, rest) := furtherDigits digit? rest
    (d :: ds, rest)

/-- Reads a number of exactly so many decimal digits. -/
def fixed? (count : Nat) : Reader Nat := fun cs => do
  let ds ← (cs.take count).mapM decimal?
  guard (ds.length = count)
  return (number 10 ds, cs.drop count)

end ForwardAuth.Text
