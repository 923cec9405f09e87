import ForwardAuth.Json.Number

/-!
# Tokens of JSON texts

A JSON text is a list of bytes. Outside strings it is made of brackets, commas, colons, the three
literal words, numbers and blanks; a string runs from quote to quote. Cutting the text into these
tokens needs to know only what the byte before belongs to, so it is one walk with a small state.

A string token keeps what is written: its bytes, which may be no text at all, and the code units
of its `\u` escapes, which may not pair up. Whether that makes a string is asked only when the
string is used, so that a part of a message that nobody reads cannot spoil the message.

## Main definitions

* `Piece`: One part of a written string.
* `Token`: One token.
* `Lexer`, `Lexer.step`: What the last byte belongs to, and how the next byte changes it.
* `tokens?`: The tokens of a text.
-/

namespace ForwardAuth.Json

/-- A part of a written string: a byte, or a code unit given by a `\u` escape. -/
inductive Piece where
  | byte (value : UInt8)
  | unit (value : Nat)
  deriving DecidableEq, Repr

/-- A token of a JSON text. -/
inductive Token where
  | openArray
  | closeArray
  | openObject
  | closeObject
  | comma
  | colon
  | null
  | bool (value : Bool)
  | number (value : Numeral)
  | string (pieces : List Piece)
  deriving DecidableEq, Repr

/-- What the bytes read last belong to. What was read of it is kept with the last byte first. -/
inductive Lexer where
  | between
  | number (read : List UInt8)
  | word (read : List UInt8)
  | string (read : List Piece)
  /-- A backslash was read. -/
  | escape (read : List Piece)
  /-- Some hexadecimal digits of an escape were read, and so many are left. -/
  | hex (read : List Piece) (value left : Nat)
  deriving DecidableEq, Repr

/-- The blanks between tokens. -/
def isBlankByte (b : UInt8) : Bool :=
  b == 0x20 || b == 0x09 || b == 0x0A || b == 0x0D

/-- The byte may stand in a number. -/
def isNumberByte (b : UInt8) : Bool :=
  isDigit b || b == 0x2B || b == 0x2D || b == 0x2E || b == 0x45 || b == 0x65

/-- The byte is a small letter. -/
def isLetterByte (b : UInt8) : Bool :=
  0x61 ≤ b && b ≤ 0x7A

/-- The value of a hexadecimal digit. -/
def hexValue? (b : UInt8) : Option Nat :=
  if isDigit b then some (digitValue b)
  else if 0x61 ≤ b && b ≤ 0x66 then some (b.toNat - 0x57)
  else if 0x41 ≤ b && b ≤ 0x46 then some (b.toNat - 0x37)
  else none

/-- The byte that a backslash and a letter stand for. -/
def escapedByte? (b : UInt8) : Option UInt8 :=
  match b with
  | 0x22 => some 0x22
  | 0x5C => some 0x5C
  | 0x2F => some 0x2F
  | 0x62 => some 0x08
  | 0x66 => some 0x0C
  | 0x6E => some 0x0A
  | 0x72 => some 0x0D
  | 0x74 => some 0x09
  | _ => none

namespace Lexer

/-- The token that a run of letters is. -/
def wordToken? (word : List UInt8) : Option Token :=
  if word = "null".toUTF8.toList then some .null
  else if word = "true".toUTF8.toList then some (.bool true)
  else if word = "false".toUTF8.toList then some (.bool false)
  else none

/-- The state after a byte that belongs to nothing read before, with the token that it is. -/
def start (b : UInt8) : Option (List Token × Lexer) :=
  if isBlankByte b then some ([], between)
  else if b == 0x5B then some ([.openArray], between)
  else if b == 0x5D then some ([.closeArray], between)
  else if b == 0x7B then some ([.openObject], between)
  else if b == 0x7D then some ([.closeObject], between)
  else if b == 0x2C then some ([.comma], between)
  else if b == 0x3A then some ([.colon], between)
  else if b == 0x22 then some ([], string [])
  else if isDigit b || b == 0x2D then some ([], number [b])
  else if isLetterByte b then some ([], word [b])
  else none

/-- The state after the next byte, with the tokens that are complete now. -/
def step (s : Lexer) (b : UInt8) : Option (List Token × Lexer) :=
  match s with
  | between => start b
  | number read =>
    if isNumberByte b then some ([], number (b :: read))
    else do
      let n ← Numeral.ofBytes? read.reverse
      let (ts, s) ← start b
      return (.number n :: ts, s)
  | word read =>
    if isLetterByte b then some ([], word (b :: read))
    else do
      let t ← wordToken? read.reverse
      let (ts, s) ← start b
      return (t :: ts, s)
  | string read =>
    if b == 0x22 then some ([.string read.reverse], between)
    else if b == 0x5C then some ([], escape read)
    else if b < 0x20 then none
    else some ([], string (.byte b :: read))
  | escape read =>
    if b == 0x75 then some ([], hex read 0 4)
    else (escapedByte? b).map fun c => ([], string (.byte c :: read))
  | hex read value left => do
    let d ← hexValue? b
    if left ≤ 1 then return ([], string (.unit (value * 16 + d) :: read))
    return ([], hex read (value * 16 + d) (left - 1))

/-- The tokens that are complete at the end of the text. A string is not. -/
def finish : Lexer → Option (List Token)
  | between => some []
  | number read => (Numeral.ofBytes? read.reverse).map fun n => [.number n]
  | word read => (wordToken? read.reverse).map fun t => [t]
  | _ => none

/-- The tokens of a text that goes on from a state. -/
def run (s : Lexer) : List UInt8 → Option (List Token)
  | [] => s.finish
  | b :: bs => do
    let (ts, s) ← s.step b
    return ts ++ (← s.run bs)

end Lexer

/-- The tokens of a text. -/
def tokens? (text : List UInt8) : Option (List Token) :=
  Lexer.between.run text

end ForwardAuth.Json
