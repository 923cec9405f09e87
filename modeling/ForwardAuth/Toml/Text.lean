import ForwardAuth.Text.Reader

/-!
# TOML strings

Strings come in four forms. Between quotes, escapes are resolved; between apostrophes, characters
stand for themselves. Each has a form over several lines that begins and ends with three marks: a
line break right after the opening is dropped, up to two marks may stand before the closing ones,
and between quotes a backslash at the end of a line removes the break and the blanks after it. Line
breaks read as one character, whichever way they are written.

Control characters stand in no string, except the tab.

## Main definitions

* `isPlain`: A character that may stand in strings and comments.
* `readString?`: A string of any form.
-/

namespace ForwardAuth.Toml

open Text

/-- The character may stand in strings and comments: it is no control character, or the tab. -/
def isPlain (c : Char) : Bool :=
  c == '\t' || (0x20 ≤ c.toNat && c.toNat ≠ 0x7F)

/-- The character that a code point of hexadecimal digits stands for. -/
def codePoint? (digits : List Char) : Option Char := do
  let n := number 16 (← digits.mapM hexadecimal?)
  if h : n.isValidChar then some (Char.ofNatAux n h) else none

/-- The character that a backslash and a letter stand for. -/
def escaped? : Char → Option Char
  | 'b' => some '\x08'
  | 't' => some '\t'
  | 'n' => some '\n'
  | 'f' => some '\x0c'
  | 'r' => some '\r'
  | '"' => some '"'
  | '\\' => some '\\'
  | _ => none

/-- Puts a character before the text that a reader has read. -/
def before (c : Char) (read : Option (List Char × List Char)) : Option (List Char × List Char) :=
  read.map fun (text, rest) => (c :: text, rest)

/-- Reads up to the closing quote. -/
def readQuoted? : Reader (List Char)
  | [] => none
  | '"' :: rest => some ([], rest)
  | '\\' :: 'u' :: a :: b :: c :: d :: rest => do
    before (← codePoint? [a, b, c, d]) (readQuoted? rest)
  | '\\' :: 'U' :: a :: b :: c :: d :: e :: f :: g :: h :: rest => do
    before (← codePoint? [a, b, c, d, e, f, g, h]) (readQuoted? rest)
  | '\\' :: c :: rest => do before (← escaped? c) (readQuoted? rest)
  | c :: rest => if isPlain c && c != '\\' then before c (readQuoted? rest) else none

/-- What follows three closing marks: up to two of the marks before them belong to the text. -/
def closing (mark : Char) : List Char → List Char × List Char
  | a :: b :: rest =>
    if a = mark then if b = mark then ([mark, mark], rest) else ([mark], b :: rest)
    else ([], a :: b :: rest)
  | [a] => if a = mark then ([mark], []) else ([], [a])
  | [] => ([], [])

/-- Where in a text over several lines a reader is. -/
inductive Place where
  | inText
  /-- A backslash and blanks were read, and the line has to end. -/
  | beforeBreak
  /-- The line ended after a backslash, and all blanks and breaks are dropped. -/
  | afterBreak
  deriving DecidableEq, Repr

/-- Reads up to the three closing quotes. -/
def readQuotedLines? (place : Place) (cs : List Char) : Option (List Char × List Char) :=
  match place, cs with
  | _, [] => none
  | .beforeBreak, '\n' :: rest => readQuotedLines? .afterBreak rest
  | .beforeBreak, '\r' :: '\n' :: rest => readQuotedLines? .afterBreak rest
  | .beforeBreak, c :: rest =>
    if c = ' ' ∨ c = '\t' then readQuotedLines? .beforeBreak rest else none
  | .afterBreak, '\r' :: '\n' :: rest => readQuotedLines? .afterBreak rest
  | .afterBreak, c :: rest =>
    if c = ' ' ∨ c = '\t' ∨ c = '\n' then readQuotedLines? .afterBreak rest
    else readQuotedLines? .inText (c :: rest)
  | .inText, '"' :: '"' :: '"' :: rest => some (closing '"' rest)
  | .inText, '\r' :: '\n' :: rest => before '\n' (readQuotedLines? .inText rest)
  | .inText, '\n' :: rest => before '\n' (readQuotedLines? .inText rest)
  | .inText, '\\' :: 'u' :: a :: b :: c :: d :: rest => do
    before (← codePoint? [a, b, c, d]) (readQuotedLines? .inText rest)
  | .inText, '\\' :: 'U' :: a :: b :: c :: d :: e :: f :: g :: h :: rest => do
    before (← codePoint? [a, b, c, d, e, f, g, h]) (readQuotedLines? .inText rest)
  | .inText, '\\' :: c :: rest =>
    if c = ' ' ∨ c = '\t' ∨ c = '\n' ∨ c = '\r' then readQuotedLines? .beforeBreak (c :: rest)
    else do before (← escaped? c) (readQuotedLines? .inText rest)
  | .inText, c :: rest =>
    if isPlain c && c != '\\' then before c (readQuotedLines? .inText rest) else none
termination_by (cs.length, if place = .afterBreak then 1 else 0)

/-- Reads up to the closing apostrophe. -/
def readLiteral? (cs : List Char) : Option (List Char × List Char) := do
  let isInside := fun c => isPlain c && c != '\x27'
  return (cs.takeWhile isInside, ← dropSign? '\x27' (cs.dropWhile isInside))

/-- Reads up to the three closing apostrophes. -/
def readLiteralLines? : Reader (List Char)
  | [] => none
  | '\x27' :: '\x27' :: '\x27' :: rest => some (closing '\x27' rest)
  | '\r' :: '\n' :: rest => before '\n' (readLiteralLines? rest)
  | c :: rest => if c = '\n' ∨ isPlain c then before c (readLiteralLines? rest) else none

/-- The text without the line break it begins with. -/
def dropBreak : List Char → List Char
  | '\r' :: '\n' :: rest => rest
  | '\n' :: rest => rest
  | cs => cs

/-- Reads a string of one line. -/
def readLineString? : Reader String
  | '"' :: rest => (readQuoted? rest).map fun (text, rest) => (String.ofList text, rest)
  | '\x27' :: rest => (readLiteral? rest).map fun (text, rest) => (String.ofList text, rest)
  | _ => none

/-- Reads a string of any form. -/
def readString? : Reader String
  | '"' :: '"' :: '"' :: rest =>
    (readQuotedLines? .inText (dropBreak rest)).map fun (text, rest) => (String.ofList text, rest)
  | '\x27' :: '\x27' :: '\x27' :: rest =>
    (readLiteralLines? (dropBreak rest)).map fun (text, rest) => (String.ofList text, rest)
  | cs => readLineString? cs

end ForwardAuth.Toml
