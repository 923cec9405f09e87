import ForwardAuth.Toml.Scalar

/-!
# TOML documents

A document is a list of statements, each on lines of its own: headers that announce a table or the
next table of an array, and assignments to keys. An assignment goes into the table that the last
header before it has announced. Values are nested to a bounded depth, and keys have a bounded number
of parts.

## Main definitions

* `readKey?`: A key, with dots between its parts.
* `readValue?`: A value, nested to a bounded depth.
* `Statement`: A header or an assignment.
* `statements?`: The statements of a text.
* `Table.ofStatements?`: The table that statements build.
* `Table.parse?`: The table that a text describes.
-/

namespace ForwardAuth.Toml

open Text

/-- The character may stand in a key without quotes. -/
def isBareKeyChar (c : Char) : Bool :=
  c.isAlphanum || c == '-' || c == '_'

/-- Reads one part of a key. -/
def readKeyPart? (cs : List Char) : Option (String × List Char) :=
  match cs with
  | '"' :: _ | '\x27' :: _ => readLineString? cs
  | _ =>
    match cs.takeWhile isBareKeyChar with
    | [] => none
    | name => some (String.ofList name, cs.dropWhile isBareKeyChar)

/-- A key has fewer parts than this, and values are nested less deeply. -/
def depthLimit : Nat := 80

/-- Reads a key with the blanks around its parts. -/
def readKey? (cs : List Char) : Option (List String × List Char) := do
  let part := fun cs => do
    let (name, rest) ← readKeyPart? (dropBlanks cs)
    return (name, dropBlanks rest)
  let (names, rest) ← separated part '.' cs
  guard (names.length < depthLimit)
  return (names, rest)

/-- Skips blanks, line breaks and comments. A comment that no line break ends is left over. -/
def skipLines (inComment : Bool) : List Char → List Char
  | [] => []
  | '\n' :: rest => skipLines false rest
  | '\r' :: '\n' :: rest => skipLines false rest
  | c :: rest =>
    if inComment then if isPlain c then skipLines true rest else c :: rest
    else if c = ' ' ∨ c = '\t' then skipLines false rest
    else if c = '#' then skipLines true rest
    else c :: rest

/-- Reads an array after its bracket. A comma may follow the last item. -/
def readArray? (item : Reader Value) (cs : List Char) : Option (Value × List Char) :=
  let spaced := fun cs => do
    let (v, rest) ← item (skipLines false cs)
    return (v, skipLines false rest)
  match separated spaced ',' cs with
  | none => (dropSign? ']' (skipLines false cs)).map fun rest => (.array [], rest)
  | some (items, rest) => do
    let rest := (dropSign? ',' rest).getD rest
    return (.array items, ← dropSign? ']' (skipLines false rest))

/-- Reads a key, the sign after it, and a value. -/
def readAssignment? (item : Reader Value) (cs : List Char) :
    Option ((List String × Value) × List Char) := do
  let (key, rest) ← readKey? cs
  let (v, rest) ← item (dropBlanks (← dropSign? '=' rest))
  return ((key, v), dropBlanks rest)

/-- The table that assignments build. -/
def Table.ofAssignments? (assignments : List (List String × Value)) : Option Table :=
  assignments.foldlM (fun t (key, v) => t.assign v key) []

/-- Reads an inline table after its brace. -/
def readInlineTable? (item : Reader Value) (cs : List Char) : Option (Value × List Char) := do
  let (assignments, rest) := (separated (readAssignment? item) ',' cs).getD ([], cs)
  let rest ← dropSign? '\x7d' (dropBlanks rest)
  return (.table .inline (← Table.ofAssignments? assignments), rest)

/-- Reads a value that is nested at most so deep. -/
def readValue? (depth : Nat) (cs : List Char) : Option (Value × List Char) :=
  match depth, cs with
  | depth + 1, '[' :: rest => readArray? (readValue? depth) rest
  | depth + 1, '\x7b' :: rest => readInlineTable? (readValue? depth) rest
  | _, _ => readScalar? cs

/-- A statement of a document. -/
inductive Statement where
  /-- A header announces a table. -/
  | table (names : List String)
  /-- A header announces the next table of an array. -/
  | element (names : List String)
  | assignment (key : List String) (value : Value)
  deriving Repr

/-- Skips the end of a line, which may be the end of the text. -/
def skipBreak? : List Char → Option (List Char)
  | [] => some []
  | '\n' :: rest => some rest
  | '\r' :: '\n' :: rest => some rest
  | _ => none

/-- Skips what is left of a line: blanks and a comment. -/
def skipLineEnd? (cs : List Char) : Option (List Char) :=
  match dropBlanks cs with
  | '#' :: rest => skipBreak? (rest.dropWhile isPlain)
  | rest => skipBreak? rest

/-- Reads the statement that a text begins with. -/
def readStatement? : Reader Statement
  | '[' :: '[' :: rest => do
    let (names, rest) ← readKey? rest
    return (.element names, ← dropSign? ']' (← dropSign? ']' rest))
  | '[' :: rest => do
    let (names, rest) ← readKey? rest
    return (.table names, ← dropSign? ']' rest)
  | cs => do
    let ((key, v), rest) ← readAssignment? (readValue? (depthLimit - 1)) cs
    return (.assignment key v, rest)

/-- Reads a line that holds no statement, or a statement with the rest of its last line. -/
def readLine? (cs : List Char) : Option (Option Statement × List Char) :=
  match skipLineEnd? cs with
  | some rest => some (none, rest)
  | none => do
    let (s, rest) ← readStatement? (dropBlanks cs)
    return (some s, ← skipLineEnd? rest)

/-- The statements of a text. -/
def statements? (cs : List Char) : Option (List Statement) :=
  match cs with
  | [] => some []
  | c :: cs =>
    match readLine? (c :: cs) with
    | none => none
    | some (s, rest) =>
      if rest.length ≤ cs.length then (statements? rest).map (s.toList ++ ·) else none
termination_by cs.length

/-- A document that is being built: its table, and where the last header leads. -/
structure Draft where
  table : Table
  header : List String
  deriving Repr

/-- The document after one more statement. -/
def Draft.add (d : Draft) : Statement → Option Draft
  | .table names => (d.table.define false names).map fun t => ⟨t, names⟩
  | .element names => (d.table.define true names).map fun t => ⟨t, names⟩
  | .assignment key v => (d.table.within (Table.assign v key) d.header).map fun t => ⟨t, d.header⟩

/-- The table that statements build. -/
def Table.ofStatements? (statements : List Statement) : Option Table :=
  (statements.foldlM Draft.add ⟨[], []⟩).map (·.table)

/-- The text without the mark that tells its byte order. -/
def dropByteOrderMark : List Char → List Char
  | '\uFEFF' :: rest => rest
  | cs => cs

/-- The table that a text describes. -/
def Table.parse? (text : String) : Option Table := do
  Table.ofStatements? (← statements? (dropByteOrderMark text.toList))

end ForwardAuth.Toml
