import ForwardAuth.Json.Value

/-!
# Compact JSON texts

Values are written without any blank. In strings the quote, the backslash and the control
characters are escaped, the common ones by a letter and the others by their code; every other
character stands for itself.

Doubles are never part of what this program writes; one is written as `null`.

## Main definitions

* `escape`: A character as it is written in a string.
* `quote`: A string as it is written.
* `Json.render`: A value as it is written.
* `Json.encode`: The bytes of a written value.
-/

namespace ForwardAuth.Json

/-- The hexadecimal digit of a number below sixteen. -/
def hexDigit (n : Nat) : Char :=
  if n < 10 then Char.ofNat (0x30 + n) else Char.ofNat (0x57 + n)

/-- A character as it is written in a string. -/
def escape (c : Char) : List Char :=
  if c = '"' then ['\\', '"']
  else if c = '\\' then ['\\', '\\']
  else if c = '\n' then ['\\', 'n']
  else if c = '\r' then ['\\', 'r']
  else if c = '\t' then ['\\', 't']
  else if c = '\x08' then ['\\', 'b']
  else if c = '\x0c' then ['\\', 'f']
  else if c.toNat < 0x20 then
    ['\\', 'u', '0', '0', hexDigit (c.toNat / 16), hexDigit (c.toNat % 16)]
  else [c]

/-- A string as it is written. -/
def quote (s : String) : List Char :=
  '"' :: s.toList.flatMap escape ++ ['"']

/-- Parts of an array or object, one after another. -/
def commaSeparated : List (List Char) → List Char
  | [] => []
  | [part] => part
  | part :: parts => part ++ ',' :: commaSeparated parts

mutual

/-- A value as it is written. -/
def render : Json → List Char
  | .null => "null".toList
  | .bool true => "true".toList
  | .bool false => "false".toList
  | .number (.int n) => (toString n).toList
  | .number (.float _) => "null".toList
  | .string s => quote s
  | .array items => '[' :: commaSeparated (renderItems items) ++ [']']
  | .object members => '\x7b' :: commaSeparated (renderMembers members) ++ ['\x7d']

/-- The items of an array as they are written. -/
def renderItems : List Json → List (List Char)
  | [] => []
  | v :: vs => render v :: renderItems vs

/-- The members of an object as they are written. -/
def renderMembers : List (String × Json) → List (List Char)
  | [] => []
  | (k, v) :: ms => (quote k ++ ':' :: render v) :: renderMembers ms

end

/-- The bytes of a written value. -/
def encode (v : Json) : List UInt8 :=
  (String.ofList (render v)).toUTF8.toList

end ForwardAuth.Json
