/-!
# Header fields

A message carries a list of fields, each a name and a value. Names are compared without regard to
case, so a name is kept in lower case. A value is a list of bytes that may be anything but a
control byte other than the tab; it need not be text. A name may be given more than once, and the
order of its values is the order of its fields.

Programs that compare or trim a value first ask for its text. Only a value of visible ASCII
characters, spaces and tabs has one: any other byte has no agreed meaning in a header.

## Main definitions

* `HeaderName`, `HeaderName.ofString?`: A field name, read from a token of any case.
* `HeaderValue`, `HeaderValue.ofBytes?`: A field value, read from bytes.
* `HeaderValue.text?`: The value as text.
* `Headers`: The fields of a message.
* `Headers.values`, `Headers.first?`: The values given for a name, and the first of them.

## Theorems

* `Headers.values_cons_of_ne`, `Headers.values_cons_of_eq`: What one more field adds to the values.
-/

namespace ForwardAuth.Http

/-- The name of a header field, in lower case. -/
structure HeaderName where
  text : String
  deriving DecidableEq, Repr

namespace HeaderName

/-- The character may stand in a field name. -/
def isTokenChar (c : Char) : Bool :=
  c.isAlphanum || "!#$%&'*+-.^_`|~".toList.contains c

/-- A field name has at most this many characters. -/
def maxLength : Nat := 65535

/-- Reads a field name, which is a token of any case. -/
def ofString? (s : String) : Option HeaderName :=
  let cs := s.toList
  if cs.isEmpty || cs.length > maxLength || !cs.all isTokenChar then none
  else some ⟨String.ofList (cs.map Char.toLower)⟩

end HeaderName

/-- The byte may stand in a field value: no control byte does, except the tab. -/
def isValueByte (b : UInt8) : Bool :=
  b == 0x09 || (0x20 ≤ b && b != 0x7F)

/-- The byte is a visible ASCII character, a space or a tab. -/
def isTextByte (b : UInt8) : Bool :=
  b == 0x09 || (0x20 ≤ b && b < 0x7F)

/-- The value of a header field. -/
structure HeaderValue where
  bytes : List UInt8
  all_isValueByte : bytes.all isValueByte = true
  deriving DecidableEq, Repr

namespace HeaderValue

/-- Reads a field value; a control byte other than the tab makes it no value. -/
def ofBytes? (bytes : List UInt8) : Option HeaderValue :=
  if h : bytes.all isValueByte = true then some ⟨bytes, h⟩ else none

/-- The value that a text encodes to, unless the text holds a control character. -/
def ofString? (s : String) : Option HeaderValue :=
  ofBytes? s.toUTF8.toList

/-- The value as text, which it has if all its bytes are visible ASCII, spaces or tabs. -/
def text? (v : HeaderValue) : Option String :=
  if v.bytes.all isTextByte then
    some (String.ofList (v.bytes.map fun b => Char.ofNat b.toNat))
  else none

end HeaderValue

/-- The header fields of a message, in the order they were sent. -/
abbrev Headers := List (HeaderName × HeaderValue)

namespace Headers

/-- The values given for a name, in order. -/
def values (h : Headers) (name : HeaderName) : List HeaderValue :=
  h.filterMap fun field => if field.1 = name then some field.2 else none

/-- A field of another name adds no value. -/
theorem values_cons_of_ne {field : HeaderName × HeaderValue} {name : HeaderName}
    (h : field.1 ≠ name) (rest : Headers) : values (field :: rest) name = values rest name :=
  List.filterMap_cons_none (if_neg h)

/-- A field of the name adds its value. -/
theorem values_cons_of_eq {field : HeaderName × HeaderValue} {name : HeaderName}
    (h : field.1 = name) (rest : Headers) :
    values (field :: rest) name = field.2 :: values rest name :=
  List.filterMap_cons_some (if_pos h)

/-- The first value given for a name. -/
def first? (h : Headers) (name : HeaderName) : Option HeaderValue :=
  (h.values name).head?

/-- The first value given for a name, as text. -/
def text? (h : Headers) (name : HeaderName) : Option String :=
  (h.first? name).bind HeaderValue.text?

end Headers

end ForwardAuth.Http
