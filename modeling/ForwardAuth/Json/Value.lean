import ForwardAuth.Json.Written

/-!
# JSON values

The value of a JSON text. A string must be text once its escapes are resolved: its bytes are
UTF-8, and the code units of its escapes that are surrogates come in pairs. Of members with one
name the last counts. Values are nested in a bounded number of arrays and objects.

## Main definitions

* `Json`: A JSON value.
* `Json.get?`: A member of an object.
* `Piece.text?`: The text that the pieces of a string make.
* `Written.value?`: The value that is written.
* `Json.parse?`: The value of a text.
-/

namespace ForwardAuth

/-- A JSON value. The names of the members of an object differ. -/
inductive Json where
  | null
  | bool (value : Bool)
  | number (value : Json.Number)
  | string (value : String)
  | array (items : List Json)
  | object (members : List (String × Json))
  deriving Repr, Inhabited

namespace Json

/-- The members of an object. -/
abbrev Members := List (String × Json)

namespace Members

/-- The member with a name. -/
def get? (ms : Members) (name : String) : Option Json :=
  ms.lookup name

/-- The members with one more, which takes the place of a member with its name. -/
def insert (ms : Members) (name : String) (value : Json) : Members :=
  match ms with
  | [] => [(name, value)]
  | (n, v) :: rest =>
    if n = name then (name, value) :: rest else (n, v) :: insert rest name value

/-- The members of a list in which names may repeat: the last of a name counts. -/
def ofList (ms : List (String × Json)) : Members :=
  ms.foldl (fun acc m => insert acc m.1 m.2) []

end Members

/-- The value as a string. -/
def string? : Json → Option String
  | string s => some s
  | _ => none

/-- The value as an object. -/
def object? : Json → Option Members
  | object ms => some ms
  | _ => none

theorem string?_eq_some_iff {v : Json} {s : String} : v.string? = some s ↔ v = .string s := by
  cases v with
  | string t => rw [string?, Option.some.injEq, string.injEq]
  | _ => exact iff_of_false (by rintro ⟨⟩) (by rintro ⟨⟩)

theorem object?_eq_some_iff {v : Json} {ms : Members} : v.object? = some ms ↔ v = .object ms := by
  cases v with
  | object ms' => rw [object?, Option.some.injEq, object.injEq]
  | _ => exact iff_of_false (by rintro ⟨⟩) (by rintro ⟨⟩)

/-- The code unit is the first of a surrogate pair. -/
def isHighSurrogate (u : Nat) : Bool :=
  0xD800 ≤ u && u < 0xDC00

/-- The code unit is the second of a surrogate pair. -/
def isLowSurrogate (u : Nat) : Bool :=
  0xDC00 ≤ u && u < 0xE000

/-- The character of a surrogate pair. -/
def surrogatePair (high low : Nat) : Char :=
  Char.ofNat (0x10000 + (high - 0xD800) * 0x400 + (low - 0xDC00))

/-- The bytes that the pieces of a string stand for; none if a surrogate stands alone. -/
def Piece.bytes? : List Piece → Option (List UInt8)
  | [] => some []
  | .byte b :: ps => (bytes? ps).map (b :: ·)
  | .unit u :: .unit v :: ps =>
    if isHighSurrogate u then
      if isLowSurrogate v then
        (bytes? ps).map (String.utf8EncodeChar (surrogatePair u v) ++ ·)
      else none
    else if isLowSurrogate u then none
    else (bytes? (.unit v :: ps)).map (String.utf8EncodeChar (Char.ofNat u) ++ ·)
  | .unit u :: ps =>
    if isHighSurrogate u || isLowSurrogate u then none
    else (bytes? ps).map (String.utf8EncodeChar (Char.ofNat u) ++ ·)

/-- The text that the pieces of a string make. -/
def Piece.text? (ps : List Piece) : Option String := do
  String.fromUTF8? ⟨(← bytes? ps).toArray⟩

namespace Written

/-- The value that is written, if it is nested in at most `limit` arrays and objects. -/
def value? (limit : Nat) (w : Written) : Option Json :=
  match limit, w with
  | _, null => some .null
  | _, bool b => some (.bool b)
  | _, number n => n.value?.map .number
  | _, string ps => (Piece.text? ps).map .string
  | 0, array _ => none
  | 0, object _ => none
  | limit + 1, array items => (items.mapM (value? limit)).map .array
  | limit + 1, object members => do
    let ms ← members.mapM fun (k, v) => return (← Piece.text? k, ← value? limit v)
    return .object (Members.ofList ms)

end Written

/-- A value is nested in at most this many arrays and objects. -/
def maxDepth : Nat := 127

/-- The value of a text. -/
def parse? (text : List UInt8) : Option Json := do
  (← Written.read? text).value? maxDepth

end Json

end ForwardAuth
