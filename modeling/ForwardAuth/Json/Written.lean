import ForwardAuth.Json.Token

/-!
# Written JSON values

A JSON text read for its structure alone. Which value each number and string has is left open: the
tree holds them as they are written. Reading is one walk over the tokens. Its state says what may
come next, and which arrays and objects are open around that place.

## Main definitions

* `Written`: A value as it is written.
* `Frame`: An array or object that is still open.
* `Reader`, `Reader.step`: The state of the walk, and how the next token changes it.
* `Written.read?`: The value that a text is.
-/

namespace ForwardAuth.Json

/-- A JSON value as it is written. The members of an object are in order and may repeat. -/
inductive Written where
  | null
  | bool (value : Bool)
  | number (value : Numeral)
  | string (pieces : List Piece)
  | array (items : List Written)
  | object (members : List (List Piece × Written))
  deriving Repr

/-- An open array or object around the place of a value, with what came before it, last first. -/
inductive Frame where
  | item (before : List Written)
  | member (before : List (List Piece × Written)) (key : List Piece)
  deriving Repr

/-- What may come next, within the frames that are open there, the innermost first. -/
inductive Reader where
  | value (frames : List Frame)
  /-- An array was opened: its first value, or its end. -/
  | arrayStart (frames : List Frame)
  /-- An object was opened: its first key, or its end. -/
  | objectStart (frames : List Frame)
  | key (frames : List Frame) (before : List (List Piece × Written))
  | colon (frames : List Frame) (before : List (List Piece × Written)) (key : List Piece)
  /-- A value is complete. -/
  | after (frames : List Frame) (value : Written)
  deriving Repr

namespace Reader

/-- The state after a token at the place of a value. -/
def beginValue (frames : List Frame) : Token → Option Reader
  | .null => some (after frames .null)
  | .bool b => some (after frames (.bool b))
  | .number n => some (after frames (.number n))
  | .string ps => some (after frames (.string ps))
  | .openArray => some (arrayStart frames)
  | .openObject => some (objectStart frames)
  | _ => none

/-- The state after a token that follows a complete value. -/
def goOn (value : Written) : List Frame → Token → Option Reader
  | .item before :: frames, .comma => some (.value (.item (value :: before) :: frames))
  | .item before :: frames, .closeArray =>
    some (after frames (.array (value :: before).reverse))
  | .member before k :: frames, .comma => some (key frames ((k, value) :: before))
  | .member before k :: frames, .closeObject =>
    some (after frames (.object ((k, value) :: before).reverse))
  | _, _ => none

/-- The state after the next token. -/
def step (s : Reader) (t : Token) : Option Reader :=
  match s, t with
  | value frames, t => beginValue frames t
  | arrayStart frames, .closeArray => some (after frames (.array []))
  | arrayStart frames, t => beginValue (.item [] :: frames) t
  | objectStart frames, .closeObject => some (after frames (.object []))
  | objectStart frames, .string k => some (colon frames [] k)
  | key frames before, .string k => some (colon frames before k)
  | colon frames before k, .colon => some (value (.member before k :: frames))
  | after frames v, t => goOn v frames t
  | _, _ => none

/-- The value that is complete when the text ends. -/
def finish : Reader → Option Written
  | after [] v => some v
  | _ => none

end Reader

namespace Written

/-- Reads a text that is one value, with nothing but blanks around it. -/
def read? (text : List UInt8) : Option Written := do
  let s ← (← tokens? text).foldlM Reader.step (Reader.value [])
  s.finish

end Written

end ForwardAuth.Json
