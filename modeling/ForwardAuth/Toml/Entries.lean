import ForwardAuth.Decimal
import ForwardAuth.Toml.Value

/-!
# Entries of structured values

A structured value has entries, each with a name and a place. A table gives them by name, in any
order and with others among them. An array gives them by place, and then an entry that may be
missing but has no value of its own for that case may not be left out. A date or a time counts as a
table whose one entry has a name that nobody asks for.

## Main definitions

* `Entries`, `Value.entries?`: The entries of a value.
* `Entries.required`, `Entries.withDefault`, `Entries.optional`: One of them.
* `Value.string?`, `Value.natural?`, `Value.double?`: Entries without parts.
-/

namespace ForwardAuth.Toml

/-- The entries of a structured value. -/
inductive Entries where
  | named (t : Table)
  | placed (items : List Value)
  deriving Repr

namespace Value

/-- The entries of a value, if it is structured. -/
def entries? : Value → Option Entries
  | table _ t => some (.named t)
  | array items => some (.placed items)
  | tables earlier last => some (.placed ((earlier ++ [last]).map (.table .defined)))
  | moment => some (.named [])
  | _ => none

/-- The value as a string. -/
def string? : Value → Option String
  | string s => some s
  | _ => none

/-- The value as a natural number that is at most `limit`. -/
def natural? (limit : Nat) : Value → Option Nat
  | integer n => if 0 ≤ n ∧ n ≤ limit then some n.toNat else none
  | _ => none

/-- The value as a double. -/
def double? : Value → Option Float
  | float x => some x
  | integer n =>
    let x := Decimal.nearest n.natAbs 0
    some (if n < 0 then -x else x)
  | _ => none

end Value

namespace Entries

variable {α : Type}

/-- The entry with a name or at a place. -/
def get? (place : Nat) (name : String) : Entries → Option Value
  | named t => t.lookup name
  | placed items => items[place]?

/-- An entry that has to be there. -/
def required (e : Entries) (place : Nat) (name : String) (read : Value → Option α) : Option α := do
  read (← e.get? place name)

/-- An entry that has a value if it is left out. -/
def withDefault (e : Entries) (place : Nat) (name : String) (read : Value → Option α)
    (default : α) : Option α :=
  match e.get? place name with
  | none => some default
  | some v => read v

/-- An entry that may be left out where entries have names. -/
def optional (e : Entries) (place : Nat) (name : String) (read : Value → Option α) :
    Option (Option α) :=
  match e, e.get? place name with
  | named _, none => some none
  | placed _, none => none
  | _, some v => (read v).map some

end Entries

end ForwardAuth.Toml
