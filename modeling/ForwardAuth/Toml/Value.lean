/-!
# TOML values

A TOML document is a table of named values. A table can be built up in several places of the
document, and which of them may still add to it depends on how it came about: the table of a header
takes no second header, a table that only stands in the middle of a header may get one of its own, a
table made by dotted keys takes further dotted keys, and a table written inline is closed. So a
table remembers its origin.

An array of tables grows by a new table with each of its headers, and whatever else leads through it
means its last table.

## Main definitions

* `Value`: A value.
* `Table`: A list of named values.
* `Table.assign`: Adds a value under a dotted key.
* `Table.define`: Adds what a header announces.
* `Table.within`: Changes the table that a header has announced.
-/

namespace ForwardAuth.Toml

/-- How a table came about. -/
inductive Origin where
  /-- It is written inline. -/
  | inline
  /-- It has a header. -/
  | defined
  /-- A header leads through it. -/
  | implied
  /-- A dotted key leads through it. -/
  | dotted
  deriving DecidableEq, Repr

/-- A value of a document. -/
inductive Value where
  | string (value : String)
  | integer (value : Int)
  | float (value : Float)
  | boolean (value : Bool)
  /-- A date, a time, or both. No setting is one, so which it is does not matter. -/
  | moment
  | array (items : List Value)
  | table (origin : Origin) (members : List (String × Value))
  /-- An array of tables: those that are complete, and the last one. -/
  | tables (earlier : List (List (String × Value))) (last : List (String × Value))
  deriving Repr, Inhabited

/-- Named values. The names differ. -/
abbrev Table := List (String × Value)

namespace Table

/-- The table with another value under a name that it has. -/
def put (t : Table) (name : String) (v : Value) : Table :=
  t.map fun m => if m.1 = name then (name, v) else m

/-- The table with a value under a name that it has not. -/
def add (t : Table) (name : String) (v : Value) : Table :=
  t ++ [(name, v)]

/-- Adds a value under a dotted key. The key may lead through tables that only keys or headers made
    on their way, and the value itself goes into one that keys made. -/
def assign (v : Value) : List String → Table → Option Table
  | [], _ => none
  | [name], t => if (t.lookup name).isSome then none else some (t.add name v)
  | name :: next :: names, t =>
    match t.lookup name with
    | none => (assign v (next :: names) []).map fun inner => t.add name (.table .dotted inner)
    | some (.table origin inner) =>
      if origin = .dotted ∨ origin = .implied ∧ names ≠ [] then
        (assign v (next :: names) inner).map fun inner => t.put name (.table origin inner)
      else none
    | some (.tables earlier last) =>
      if names ≠ [] then
        (assign v (next :: names) last).map fun last => t.put name (.tables earlier last)
      else none
    | some _ => none

/-- Adds what a header announces: a table, or the next table of an array. -/
def define (element : Bool) : List String → Table → Option Table
  | [], _ => none
  | [name], t =>
    match element, t.lookup name with
    | false, none => some (t.add name (.table .defined []))
    | false, some (.table .implied inner) => some (t.put name (.table .defined inner))
    | true, none => some (t.add name (.tables [] []))
    | true, some (.tables earlier last) => some (t.put name (.tables (earlier ++ [last]) []))
    | _, _ => none
  | name :: next :: names, t =>
    match t.lookup name with
    | none =>
      (define element (next :: names) []).map fun inner => t.add name (.table .implied inner)
    | some (.table .inline _) => none
    | some (.table origin inner) =>
      (define element (next :: names) inner).map fun inner => t.put name (.table origin inner)
    | some (.tables earlier last) =>
      (define element (next :: names) last).map fun last => t.put name (.tables earlier last)
    | some _ => none

/-- Changes the table that lies under the names of a header. -/
def within (change : Table → Option Table) : List String → Table → Option Table
  | [], t => change t
  | name :: names, t =>
    match t.lookup name with
    | some (.table origin inner) =>
      (within change names inner).map fun inner => t.put name (.table origin inner)
    | some (.tables earlier last) =>
      (within change names last).map fun last => t.put name (.tables earlier last)
    | _ => none

end Table

end ForwardAuth.Toml
