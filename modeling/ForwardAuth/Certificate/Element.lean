import ForwardAuth.Bytes

/-!
# Elements of encoded certificates

The encoding of a certificate is made of elements: a tag, a length, and as many bytes of content.
Lengths below 128 fit into one byte; others follow the count of their own bytes. A certificate that
names a client was accepted when its connection was made, so its lengths are read without asking
whether they could be written in fewer bytes; only a content that runs to an end mark has no place
here. A reader takes one element off the front of a list of bytes and returns the rest.

## Main definitions

* `Encoded`: A certificate as it travels.
* `Element`: A tag and the content under it.
* `Element.read?`: The element at the front of a list of bytes.
* `Element.tagged?`: The element at the front, if it has a given tag number.
* `Element.primitive?`: The element at the front, if it is not made of elements.
* `Element.each`: Readings one after another, up to the first that fails.
-/

namespace ForwardAuth.Certificate

/-- A certificate as it travels: its distinguished encoding. -/
abbrev Encoded := List UInt8

/-- Whose meaning a tag number has. -/
inductive TagClass where
  | universal
  | application
  | contextSpecific
  | ownUse
  deriving DecidableEq, Repr

/-- The class that the two highest bits of a tag byte give. -/
def TagClass.ofByte (b : UInt8) : TagClass :=
  match b.toNat / 64 with
  | 0 => .universal
  | 1 => .application
  | 2 => .contextSpecific
  | _ => .ownUse

/-- An element of a distinguished encoding. -/
structure Element where
  tagClass : TagClass
  constructed : Bool
  tag : Nat
  content : List UInt8
  deriving DecidableEq, Repr

/-! ### Tag numbers of the universal class -/

namespace Tag

/-- A truth value. -/
def boolean : Nat := 1

/-- An integer, in two's complement. -/
def integer : Nat := 2

/-- A list of bits. -/
def bitString : Nat := 3

/-- A list of bytes. -/
def octetString : Nat := 4

/-- An object identifier. -/
def objectIdentifier : Nat := 6

/-- A text in UTF-8. -/
def utf8String : Nat := 12

/-- Elements in order. -/
def sequence : Nat := 16

/-- Elements in any order. -/
def set : Nat := 17

/-- A text of digits and spaces. -/
def numericString : Nat := 18

/-- A text of letters, digits and some signs. -/
def printableString : Nat := 19

/-- A text in ASCII. -/
def ia5String : Nat := 22

/-- A time with a year of two digits. -/
def utcTime : Nat := 23

/-- A time with a year of four digits. -/
def generalizedTime : Nat := 24

end Tag

namespace Element

/-- Reads a tag number that is spread over further bytes, seven bits each, of which there are at
    most `left`. -/
def readLongTag? (tag left : Nat) : List UInt8 → Option (Nat × List UInt8)
  | [] => none
  | b :: rest =>
    match left with
    | 0 => none
    | left + 1 =>
      let tag := (tag * 128 + b.toNat % 128) % Nat.pow 2 32
      if b < 0x80 then some (tag, rest) else readLongTag? tag left rest

/-- Reads the tag number that the low bits of the first byte begin. -/
def readTag? (first : UInt8) (rest : List UInt8) : Option (Nat × List UInt8) :=
  let low := first.toNat % 32
  if low = 31 then readLongTag? 0 5 rest else some (low, rest)

/-- Reads a length of at most 64 bits. -/
def readLength? : List UInt8 → Option (Nat × List UInt8)
  | [] => none
  | b :: rest =>
    if b < 0x80 then some (b.toNat, rest)
    else
      let count := b.toNat - 0x80
      let bytes := rest.take count
      let length := Bytes.ofBigEndian bytes
      if count = 0 ∨ count = 127 ∨ bytes.length < count ∨ Nat.pow 2 64 ≤ length then none
      else some (length, rest.drop count)

/-- Reads the tag and the length at the front, without the content. -/
def readHeader? : List UInt8 → Option (TagClass × Bool × Nat × Nat × List UInt8)
  | [] => none
  | first :: rest => do
    let (tag, rest) ← readTag? first rest
    let (length, rest) ← readLength? rest
    return (TagClass.ofByte first, first.toNat / 32 % 2 = 1, tag, length, rest)

/-- Reads the element at the front. -/
def read? (bytes : List UInt8) : Option (Element × List UInt8) := do
  let (tagClass, constructed, tag, length, rest) ← readHeader? bytes
  let content := rest.take length
  guard (content.length = length)
  return (⟨tagClass, constructed, tag, content⟩, rest.drop length)

/-- Reads the element at the front, which has to have the tag number. -/
def tagged? (tag : Nat) (bytes : List UInt8) : Option (Element × List UInt8) := do
  let (e, rest) ← read? bytes
  guard (e.tag = tag)
  return (e, rest)

/-- Reads the element at the front, which has to be primitive, whatever its tag number. -/
def primitive? (bytes : List UInt8) : Option (Element × List UInt8) := do
  let (e, rest) ← read? bytes
  guard (!e.constructed)
  return (e, rest)

/-- Reads one thing after another off the front, up to the first place where none can be read.
    A reading that takes nothing off the front ends the sequence too. -/
def each {α : Type} (one : List UInt8 → Option (α × List UInt8)) (bytes : List UInt8) :
    List α × List UInt8 :=
  match one bytes with
  | none => ([], bytes)
  | some (a, rest) =>
    if rest.length < bytes.length then
      let (as, rest) := each one rest
      (a :: as, rest)
    else ([], bytes)
termination_by bytes.length

end Element

end ForwardAuth.Certificate
