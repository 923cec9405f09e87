import ForwardAuth.Bytes

/-!
# Distinguished encodings

Keys, and certificates where trust depends on them, are read strictly: of all the ways to write down
the same value only one is good. The length of an element takes as few bytes as possible, and so
does an integer. An element is recognised by its first byte, which is its tag.

A reader takes one element off the front of a list of bytes and returns its content and the rest.

## Main definitions

* `take?`: The element at the front.
* `takeOptional?`: The element at the front, if it has a given tag.
* `contents?`: The contents of elements up to the end.
* `natural?`: A natural number at the front.
* `bits?`: A list of whole bytes, written as a list of bits, at the front.
* `encode`, `encodeNatural`: The encodings of a content and of a natural number.

## Theorems

* `length_of_take?`: A reader goes forward.
-/

namespace ForwardAuth.Der

/-! ### Tags -/

namespace Tag

/-- A truth value. -/
def boolean : UInt8 := 0x01

/-- An integer, in two's complement. -/
def integer : UInt8 := 0x02

/-- A list of bits. -/
def bitString : UInt8 := 0x03

/-- A list of bytes. -/
def octetString : UInt8 := 0x04

/-- Nothing. -/
def null : UInt8 := 0x05

/-- An object identifier. -/
def objectIdentifier : UInt8 := 0x06

/-- Elements in order. -/
def sequence : UInt8 := 0x30

/-- A field with a number below 31 that stands in place of a tag. -/
def field (number : Nat) : UInt8 := UInt8.ofNat (0x80 + number)

/-- A field with a number below 31 around elements. -/
def fieldOf (number : Nat) : UInt8 := UInt8.ofNat (0xA0 + number)

end Tag

/-! ### Reading -/

/-- Reads a length of at most four bytes. -/
def readLength? : List UInt8 → Option (Nat × List UInt8)
  | [] => none
  | b :: rest =>
    if b < 0x80 then some (b.toNat, rest)
    else
      let count := b.toNat - 0x80
      let bytes := rest.take count
      let length := Bytes.ofBigEndian bytes
      if count ≤ 4 ∧ bytes.length = count ∧ 128 ≤ length ∧ bytes.head? ≠ some 0 then
        some (length, rest.drop count)
      else none

/-- Reads the element at the front, which has to have the tag. -/
def take? (tag : UInt8) : List UInt8 → Option (List UInt8 × List UInt8)
  | [] => none
  | first :: rest =>
    if first = tag then
      match readLength? rest with
      | none => none
      | some (length, rest) =>
        if length ≤ rest.length then some (rest.take length, rest.drop length) else none
    else none

/-- Reads the element at the front if it has the tag; if not, there is none. -/
def takeOptional? (tag : UInt8) (bytes : List UInt8) :
    Option (Option (List UInt8) × List UInt8) :=
  if bytes.head? = some tag then (take? tag bytes).map fun (content, rest) => (some content, rest)
  else some (none, bytes)

theorem length_of_readLength? {bytes rest : List UInt8} {length : Nat}
    (h : readLength? bytes = some (length, rest)) : rest.length < bytes.length := by
  cases bytes with
  | nil => simp [readLength?] at h
  | cons b tail =>
    simp only [readLength?] at h
    split at h
    · simp only [Option.some.injEq, Prod.mk.injEq] at h
      simp [← h.2]
    · split at h
      · simp only [Option.some.injEq, Prod.mk.injEq] at h
        simp only [← h.2, List.length_drop, List.length_cons]
        omega
      · simp at h

theorem length_of_take? {tag : UInt8} {bytes content rest : List UInt8}
    (h : take? tag bytes = some (content, rest)) : rest.length < bytes.length := by
  cases bytes with
  | nil => simp [take?] at h
  | cons first tail =>
    simp only [take?] at h
    split at h
    · split at h
      · simp at h
      · next length inner hlength =>
        have := length_of_readLength? hlength
        split at h
        · simp only [Option.some.injEq, Prod.mk.injEq] at h
          simp only [← h.2, List.length_drop, List.length_cons]
          omega
        · simp at h
    · simp at h

/-- The contents of elements with the tag, one after another up to the end. -/
def contents? (tag : UInt8) (bytes : List UInt8) : Option (List (List UInt8)) :=
  if bytes.isEmpty then some []
  else
    match h : take? tag bytes with
    | none => none
    | some (content, rest) =>
      have := length_of_take? h
      (contents? tag rest).map (content :: ·)
termination_by bytes.length

/-- The natural number that the content of an integer stands for. -/
def toNatural? : List UInt8 → Option Nat
  | [] => none
  | [b] => if b < 0x80 then some b.toNat else none
  | a :: b :: rest =>
    if a < 0x80 ∧ ¬(a = 0 ∧ b < 0x80) then some (Bytes.ofBigEndian (a :: b :: rest)) else none

/-- Reads a natural number. -/
def natural? (bytes : List UInt8) : Option (Nat × List UInt8) := do
  let (content, rest) ← take? Tag.integer bytes
  return (← toNatural? content, rest)

/-- Reads a list of bits that are whole bytes. -/
def bits? (bytes : List UInt8) : Option (List UInt8 × List UInt8) := do
  match ← take? Tag.bitString bytes with
  | (0 :: content, rest) => return (content, rest)
  | _ => none

/-! ### Writing -/

/-- A length as it is written. -/
def encodeLength (length : Nat) : List UInt8 :=
  if length < 128 then [UInt8.ofNat length]
  else
    let size := Bytes.sizeOf length
    UInt8.ofNat (0x80 + size) :: Bytes.toBigEndian size length

/-- The encoding of a content under a tag. -/
def encode (tag : UInt8) (content : List UInt8) : List UInt8 :=
  tag :: encodeLength content.length ++ content

/-- The encoding of a natural number. The highest bit is left to the sign. -/
def encodeNatural (n : Nat) : List UInt8 :=
  encode Tag.integer (Bytes.toBigEndian (Bytes.bitLength n / 8 + 1) n)

end ForwardAuth.Der
