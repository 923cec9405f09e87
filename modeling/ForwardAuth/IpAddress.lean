import ForwardAuth.Text.Reader

/-!
# Addresses of hosts

An address has four bytes or eight groups of sixteen bits. Four bytes are written in decimal without
leading zeros. Groups are written in hexadecimal; one run of zero groups may be left out between two
colons, and the last two groups may be written as four bytes.

There is one canonical text: lower case, no leading zeros, and of the longest runs of at least two
zero groups the first left out. Four bytes that are embedded behind `::ffff:` stay visible as such.

## Main definitions

* `IpAddress`: An address.
* `IpAddress.parse?`: Reads an address.
* `IpAddress.text`: The canonical text.
-/

namespace ForwardAuth

/-- The address of a host: four bytes, or eight groups of sixteen bits. -/
inductive IpAddress where
  | v4 (a b c d : UInt8)
  | v6 (groups : List UInt16)
  deriving DecidableEq, Repr

namespace IpAddress

open Text

/-- The parts of a text between colons; always at least one. -/
def splitAt (sign : Char) : List Char → List (List Char)
  | [] => [[]]
  | c :: cs =>
    if c = sign then [] :: splitAt sign cs
    else
      match splitAt sign cs with
      | [] => [[c]]
      | part :: parts => (c :: part) :: parts

/-- Reads a byte in decimal. -/
def byte? (cs : List Char) : Option UInt8 := do
  let ds ← cs.mapM decimal?
  guard (1 ≤ ds.length ∧ ds.length ≤ 3 ∧ (ds.head? ≠ some 0 ∨ ds.length = 1))
  guard (number 10 ds < 256)
  return UInt8.ofNat (number 10 ds)

/-- Reads four bytes with points between them. -/
def fourBytes? (cs : List Char) : Option (UInt8 × UInt8 × UInt8 × UInt8) :=
  match splitAt '.' cs with
  | [a, b, c, d] => return (← byte? a, ← byte? b, ← byte? c, ← byte? d)
  | _ => none

/-- Reads a group in hexadecimal. -/
def group? (cs : List Char) : Option UInt16 := do
  let ds ← cs.mapM hexadecimal?
  guard (1 ≤ ds.length ∧ ds.length ≤ 4)
  return UInt16.ofNat (number 16 ds)

/-- The group that two bytes make. -/
def join (high low : UInt8) : UInt16 :=
  UInt16.ofNat (high.toNat * 256 + low.toNat)

/-- Reads groups from the parts between colons. The last part may hold four bytes. -/
def groups? : List (List Char) → Option (List UInt16)
  | [] => some []
  | [last] =>
    match fourBytes? last with
    | some (a, b, c, d) => some [join a b, join c d]
    | none => (group? last).map ([·])
  | part :: parts => return (← group? part) :: (← groups? parts)

/-- Reads the groups of a text that leaves none out. A text without characters has none. -/
def groupsOf? : List Char → Option (List UInt16)
  | [] => some []
  | cs => groups? (splitAt ':' cs)

/-- The text before the first two colons in a row, and the text after them. -/
def splitAtGap? : List Char → Option (List Char × List Char)
  | ':' :: ':' :: rest => some ([], rest)
  | c :: rest => (splitAtGap? rest).map fun (head, tail) => (c :: head, tail)
  | [] => none

/-- Reads eight groups. No part of the text before a gap holds four bytes. -/
def eightGroups? (cs : List Char) : Option (List UInt16) :=
  match splitAtGap? cs with
  | none => (groupsOf? cs).filter fun gs => gs.length = 8
  | some (head, tail) => do
    guard (!head.contains '.')
    let hs ← groupsOf? head
    let ts ← groupsOf? tail
    guard (hs.length + ts.length ≤ 7)
    return hs ++ List.replicate (8 - hs.length - ts.length) 0 ++ ts

/-- Reads an address. -/
def parse? (s : String) : Option IpAddress :=
  match fourBytes? s.toList with
  | some (a, b, c, d) => some (.v4 a b c d)
  | none => (eightGroups? s.toList).map .v6

/-- Four bytes as they are written. -/
def bytesText (a b c d : UInt8) : String :=
  ".".intercalate ([a, b, c, d].map fun x => toString x.toNat)

/-- Groups as they are written. -/
def groupsText (gs : List UInt16) : String :=
  ":".intercalate (gs.map fun g => String.ofList (Nat.toDigits 16 g.toNat))

/-- The length of the run of zero groups at the front. -/
def zeroRun (gs : List UInt16) : Nat :=
  (gs.takeWhile (· == 0)).length

/-- Where the first of the longest runs of zero groups begins, and how long it is. -/
def longestRun (gs : List UInt16) : Nat × Nat :=
  (List.range gs.length).foldl (fun best i =>
    let length := zeroRun (gs.drop i)
    if best.2 < length then (i, length) else best) (0, 0)

/-- The canonical text of an address. -/
def text : IpAddress → String
  | v4 a b c d => bytesText a b c d
  | v6 [0, 0, 0, 0, 0, 0xFFFF, g, h] =>
    "::ffff:" ++ bytesText (UInt8.ofNat (g.toNat / 256)) (UInt8.ofNat (g.toNat % 256))
      (UInt8.ofNat (h.toNat / 256)) (UInt8.ofNat (h.toNat % 256))
  | v6 gs =>
    let (start, length) := longestRun gs
    if length ≤ 1 then groupsText gs
    else groupsText (gs.take start) ++ "::" ++ groupsText (gs.drop (start + length))

end IpAddress

end ForwardAuth
