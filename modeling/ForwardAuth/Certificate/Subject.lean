import ForwardAuth.Certificate.Time

/-!
# The subject of a certificate

A certificate names its owner by a list of attributes, grouped in sets. Only two of them matter
here: the common name and the organization. The certificate around them has to have the parts that
every certificate has, in order; whether it is trusted was decided before it came here.

Within a name an attribute that cannot be read ends its set, and a set that cannot be read ends the
name. What came before counts. An object identifier is known by its place, so its tag is not looked
at.

## Main definitions

* `Attribute`: A type and a value.
* `Attribute.text?`: The value as text.
* `readName?`: The attributes of a name, in the order of the encoding.
* `subject?`: The attributes of the subject of a certificate.
-/

namespace ForwardAuth.Certificate

/-- An attribute of a name. -/
structure Attribute where
  /-- The object identifier of the type, as it is encoded. -/
  type : List UInt8
  value : Element
  deriving DecidableEq, Repr

namespace Attribute

/-- The type of the common name, 2.5.4.3. -/
def commonName : List UInt8 := [0x55, 0x04, 0x03]

/-- The type of the organization name, 2.5.4.10. -/
def organization : List UInt8 := [0x55, 0x04, 0x0A]

/-- The string types that are read as text. -/
def isTextTag (tag : Nat) : Bool :=
  tag = Tag.utf8String || tag = Tag.printableString || tag = Tag.ia5String ||
    tag = Tag.numericString

/-- The value as text: it has one of a few string types and is UTF-8. -/
def text? (a : Attribute) : Option String :=
  if isTextTag a.value.tag then String.fromUTF8? ⟨a.value.content.toArray⟩ else none

/-- Reads an attribute. -/
def read? (bytes : List UInt8) : Option (Attribute × List UInt8) := do
  let (pair, rest) ← Element.tagged? Tag.sequence bytes
  let (type, inner) ← Element.primitive? pair.content
  let (value, _) ← Element.read? inner
  return (⟨type.content, value⟩, rest)

/-- Reads a set of attributes, of which there is at least one. -/
def readSet? (bytes : List UInt8) : Option (List Attribute × List UInt8) := do
  let (set, rest) ← Element.tagged? Tag.set bytes
  let (attributes, _) := Element.each read? set.content
  guard (!attributes.isEmpty)
  return (attributes, rest)

end Attribute

/-- Reads a name. -/
def readName? (bytes : List UInt8) : Option (List Attribute × List UInt8) := do
  let (name, rest) ← Element.tagged? Tag.sequence bytes
  return ((Element.each Attribute.readSet? name.content).1.flatten, rest)

/-- An integer is encoded in as few bytes as possible. -/
def isMinimalInteger : List UInt8 → Bool
  | [] => false
  | [_] => true
  | a :: b :: _ => !(a == 0x00 && b < 0x80) && !(a == 0xFF && 0x80 ≤ b)

/-- Reads the version, which is left out in the first one. -/
def readVersion? (bytes : List UInt8) : Option (Nat × List UInt8) := do
  let (e, rest) ← Element.read? bytes
  if e.tag ≠ 0 then return (0, bytes)
  guard (e.tagClass = .contextSpecific)
  let (version, _) ← Element.tagged? Tag.integer e.content
  guard (!version.constructed && isMinimalInteger version.content)
  guard (version.content.head?.any (· < 0x80))
  guard (Bytes.ofBigEndian version.content < Nat.pow 2 32)
  return (Bytes.ofBigEndian version.content, rest)

/-- Reads past an algorithm with its parameters. -/
def readAlgorithm? (bytes : List UInt8) : Option (Unit × List UInt8) := do
  let (e, rest) ← Element.tagged? Tag.sequence bytes
  let (_, parameters) ← Element.primitive? e.content
  guard (parameters.isEmpty || (Element.read? parameters).isSome)
  return ((), rest)

/-- The content of a bit string: how many bits of the last byte are unused, and the bytes. The
    unused bits are zero. -/
def isBitString : List UInt8 → Bool
  | [] => false
  | [unused] => unused == 0
  | unused :: bytes =>
    unused ≤ 8 && bytes.getLast?.any fun last => last.toNat % Nat.pow 2 unused.toNat = 0

/-- Reads past a bit string. -/
def readBitString? (bytes : List UInt8) : Option (Unit × List UInt8) := do
  let (e, rest) ← Element.tagged? Tag.bitString bytes
  guard (!e.constructed && isBitString e.content)
  return ((), rest)

/-- Reads the two times between which a certificate is valid. -/
def readValidity? (bytes : List UInt8) : Option (Unit × List UInt8) := do
  let (e, rest) ← Element.tagged? Tag.sequence bytes
  let (notBefore, inner) ← Element.read? e.content
  guard (Time.isTime notBefore)
  let (notAfter, _) ← Element.read? inner
  guard (Time.isTime notAfter)
  return ((), rest)

/-- Reads past a public key. -/
def readPublicKey? (bytes : List UInt8) : Option (Unit × List UInt8) := do
  let (e, rest) ← Element.tagged? Tag.sequence bytes
  let (_, inner) ← readAlgorithm? e.content
  let _ ← readBitString? inner
  return ((), rest)

/-- Skips a unique identifier under a tag number of its own, if there is one. It has bytes, which
    mean nothing here. -/
def skipUniqueId? (tag : Nat) (bytes : List UInt8) : Option (List UInt8) :=
  match Element.readHeader? bytes with
  | none => some bytes
  | some (_, _, found, _, _) =>
    if found ≠ tag then some bytes
    else do
      let (e, rest) ← Element.read? bytes
      guard (e.tagClass = .contextSpecific && !e.content.isEmpty)
      return rest

/-- Skips the mark of a critical extension, if there is one. -/
def skipCritical (bytes : List UInt8) : List UInt8 :=
  match Element.tagged? Tag.boolean bytes with
  | some (e, rest) => if e.content.length = 1 then rest else bytes
  | none => bytes

/-- Reads an extension, whatever it says. -/
def readExtension? (bytes : List UInt8) : Option (Unit × List UInt8) := do
  let (e, rest) ← Element.tagged? Tag.sequence bytes
  let (_, inner) ← Element.primitive? e.content
  let (value, _) ← Element.tagged? Tag.octetString (skipCritical inner)
  guard (!value.constructed)
  return ((), rest)

/-- The bytes are nothing, or extensions up to the end. -/
def areExtensions (bytes : List UInt8) : Bool :=
  bytes.isEmpty ||
    match Element.readHeader? bytes with
    | some (_, _, 3, _, inner) =>
      match Element.tagged? Tag.sequence inner with
      | some (list, []) => (Element.each readExtension? list.content).2.isEmpty
      | _ => false
    | _ => false

/-- Reads the part of a certificate that is signed, and returns the attributes of its subject. -/
def readSigned? (bytes : List UInt8) : Option (List Attribute × List UInt8) := do
  let (e, rest) ← Element.tagged? Tag.sequence bytes
  let (_, inner) ← readVersion? e.content
  let (_, inner) ← Element.tagged? Tag.integer inner
  let (_, inner) ← readAlgorithm? inner
  let (_, inner) ← readName? inner
  let (_, inner) ← readValidity? inner
  let (subject, inner) ← readName? inner
  let (_, inner) ← readPublicKey? inner
  let inner ← skipUniqueId? 1 inner
  let inner ← skipUniqueId? 2 inner
  guard (areExtensions inner)
  return (subject, rest)

/-- The attributes of the subject of a certificate that a client has shown: what is signed, the
    algorithm of the signature, and the signature. What follows it is not looked at. -/
def subject? (encoded : Encoded) : Option (List Attribute) := do
  let (e, _) ← Element.tagged? Tag.sequence encoded
  let (subject, inner) ← readSigned? e.content
  let (_, inner) ← readAlgorithm? inner
  let _ ← readBitString? inner
  return subject

end ForwardAuth.Certificate
