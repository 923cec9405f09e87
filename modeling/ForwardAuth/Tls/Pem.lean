/-!
# Files of encoded sections

Certificates and keys are kept in text files, in sections between a line that begins a section and a
line that ends it. Both lines name what the section holds, and the lines between them are its bytes
in Base64. Text outside the sections, and sections of other kinds, are passed over.

A file is read from the front, section by section. A mistake in the file is met only when the
reading gets there; the sections before it are good.

## Main definitions

* `SectionKind`: The kinds of sections.
* `Section`: A section.
* `decode?`: The bytes of a text in Base64.
* `Pem.read`: The sections of a file, up to its first mistake.
* `Pem.all?`, `Pem.first?`: All sections of a kind, and the first one of some kinds.
-/

namespace ForwardAuth.Tls

/-- What a section holds. -/
inductive SectionKind where
  | certificate
  | publicKey
  /-- A private key of any algorithm, in the form of its own standard. -/
  | privateKey
  | rsaPrivateKey
  | ecPrivateKey
  | revocationList
  | certificateRequest
  | helloConfiguration
  deriving DecidableEq, Repr

namespace SectionKind

/-- The name of a kind. -/
def label : SectionKind → String
  | certificate => "CERTIFICATE"
  | publicKey => "PUBLIC KEY"
  | privateKey => "PRIVATE KEY"
  | rsaPrivateKey => "RSA PRIVATE KEY"
  | ecPrivateKey => "EC PRIVATE KEY"
  | revocationList => "X509 CRL"
  | certificateRequest => "CERTIFICATE REQUEST"
  | helloConfiguration => "ECHCONFIG"

/-- The known kinds. -/
def known : List SectionKind :=
  [certificate, publicKey, privateKey, rsaPrivateKey, ecPrivateKey, revocationList,
    certificateRequest, helloConfiguration]

/-- The kind with a name. -/
def ofLabel? (name : List UInt8) : Option SectionKind :=
  known.find? fun k => k.label.toUTF8.toList == name

end SectionKind

/-- A section of a file. -/
structure Section where
  kind : SectionKind
  bytes : List UInt8
  deriving DecidableEq, Repr

namespace Pem

/-- The byte is a blank among Base64 characters: a space, a tab, or one of the bytes that end lines
    and pages. -/
def isBlank (b : UInt8) : Bool :=
  b == 0x20 || (0x09 ≤ b && b ≤ 0x0D)

/-- The sign that fills up the last group. -/
def padding : UInt8 := 0x3D

/-- The six bits that a character stands for. -/
def sixBits? (b : UInt8) : Option Nat :=
  if 0x41 ≤ b ∧ b ≤ 0x5A then some (b.toNat - 0x41)
  else if 0x61 ≤ b ∧ b ≤ 0x7A then some (b.toNat - 0x61 + 26)
  else if 0x30 ≤ b ∧ b ≤ 0x39 then some (b.toNat - 0x30 + 52)
  else if b = 0x2B then some 62
  else if b = 0x2F then some 63
  else none

/-- The bytes of groups of four characters. The last group may be short, and may be filled up then;
    bits that are left over do not count. -/
def groups? : List UInt8 → Option (List UInt8)
  | [] => some []
  | a :: b :: rest => do
    let n := (← sixBits? a) * 64 + (← sixBits? b)
    if rest = [] ∨ rest = [padding, padding] then return [UInt8.ofNat (n / 16)]
    match rest with
    | [] => none
    | c :: rest =>
      let n := n * 64 + (← sixBits? c)
      if rest = [] ∨ rest = [padding] then return [UInt8.ofNat (n / 1024), UInt8.ofNat (n / 4)]
      match rest with
      | [] => none
      | d :: rest =>
        let n := n * 64 + (← sixBits? d)
        return UInt8.ofNat (n / 65536) :: UInt8.ofNat (n / 256) :: UInt8.ofNat n :: (← groups? rest)
  | _ => none

/-- The bytes of a text in Base64 with blanks anywhere. -/
def decode? (text : List UInt8) : Option (List UInt8) :=
  groups? (text.filter fun b => !isBlank b)

/-- The byte ends a line. -/
def isBreak (b : UInt8) : Bool :=
  b == 0x0A || b == 0x0D

/-- The lines of a file, each with the byte that ends it. -/
def lines : List UInt8 → List (List UInt8)
  | [] => []
  | b :: bs =>
    if isBreak b then [b] :: lines bs
    else
      match lines bs with
      | [] => [[b]]
      | line :: rest => (b :: line) :: rest

/-- What the first line of a section begins with. -/
def beginMark : List UInt8 := "-----BEGIN ".toUTF8.toList

/-- What the last line of a section begins with. -/
def endMark (name : List UInt8) : List UInt8 :=
  "-----END ".toUTF8.toList ++ name ++ "-----".toUTF8.toList

/-- The name in the first line of a section. The line ends with five dashes; blanks after and among
    them do not count. -/
def beginName? (line : List UInt8) : Option (List UInt8) :=
  let isTail := fun (b : UInt8) => b == 0x2D || b == 0x20 || isBreak b
  let tail := (line.reverse.takeWhile isTail).reverse.dropWhile (· != 0x2D)
  if tail.count 0x2D = 5 then some ((line.take (line.length - tail.length)).drop beginMark.length)
  else none

/-- Where in a file a reader is: outside of sections, or in a section with a name, whose lines so
    far are kept. -/
structure Place where
  name : Option (List UInt8)
  content : List UInt8
  deriving DecidableEq, Repr

/-- Outside of sections. -/
def Place.outside : Place :=
  ⟨none, []⟩

/-- The place after a line, with the section that ends with it. `none` is a mistake. -/
def Place.next (p : Place) (line : List UInt8) : Option (Option Section × Place) :=
  if beginMark.isPrefixOf line then
    (beginName? line).map fun name => (none, { p with name := some name })
  else
    match p.name with
    | none => some (none, p)
    | some name =>
      if (endMark name).isPrefixOf line then
        match SectionKind.ofLabel? name with
        | none => some (none, .outside)
        | some kind => (decode? p.content).map fun bytes => (some ⟨kind, bytes⟩, .outside)
      else some (none, { p with content := p.content ++ line })

/-- The sections of the lines that follow a place, and whether they end in order. -/
def readFrom (p : Place) : List (List UInt8) → List Section × Bool
  | [] => ([], p.name.isNone)
  | line :: rest =>
    match p.next line with
    | none => ([], false)
    | some (found, p) =>
      let (sections, complete) := readFrom p rest
      (found.toList ++ sections, complete)

/-- The sections of a file up to its first mistake, and whether it has none. -/
def read (file : List UInt8) : List Section × Bool :=
  readFrom .outside (lines file)

/-- All sections of a kind, unless there is a mistake anywhere in the file. -/
def all? (kind : SectionKind) (file : List UInt8) : Option (List (List UInt8)) :=
  let (sections, complete) := read file
  if complete then some ((sections.filter fun s => s.kind = kind).map (·.bytes)) else none

/-- The first section of some kinds. A mistake behind it does not matter. -/
def first? (kinds : List SectionKind) (file : List UInt8) : Option Section :=
  (read file).1.find? fun s => kinds.contains s.kind

end Pem

end ForwardAuth.Tls
