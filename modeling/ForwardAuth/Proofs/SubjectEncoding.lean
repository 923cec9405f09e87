import ForwardAuth.Certificate.Subject
import ForwardAuth.Der
import Mathlib.Data.Option.Basic

/-!
# Certificates as they are written

What a certificate reads back of its subject is what was written there. A name is written as a list
of sets, each with at least one attribute, and an attribute as a type with a value under any tag
that fits into one byte. The reader goes through the sets and forgets their borders: the attributes
come back in one list, in the order of their bytes.

The rest of the certificate is a `Frame`, and it does not matter what it says. All lengths have to
fit into 64 bits, which is so once the length of the whole does.

## Main definitions

* `Fits`: The length of the bytes fits into 64 bits.
* `Entry`: An attribute as it goes into a name.
* `Entry.toAttribute`: The attribute that is read back.
* `encodeName`: A name as it is written.
* `IsName`: The sets make up a name.
* `Frame`: What a certificate says besides its subject.
* `Frame.encode`: A certificate as it is written.
* `Frame.IsSound`: The certificate can be read as far as its subject does not matter.

## Theorems

* `Bytes.ofBigEndian_toBigEndian`: Bytes that are enough for a number give it back.
* `Element.read?_encode`: An element is read back.
* `Element.each_flatMap`: Things that are read back one by one are read back one after another.
* `readName?_encodeName`: A name is read back.
* `Frame.subject?_encode`: The subject of a certificate is read back.
-/

namespace ForwardAuth

namespace Bytes

theorem ofBigEndian_reverse (bytes : List UInt8) :
    ofBigEndian bytes.reverse = ofLittleEndian bytes := by
  rw [ofBigEndian, List.foldl_reverse]
  induction bytes with
  | nil => rfl
  | cons b rest ih =>
      rw [List.foldr_cons, ih, ofLittleEndian, Nat.mul_comm, Nat.add_comm]

theorem ofBigEndian_toBigEndian (size n : Nat) :
    ofBigEndian (toBigEndian size n) = n % Nat.pow 256 size := by
  rw [toBigEndian, ofBigEndian_reverse, ofLittleEndian_toLittleEndian]

theorem lt_two_pow_bitLength (n : Nat) : n < Nat.pow 2 (bitLength n) := by
  by_cases h : n = 0
  · rw [h]
    decide
  · rw [bitLength, if_neg h]
    exact Nat.lt_log2_self

theorem bitLength_le {n k : Nat} (h : n < Nat.pow 2 k) : bitLength n ≤ k := by
  by_cases hzero : n = 0
  · rw [bitLength, if_pos hzero]
    exact Nat.zero_le k
  · rw [bitLength, if_neg hzero]
    exact (Nat.log2_lt hzero).mpr h

theorem lt_pow_sizeOf (n : Nat) : n < Nat.pow 256 (sizeOf n) := by
  have hpow : Nat.pow 256 (sizeOf n) = Nat.pow 2 (8 * sizeOf n) :=
    (Nat.pow_mul 2 8 (sizeOf n)).symm
  have hbits : bitLength n ≤ 8 * sizeOf n := by
    rw [sizeOf]
    omega
  rw [hpow]
  exact Nat.lt_of_lt_of_le (lt_two_pow_bitLength n) (Nat.pow_le_pow_right (by decide) hbits)

end Bytes

namespace Certificate

theorem guard_eq_some {p : Prop} [Decidable p] (h : p) : (guard p : Option Unit) = some () :=
  (Option.guard_eq_some' ()).mpr h

/-- The length of the bytes fits into 64 bits. -/
def Fits (bytes : List UInt8) : Prop :=
  bytes.length < Nat.pow 2 64

instance (bytes : List UInt8) : Decidable (Fits bytes) :=
  inferInstanceAs (Decidable (_ < _))

theorem Fits.of_le {bytes bytes' : List UInt8} (h : Fits bytes)
    (hle : bytes'.length ≤ bytes.length) : Fits bytes' :=
  Nat.lt_of_le_of_lt hle h

theorem Fits.left {a b : List UInt8} (h : Fits (a ++ b)) : Fits a :=
  h.of_le (by rw [List.length_append]; exact Nat.le_add_right _ _)

theorem Fits.right {a b : List UInt8} (h : Fits (a ++ b)) : Fits b :=
  h.of_le (by rw [List.length_append]; exact Nat.le_add_left _ _)

theorem Fits.content {tag : UInt8} {content : List UInt8} (h : Fits (Der.encode tag content)) :
    Fits content :=
  Fits.right (a := tag :: Der.encodeLength content.length) h

theorem Fits.of_mem {α : Type} {write : α → List UInt8} {items : List α}
    (h : Fits (items.flatMap write)) {a : α} (ha : a ∈ items) : Fits (write a) := by
  rcases List.append_of_mem ha with ⟨before, after, rfl⟩
  rw [List.flatMap_append, List.flatMap_cons] at h
  exact h.right.left

/-! ## One element -/

namespace Element

/-- The element that a tag byte with a small tag number begins. -/
def under (first : UInt8) (content : List UInt8) : Element where
  tagClass := TagClass.ofByte first
  constructed := first.toNat / 32 % 2 = 1
  tag := first.toNat % 32
  content := content

theorem readLength?_encodeLength {length : Nat} (h : length < Nat.pow 2 64) (rest : List UInt8) :
    readLength? (Der.encodeLength length ++ rest) = some (length, rest) := by
  rw [Der.encodeLength]
  split
  case isTrue hshort =>
    -- The length is the one byte there is.
    have hnat : (UInt8.ofNat length).toNat = length := by
      rw [UInt8.toNat_ofNat']
      omega
    have hlt : UInt8.ofNat length < 0x80 := by
      rw [UInt8.lt_iff_toNat_lt, hnat]
      exact hshort
    rw [List.cons_append, List.nil_append, readLength?, if_pos hlt, hnat]
  case isFalse hlong =>
    -- The first byte counts the bytes of the length, of which there is one and are at most eight.
    have hsize : Bytes.sizeOf length ≤ 8 := by
      have := Bytes.bitLength_le h
      rw [Bytes.sizeOf]
      omega
    have hpos : Bytes.sizeOf length ≠ 0 := by
      intro hzero
      have := Bytes.lt_pow_sizeOf length
      rw [hzero] at this
      exact hlong (Nat.lt_of_lt_of_le this (by decide))
    have hnat : (UInt8.ofNat (0x80 + Bytes.sizeOf length)).toNat = 0x80 + Bytes.sizeOf length := by
      rw [UInt8.toNat_ofNat']
      omega
    have hge : ¬ UInt8.ofNat (0x80 + Bytes.sizeOf length) < 0x80 := by
      rw [UInt8.lt_iff_toNat_lt, hnat]
      exact Nat.not_lt.mpr (Nat.le_add_right 0x80 _)
    have hcount : 0x80 + Bytes.sizeOf length - 0x80 = Bytes.sizeOf length :=
      Nat.add_sub_cancel_left _ _
    have hlength := Bytes.length_toBigEndian (Bytes.sizeOf length) length
    have hvalue : Bytes.ofBigEndian (Bytes.toBigEndian (Bytes.sizeOf length) length) = length := by
      rw [Bytes.ofBigEndian_toBigEndian]
      exact Nat.mod_eq_of_lt (Bytes.lt_pow_sizeOf length)
    dsimp only
    rw [List.cons_append, readLength?, if_neg hge, hnat, hcount]
    simp only [List.take_left' hlength, List.drop_left' hlength, hlength, hvalue]
    rw [if_neg (by simp only [Nat.not_le.mpr h, or_false]; omega)]

variable (first : UInt8) {content : List UInt8}

theorem readHeader?_encode (hsmall : first.toNat % 32 ≠ 31) (h : Fits content)
    (rest : List UInt8) :
    readHeader? (Der.encode first content ++ rest)
      = some (TagClass.ofByte first, decide (first.toNat / 32 % 2 = 1), first.toNat % 32,
          content.length, content ++ rest) := by
  have htag : ∀ inner, readTag? first inner = some (first.toNat % 32, inner) := by
    intro inner
    rw [readTag?, if_neg hsmall]
  rw [Der.encode, List.cons_append, List.cons_append, List.append_assoc, readHeader?, htag]
  simp only [Option.bind_eq_bind, Option.bind_some, readLength?_encodeLength h]
  rfl

/-- An element is read back, and what follows is left. -/
theorem read?_encode (hsmall : first.toNat % 32 ≠ 31) (h : Fits content) (rest : List UInt8) :
    read? (Der.encode first content ++ rest) = some (under first content, rest) := by
  rw [read?, readHeader?_encode first hsmall h]
  simp [guard_eq_some, under]

theorem tagged?_encode (tag : Nat) (htag : first.toNat % 32 = tag) (hsmall : tag ≠ 31)
    (h : Fits content) (rest : List UInt8) :
    tagged? tag (Der.encode first content ++ rest) = some (under first content, rest) := by
  rw [tagged?, read?_encode first (htag ▸ hsmall) h]
  simp [guard_eq_some, under, htag]

theorem primitive?_encode (hsmall : first.toNat % 32 ≠ 31) (hprimitive : first.toNat / 32 % 2 ≠ 1)
    (h : Fits content) (rest : List UInt8) :
    primitive? (Der.encode first content ++ rest) = some (under first content, rest) := by
  rw [primitive?, read?_encode first hsmall h]
  simp [guard_eq_some, under, hprimitive]

/-- Things that are read back one by one are read back one after another, up to the end. -/
theorem each_flatMap {α β : Type} (one : List UInt8 → Option (β × List UInt8))
    {write : α → List UInt8} (meaning : α → β) (items : List α)
    (hone : ∀ a ∈ items, ∀ rest, one (write a ++ rest) = some (meaning a, rest))
    (hsome : ∀ a ∈ items, write a ≠ []) (hend : one [] = none) :
    each one (items.flatMap write) = (items.map meaning, []) := by
  induction items with
  | nil =>
      rw [List.flatMap_nil, each, hend]
      rfl
  | cons a items ih =>
      -- The writing of one thing is not empty, so the reader gets closer to the end.
      have hshorter : (items.flatMap write).length < (write a ++ items.flatMap write).length := by
        have := List.length_pos_iff.mpr (hsome a List.mem_cons_self)
        rw [List.length_append]
        omega
      rw [List.flatMap_cons, each, hone a List.mem_cons_self]
      simp only [hshorter, if_true]
      rw [ih (fun b hb => hone b (List.mem_cons_of_mem a hb))
        (fun b hb => hsome b (List.mem_cons_of_mem a hb))]
      rfl

end Element

/-! ## A name -/

/-- An attribute as it goes into a name: its type, and the tag and the content of its value. -/
structure Entry where
  type : List UInt8
  tag : UInt8
  content : List UInt8
  deriving DecidableEq, Repr

namespace Entry

/-- The attribute that is read back. -/
def toAttribute (e : Entry) : Attribute :=
  ⟨e.type, .under e.tag e.content⟩

/-- An attribute as it is written. -/
def encode (e : Entry) : List UInt8 :=
  Der.encode Der.Tag.sequence
    (Der.encode Der.Tag.objectIdentifier e.type ++ Der.encode e.tag e.content)

/-- The tag of the value fits into one byte. -/
def IsShort (e : Entry) : Prop :=
  e.tag.toNat % 32 ≠ 31

instance (e : Entry) : Decidable e.IsShort :=
  inferInstanceAs (Decidable (_ ≠ _))

/-- The tag of a set. -/
def setTag : UInt8 := 0x31

/-- A set of attributes as it is written. -/
def encodeSet (entries : List Entry) : List UInt8 :=
  Der.encode setTag (entries.flatMap encode)

theorem read?_encode {e : Entry} (hshort : e.IsShort) (h : Fits e.encode) (rest : List UInt8) :
    Attribute.read? (e.encode ++ rest) = some (e.toAttribute, rest) := by
  have hcontent := Fits.content h
  -- The type ends where the value begins, and behind the value nothing is left.
  have htype := Element.primitive?_encode Der.Tag.objectIdentifier (by decide)
    (by decide) hcontent.left.content (Der.encode e.tag e.content)
  have hvalue := Element.read?_encode e.tag hshort hcontent.right.content []
  rw [List.append_nil] at hvalue
  rw [Attribute.read?, encode, Element.tagged?_encode _ Tag.sequence rfl (by decide) hcontent]
  simp only [Option.bind_eq_bind, Option.bind_some, Element.under, htype, hvalue]
  rfl

theorem readSet?_encodeSet {entries : List Entry} (hsome : entries ≠ [])
    (hshort : ∀ e ∈ entries, e.IsShort) (h : Fits (encodeSet entries)) (rest : List UInt8) :
    Attribute.readSet? (encodeSet entries ++ rest) = some (entries.map toAttribute, rest) := by
  have heach := Element.each_flatMap Attribute.read? toAttribute entries
    (fun e he => read?_encode (hshort e he) (h.content.of_mem he))
    (fun e _ => List.cons_ne_nil _ _) rfl
  rw [Attribute.readSet?, encodeSet,
    Element.tagged?_encode _ Tag.set rfl (by decide) h.content]
  simp [guard_eq_some, Element.under, heach, hsome]

end Entry

/-- A name as it is written. -/
def encodeName (sets : List (List Entry)) : List UInt8 :=
  Der.encode Der.Tag.sequence (sets.flatMap Entry.encodeSet)

/-- No set of a name is empty, and the tag of each value fits into one byte. -/
def IsName (sets : List (List Entry)) : Prop :=
  ∀ entries ∈ sets, entries ≠ [] ∧ ∀ e ∈ entries, e.IsShort

instance (sets : List (List Entry)) : Decidable (IsName sets) :=
  inferInstanceAs (Decidable (∀ entries ∈ sets, _ ∧ _))

/-- A name is read back without the borders of its sets. -/
theorem readName?_encodeName {sets : List (List Entry)} (hsets : IsName sets)
    (h : Fits (encodeName sets)) (rest : List UInt8) :
    readName? (encodeName sets ++ rest) = some (sets.flatten.map Entry.toAttribute, rest) := by
  have heach := Element.each_flatMap Attribute.readSet? (List.map Entry.toAttribute) sets
    (fun entries hmem => Entry.readSet?_encodeSet (hsets entries hmem).1 (hsets entries hmem).2
      (h.content.of_mem hmem))
    (fun entries _ => List.cons_ne_nil _ _) rfl
  rw [readName?, encodeName, Element.tagged?_encode _ Tag.sequence rfl (by decide) h.content]
  simp only [Option.bind_eq_bind, Option.bind_some, Element.under, heach, List.map_flatten]
  rfl

/-! ## A certificate -/

/-- What a certificate says besides its subject. -/
structure Frame where
  serial : List UInt8
  algorithm : List UInt8
  issuer : List (List Entry)
  notBefore : List UInt8
  notAfter : List UInt8
  key : List UInt8
  signature : List UInt8

namespace Frame

/-- An algorithm without parameters as it is written. -/
def encodeAlgorithm (algorithm : List UInt8) : List UInt8 :=
  Der.encode Der.Tag.sequence (Der.encode Der.Tag.objectIdentifier algorithm)

/-- Whole bytes as a bit string. -/
def encodeBits (bytes : List UInt8) : List UInt8 :=
  Der.encode Der.Tag.bitString (0 :: bytes)

/-- The tag of a time with a year of two digits. -/
def timeTag : UInt8 := 0x17

/-- The times between which a certificate is valid as they are written. -/
def encodeValidity (notBefore notAfter : List UInt8) : List UInt8 :=
  Der.encode Der.Tag.sequence (Der.encode timeTag notBefore ++ Der.encode timeTag notAfter)

/-- A public key as it is written. -/
def encodeKey (algorithm key : List UInt8) : List UInt8 :=
  Der.encode Der.Tag.sequence (encodeAlgorithm algorithm ++ encodeBits key)

/-- The part that is signed as it is written. -/
def encodeSigned (f : Frame) (sets : List (List Entry)) : List UInt8 :=
  Der.encode Der.Tag.sequence
    (Der.encode Der.Tag.integer f.serial ++ (encodeAlgorithm f.algorithm ++ (encodeName f.issuer ++
      (encodeValidity f.notBefore f.notAfter ++ (encodeName sets ++
        encodeKey f.algorithm f.key)))))

/-- A certificate as it is written. -/
def encode (f : Frame) (sets : List (List Entry)) : Encoded :=
  Der.encode Der.Tag.sequence
    (f.encodeSigned sets ++ (encodeAlgorithm f.algorithm ++ encodeBits f.signature))

/-- The issuer is a name, and the times exist. -/
structure IsSound (f : Frame) : Prop where
  issuer : IsName f.issuer
  notBefore : Time.isUtcTime f.notBefore = true
  notAfter : Time.isUtcTime f.notAfter = true

theorem readVersion?_encode {serial : List UInt8} (h : Fits serial) (rest : List UInt8) :
    readVersion? (Der.encode Der.Tag.integer serial ++ rest)
      = some (0, Der.encode Der.Tag.integer serial ++ rest) := by
  rw [readVersion?, Element.read?_encode _ (by decide) h]
  rfl

theorem readAlgorithm?_encode {algorithm : List UInt8} (h : Fits (encodeAlgorithm algorithm))
    (rest : List UInt8) : readAlgorithm? (encodeAlgorithm algorithm ++ rest) = some ((), rest) := by
  have hinner := Element.primitive?_encode Der.Tag.objectIdentifier (by decide)
    (by decide) h.content.content []
  rw [List.append_nil] at hinner
  rw [readAlgorithm?, encodeAlgorithm,
    Element.tagged?_encode _ Tag.sequence rfl (by decide) h.content]
  simp [guard_eq_some, Element.under, hinner]

theorem isBitString_zero_cons (bytes : List UInt8) : isBitString (0 :: bytes) = true := by
  cases bytes with
  | nil => rfl
  | cons b bytes => simp [isBitString, List.getLast?_cons, Nat.mod_one]

theorem readBitString?_encode {bytes : List UInt8} (h : Fits (encodeBits bytes))
    (rest : List UInt8) : readBitString? (encodeBits bytes ++ rest) = some ((), rest) := by
  rw [readBitString?, encodeBits,
    Element.tagged?_encode _ Tag.bitString rfl (by decide) h.content]
  simp [guard_eq_some, Element.under, isBitString_zero_cons, Der.Tag.bitString]

theorem readValidity?_encode {notBefore notAfter : List UInt8}
    (hbefore : Time.isUtcTime notBefore = true) (hafter : Time.isUtcTime notAfter = true)
    (h : Fits (encodeValidity notBefore notAfter)) (rest : List UInt8) :
    readValidity? (encodeValidity notBefore notAfter ++ rest) = some ((), rest) := by
  have htime : ∀ {content}, Time.isUtcTime content = true →
      Time.isTime (.under timeTag content) = true := fun hcontent => hcontent
  have hfirst := Element.read?_encode timeTag (by decide) h.content.left.content
    (Der.encode timeTag notAfter)
  have hsecond := Element.read?_encode timeTag (by decide) h.content.right.content []
  rw [List.append_nil] at hsecond
  have hcontent : (Element.under Der.Tag.sequence
      (Der.encode timeTag notBefore ++ Der.encode timeTag notAfter)).content
        = Der.encode timeTag notBefore ++ Der.encode timeTag notAfter := rfl
  rw [readValidity?, encodeValidity,
    Element.tagged?_encode _ Tag.sequence rfl (by decide) h.content]
  simp [guard_eq_some, hcontent, hfirst, hsecond, htime hbefore, htime hafter]

theorem readPublicKey?_encode {algorithm key : List UInt8} (h : Fits (encodeKey algorithm key))
    (rest : List UInt8) : readPublicKey? (encodeKey algorithm key ++ rest) = some ((), rest) := by
  have hbits := readBitString?_encode h.content.right []
  rw [List.append_nil] at hbits
  rw [readPublicKey?, encodeKey,
    Element.tagged?_encode _ Tag.sequence rfl (by decide) h.content]
  simp [Element.under, readAlgorithm?_encode h.content.left, hbits]

theorem readSigned?_encodeSigned {f : Frame} (hf : f.IsSound) {sets : List (List Entry)}
    (hsets : IsName sets) (h : Fits (f.encodeSigned sets)) (rest : List UInt8) :
    readSigned? (f.encodeSigned sets ++ rest)
      = some (sets.flatten.map Entry.toAttribute, rest) := by
  -- The parts are nested to the right, so each of them is read off the front of what is left.
  have hserial := h.content
  have halgorithm := hserial.right
  have hissuer := halgorithm.right
  have hvalidity := hissuer.right
  have hsubject := hvalidity.right
  have hkey := readPublicKey?_encode hsubject.right []
  rw [List.append_nil] at hkey
  rw [readSigned?, encodeSigned,
    Element.tagged?_encode _ Tag.sequence rfl (by decide) h.content]
  simp only [Option.bind_eq_bind, Option.bind_some, Element.under,
    readVersion?_encode hserial.left.content,
    Element.tagged?_encode Der.Tag.integer Tag.integer rfl (by decide)
      hserial.left.content,
    readAlgorithm?_encode halgorithm.left, readName?_encodeName hf.issuer hissuer.left,
    readValidity?_encode hf.notBefore hf.notAfter hvalidity.left,
    readName?_encodeName hsets hsubject.left, hkey]
  rfl

/-- The subject of a certificate is read back, whatever the rest says. -/
theorem subject?_encode {f : Frame} (hf : f.IsSound) (sets : List (List Entry))
    (hsets : IsName sets) (h : Fits (f.encode sets)) :
    subject? (f.encode sets) = some (sets.flatten.map Entry.toAttribute) := by
  have hsigned := h.content
  have hrest := hsigned.right
  have houter := Element.tagged?_encode Der.Tag.sequence Tag.sequence rfl
    (by decide) h.content []
  have hsignature := readBitString?_encode hrest.right []
  rw [List.append_nil] at houter hsignature
  rw [subject?, encode, houter]
  simp only [Option.bind_eq_bind, Option.bind_some, Element.under,
    readSigned?_encodeSigned hf hsets hsigned.left, readAlgorithm?_encode hrest.left, hsignature]
  rfl

end Frame

end Certificate

end ForwardAuth
