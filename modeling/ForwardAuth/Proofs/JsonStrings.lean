import ForwardAuth.Json.Printer
import ForwardAuth.Proofs.Encoding
import ForwardAuth.Proofs.JsonGrammar

/-!
# Written strings are read back

A string is written between quotes, with an escape for each character that may not stand there. The
grammar does not know characters: it has bytes, and codes that escapes give. So what is read back is
stated for one character first: `readBack` is the part of a string that it is written as, and
`content_escape` says so. A whole string follows by induction on its characters.

Nothing in a string can end it early or change what comes after it, because the bytes of a
character are never those of a quote, a backslash or a control character, unless it is this
character, and then it is escaped.

## Main definitions

* `utf8`: The bytes of a list of characters.
* `readBack`, `pieces`: What is read for a character, and for a string.

## Theorems

* `encode_eq_utf8`: The bytes of a written value are those of its characters.
* `utf8EncodeChar_cases`: The bytes of a character below 0x80, and of any other.
* `isPlain_of_mem_utf8EncodeChar`: The bytes of a character that stands for itself.
* `content_escape`: A written character is part of a string.
* `spelling_quote`: A written string is one token.
* `fromUTF8?_eq_some_iff`: The text of bytes is the one that they encode.
* `text?_pieces`: The text of what is read back is the string.
-/

namespace ForwardAuth.Json

/-- The bytes of a list of characters. -/
def utf8 (cs : List Char) : List UInt8 :=
  cs.flatMap String.utf8EncodeChar

theorem utf8_append (cs ds : List Char) : utf8 (cs ++ ds) = utf8 cs ++ utf8 ds :=
  List.flatMap_append

theorem utf8_cons (c : Char) (cs : List Char) :
    utf8 (c :: cs) = String.utf8EncodeChar c ++ utf8 cs :=
  List.flatMap_cons

theorem encode_eq_utf8 (v : Json) : encode v = utf8 (render v) := by
  rw [encode, toList_toUTF8, String.toList_ofList, utf8]

/-- What is read for a character in a string: its code, if it is written so, or else its bytes. -/
def readBack (c : Char) : List Piece :=
  if c.toNat < 0x20 ∧ c ∉ ['\n', '\r', '\t', '\x08', '\x0c'] then [.unit c.toNat]
  else (String.utf8EncodeChar c).map .byte

/-- What is read for a string. -/
def pieces (s : String) : List Piece :=
  s.toList.flatMap readBack

/-! ## Characters in a string -/

theorem le_ofNat {n : Nat} (hlow : 0x80 ≤ n) (hhigh : n < 256) : 0x80 ≤ UInt8.ofNat n := by
  rw [UInt8.le_iff_toNat_le, UInt8.toNat_ofNat_of_lt' hhigh]
  exact hlow

/-- A character below 0x80 is one byte, and of any other all bytes are above. -/
theorem utf8EncodeChar_cases (c : Char) :
    (c.toNat < 0x80 ∧ String.utf8EncodeChar c = [UInt8.ofNat c.toNat]) ∨
      ∀ b ∈ String.utf8EncodeChar c, 0x80 ≤ b := by
  have hc : c.val.toNat = c.toNat := rfl
  unfold String.utf8EncodeChar
  simp only [hc]
  split
  · exact .inl ⟨by omega, rfl⟩
  · refine .inr ?_
    split
    · simp only [List.forall_mem_cons]
      exact ⟨le_ofNat (by omega) (by omega), le_ofNat (by omega) (by omega),
        fun b hb => absurd hb List.not_mem_nil⟩
    · split
      · simp only [List.forall_mem_cons]
        exact ⟨le_ofNat (by omega) (by omega), le_ofNat (by omega) (by omega),
          le_ofNat (by omega) (by omega), fun b hb => absurd hb List.not_mem_nil⟩
      · simp only [List.forall_mem_cons]
        exact ⟨le_ofNat (by omega) (by omega), le_ofNat (by omega) (by omega),
          le_ofNat (by omega) (by omega), le_ofNat (by omega) (by omega),
          fun b hb => absurd hb List.not_mem_nil⟩

/-- Of the bytes of a character none is that of another character below 0x80. -/
theorem isPlain_of_mem_utf8EncodeChar {c : Char} (hquote : c ≠ '"') (hbackslash : c ≠ '\\')
    (hcontrol : ¬ c.toNat < 0x20) {b : UInt8} (hb : b ∈ String.utf8EncodeChar c) :
    IsPlain b := by
  have hne : ∀ d : Char, c ≠ d → c.toNat ≠ d.toNat := fun d hd h => hd (Char.toNat_inj.mp h)
  rcases utf8EncodeChar_cases c with ⟨hlt, hbytes⟩ | hbytes
  · rw [hbytes] at hb
    rw [List.mem_singleton.mp hb]
    have hn : (UInt8.ofNat c.toNat).toNat = c.toNat :=
      UInt8.toNat_ofNat_of_lt' (Nat.lt_trans hlt (by decide))
    refine ⟨fun h => hne '"' hquote ?_, fun h => hne '\\' hbackslash ?_, fun h => hcontrol ?_⟩
    · rw [← hn, h]
      rfl
    · rw [← hn, h]
      rfl
    · rw [← hn]
      exact UInt8.lt_iff_toNat_lt.mp h
  · have hlow := hbytes b hb
    refine ⟨?_, ?_, ?_⟩
    · rintro rfl
      exact absurd hlow (by decide)
    · rintro rfl
      exact absurd hlow (by decide)
    · exact fun h => absurd (UInt8.lt_of_lt_of_le h (by decide : (0x20 : UInt8) ≤ 0x80))
        (UInt8.not_lt.mpr hlow)

theorem content_of_isPlain {bytes : List UInt8} (h : ∀ b ∈ bytes, IsPlain b) :
    Content bytes (bytes.map .byte) := by
  induction bytes with
  | nil => exact .nil
  | cons b bytes ih =>
      exact .plain (h b List.mem_cons_self) (ih fun b hb => h b (List.mem_cons_of_mem _ hb))

theorem content_letter {letter : Char} {b : UInt8}
    (hletter : String.utf8EncodeChar letter = [UInt8.ofNat letter.toNat])
    (hb : escapedByte? (UInt8.ofNat letter.toNat) = some b) :
    Content (utf8 ['\\', letter]) [.byte b] := by
  have hbytes : utf8 ['\\', letter] = [0x5C, UInt8.ofNat letter.toNat] := by
    rw [utf8_cons, utf8_cons, hletter]
    rfl
  rw [hbytes]
  exact .letter hb .nil

theorem hexValue?_hexDigit {n : Nat} (h : n < 16) :
    String.utf8EncodeChar (hexDigit n) = [UInt8.ofNat (hexDigit n).toNat] ∧
      hexValue? (UInt8.ofNat (hexDigit n).toNat) = some n := by
  have hall : ∀ n < 16, String.utf8EncodeChar (hexDigit n) = [UInt8.ofNat (hexDigit n).toNat] ∧
      hexValue? (UInt8.ofNat (hexDigit n).toNat) = some n := by decide +kernel
  exact hall n h

theorem content_code {n : Nat} (h : n < 0x20) :
    Content (utf8 ['\\', 'u', '0', '0', hexDigit (n / 16), hexDigit (n % 16)]) [.unit n] := by
  rcases hexValue?_hexDigit (show n / 16 < 16 by omega) with ⟨hhigh, hhighValue⟩
  rcases hexValue?_hexDigit (show n % 16 < 16 by omega) with ⟨hlow, hlowValue⟩
  have hbytes : utf8 ['\\', 'u', '0', '0', hexDigit (n / 16), hexDigit (n % 16)]
      = 0x5C :: 0x75 :: ([0x30, 0x30, UInt8.ofNat (hexDigit (n / 16)).toNat,
        UInt8.ofNat (hexDigit (n % 16)).toNat] ++ []) := by
    simp only [utf8_cons, hhigh, hlow]
    rfl
  -- The two zeros add nothing, and the other digits are those of the code.
  have hnumber : hexNumber? [0x30, 0x30, UInt8.ofNat (hexDigit (n / 16)).toNat,
      UInt8.ofNat (hexDigit (n % 16)).toNat] = some n := by
    have hzero : hexValue? 0x30 = some 0 := rfl
    simp only [hexNumber?, List.foldlM_cons, List.foldlM_nil, hzero, hhighValue, hlowValue,
      Option.map_some, Option.bind_eq_bind, Option.bind_some, Option.pure_def, Option.some.injEq]
    omega
  rw [hbytes]
  exact .code rfl hnumber .nil

/-- A written character is part of a string. -/
theorem content_escape (c : Char) : Content (utf8 (escape c)) (readBack c) := by
  by_cases hquote : c = '"'
  · subst hquote
    exact content_letter rfl rfl
  by_cases hbackslash : c = '\\'
  · subst hbackslash
    exact content_letter rfl rfl
  by_cases hletter : c ∈ ['\n', '\r', '\t', '\x08', '\x0c']
  · simp only [List.mem_cons, List.not_mem_nil, or_false] at hletter
    rcases hletter with rfl | rfl | rfl | rfl | rfl
    · exact content_letter rfl rfl
    · exact content_letter rfl rfl
    · exact content_letter rfl rfl
    · exact content_letter rfl rfl
    · exact content_letter rfl rfl
  have hnone := hletter
  simp only [List.mem_cons, List.not_mem_nil, or_false, not_or] at hnone
  rcases hnone with ⟨hn, hr, ht, hb, hf⟩
  rw [escape, if_neg hquote, if_neg hbackslash, if_neg hn, if_neg hr, if_neg ht, if_neg hb,
    if_neg hf, readBack]
  -- Of the other characters only those of a control code are escaped.
  by_cases hcontrol : c.toNat < 0x20
  · rw [if_pos hcontrol, if_pos ⟨hcontrol, hletter⟩]
    exact content_code hcontrol
  · rw [if_neg hcontrol, if_neg fun h => hcontrol h.1, utf8, List.flatMap_singleton]
    exact content_of_isPlain fun b hb => isPlain_of_mem_utf8EncodeChar hquote hbackslash hcontrol hb

theorem content_escapes (cs : List Char) :
    Content (utf8 (cs.flatMap escape)) (cs.flatMap readBack) := by
  induction cs with
  | nil => exact .nil
  | cons c cs ih =>
      rw [List.flatMap_cons, utf8_append, List.flatMap_cons]
      exact (content_escape c).append ih

/-- A written string is one token. -/
theorem spelling_quote (s : String) : (Token.string (pieces s)).Spelling (utf8 (quote s)) := by
  have hbytes : utf8 (quote s) = 0x22 :: (utf8 (s.toList.flatMap escape) ++ [0x22]) := by
    rw [quote, utf8_append, utf8_cons]
    rfl
  rw [hbytes]
  exact .string (content_escapes s.toList)

/-! ## The text of what is read back -/

theorem bytes?_map_byte (bytes : List UInt8) (ps : List Piece) :
    Piece.bytes? (bytes.map .byte ++ ps) = (Piece.bytes? ps).map (bytes ++ ·) := by
  induction bytes with
  | nil => exact Option.map_id'.symm
  | cons b bytes ih =>
      rw [List.map_cons, List.cons_append, Piece.bytes?, ih, Option.map_map]
      rfl

/-- A code that is no surrogate stands for its character, whatever follows it. -/
theorem bytes?_code {u : Nat} (hu : u < 0xD800 ∨ 0xE000 ≤ u) (ps : List Piece) :
    Piece.bytes? (.unit u :: ps)
      = (Piece.bytes? ps).map (String.utf8EncodeChar (Char.ofNat u) ++ ·) := by
  have hhigh : isHighSurrogate u = false := by
    simp only [isHighSurrogate, Bool.and_eq_false_iff, decide_eq_false_iff_not]
    omega
  have hlow : isLowSurrogate u = false := by
    simp only [isLowSurrogate, Bool.and_eq_false_iff, decide_eq_false_iff_not]
    omega
  cases ps with
  | nil => simp only [Piece.bytes?, hhigh, hlow, Bool.or_self, Bool.false_eq_true, if_false]
  | cons p ps =>
      cases p with
      | byte b => simp only [Piece.bytes?, hhigh, hlow, Bool.or_self, Bool.false_eq_true, if_false]
      | unit v => simp only [Piece.bytes?, hhigh, hlow, Bool.false_eq_true, if_false]

theorem bytes?_readBack (c : Char) (ps : List Piece) :
    Piece.bytes? (readBack c ++ ps)
      = (Piece.bytes? ps).map (String.utf8EncodeChar c ++ ·) := by
  rw [readBack]
  split
  · next h =>
    rw [List.singleton_append, bytes?_code (.inl (by omega)), Char.ofNat_toNat]
  · exact bytes?_map_byte _ ps

/-- The text of bytes is the one that they encode. -/
theorem fromUTF8?_eq_some_iff {bytes : List UInt8} {s : String} :
    String.fromUTF8? ⟨bytes.toArray⟩ = some s ↔ bytes = utf8 s.toList := by
  have hs : utf8 s.toList = s.toByteArray.data.toList := by
    rw [utf8, ← toList_toUTF8, toList_eq_data, String.toUTF8_eq_toByteArray]
  rw [hs, String.fromUTF8?]
  constructor
  · intro h
    split at h
    · rw [← Option.some.inj h]
      rfl
    · cases h
  · rintro rfl
    exact dif_pos s.isValidUTF8

/-- The text of what is read back for a string is the string. -/
theorem text?_pieces (s : String) : Piece.text? (pieces s) = some s := by
  have hbytes : ∀ cs : List Char, Piece.bytes? (cs.flatMap readBack) = some (utf8 cs) := by
    intro cs
    induction cs with
    | nil => rfl
    | cons c cs ih =>
        rw [List.flatMap_cons, bytes?_readBack, ih, utf8_cons]
        rfl
  rw [Piece.text?, pieces, hbytes]
  exact fromUTF8?_eq_some_iff.mpr rfl

end ForwardAuth.Json
