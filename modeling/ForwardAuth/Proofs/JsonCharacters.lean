import ForwardAuth.Proofs.JsonStrings

/-!
# What a written string stands for

The pieces of a written string are bytes and codes of 16 bits, and whether they are text is asked of
all of them at once: the bytes are put together, and then they are UTF-8 or not. Here the same is
said character by character. A character is written as its bytes, or as one code, or, if it is
beyond the codes, as two surrogates. Nothing else stands for a character, so neither a surrogate
without its partner nor a byte that is part of none is text.

The two agree because bytes and codes do not mix within a character. The first byte of a character
says that it is a first one and the others say that they are not. So after a first byte the others
must be there as bytes, as a code would begin a character of its own.

## Main definitions

* `Stands`: What pieces stand for, character by character.

## Theorems

* `append_inj_utf8EncodeChar`: The first character of a text is known from its bytes.
* `first_byte`: Only the first byte of a character can begin one.
* `exists_char_of_unit`: A code at the front is a character, or the first half of one.
* `exists_of_not_first`: Bytes that begin no character are there as bytes.
* `text?_eq_some_iff`: The pieces of a string are the text that they stand for.
-/

namespace ForwardAuth.Json

/-- What the pieces of a string stand for, character by character: a character is there as its
    bytes, as its code, or as the two surrogates that make it up. -/
inductive Stands : List Piece → List Char → Prop where
  | nil : Stands [] []
  | bytes (c : Char) {ps : List Piece} {cs : List Char} (hrest : Stands ps cs) :
    Stands ((String.utf8EncodeChar c).map .byte ++ ps) (c :: cs)
  | code {u : Nat} {ps : List Piece} {cs : List Char} (hu : u < 0xD800 ∨ 0xE000 ≤ u)
    (hrest : Stands ps cs) : Stands (.unit u :: ps) (Char.ofNat u :: cs)
  | pair {u v : Nat} {ps : List Piece} {cs : List Char} (hu : 0xD800 ≤ u ∧ u < 0xDC00)
    (hv : 0xDC00 ≤ v ∧ v < 0xE000) (hrest : Stands ps cs) :
    Stands (.unit u :: .unit v :: ps)
      (Char.ofNat (0x10000 + (u - 0xD800) * 0x400 + (v - 0xDC00)) :: cs)

/-- The first character of a text is known from its bytes. -/
theorem append_inj_utf8EncodeChar {c d : Char} {x y : List UInt8}
    (h : String.utf8EncodeChar c ++ x = String.utf8EncodeChar d ++ y) : c = d ∧ x = y := by
  have hread : ∀ (c : Char) (x : List UInt8),
      (String.utf8EncodeChar c ++ x).toByteArray.utf8DecodeChar? 0 = some c := fun c x => by
    rw [List.toByteArray_append]
    exact ByteArray.utf8DecodeChar?_utf8EncodeChar_append
  have hchar : c = d := Option.some.inj ((hread c x).symm.trans (h ▸ hread d y))
  rw [hchar] at h
  exact ⟨hchar, List.append_cancel_left h⟩

/-- Only the first byte of a character can begin one. -/
theorem first_byte {c : Char} {b : UInt8} {conts : List UInt8}
    (h : String.utf8EncodeChar c = b :: conts) :
    b.IsUTF8FirstByte ∧ ∀ x ∈ conts, ¬ x.IsUTF8FirstByte := by
  have hbyte : ∀ (i : Nat) (hi : i < (b :: conts).length),
      (b :: conts)[i].IsUTF8FirstByte ↔ i = 0 := by
    rw [← h]
    exact fun i hi => UInt8.isUTF8FirstByte_getElem_utf8EncodeChar
  refine ⟨(hbyte 0 (Nat.succ_pos _)).mpr rfl, fun x hx => ?_⟩
  rcases List.getElem_of_mem hx with ⟨i, hi, rfl⟩
  exact fun hfirst => absurd ((hbyte (i + 1) (Nat.succ_lt_succ hi)).mp hfirst) (Nat.succ_ne_zero i)

/-! ## Codes -/

theorem bytes?_pair {u v : Nat} (hu : 0xD800 ≤ u ∧ u < 0xDC00) (hv : 0xDC00 ≤ v ∧ v < 0xE000)
    (ps : List Piece) : Piece.bytes? (.unit u :: .unit v :: ps)
      = (Piece.bytes? ps).map (String.utf8EncodeChar (surrogatePair u v) ++ ·) := by
  have hhigh : isHighSurrogate u = true := by
    simp only [isHighSurrogate, Bool.and_eq_true, decide_eq_true_eq]
    exact hu
  have hlow : isLowSurrogate v = true := by
    simp only [isLowSurrogate, Bool.and_eq_true, decide_eq_true_eq]
    exact hv
  simp only [Piece.bytes?, hhigh, hlow, if_true]

-- A surrogate that stands alone makes the string no text.
theorem bytes?_alone {u : Nat} (hu : 0xD800 ≤ u ∧ u < 0xE000) {ps : List Piece}
    (hps : u < 0xDC00 → ∀ v ps', ps = .unit v :: ps' → ¬ (0xDC00 ≤ v ∧ v < 0xE000)) :
    Piece.bytes? (.unit u :: ps) = none := by
  by_cases hhigh : u < 0xDC00
  · have hu' : isHighSurrogate u = true := by
      simp only [isHighSurrogate, Bool.and_eq_true, decide_eq_true_eq]
      omega
    have hnone := hps hhigh
    cases ps with
    | nil => simp only [Piece.bytes?, hu', Bool.true_or, if_true]
    | cons p ps =>
        cases p with
        | byte b => simp only [Piece.bytes?, hu', Bool.true_or, if_true]
        | unit v =>
            have hv : isLowSurrogate v = false := by
              have hout := hnone v ps rfl
              simp only [isLowSurrogate, Bool.and_eq_false_iff, decide_eq_false_iff_not]
              omega
            simp only [Piece.bytes?, hu', hv, if_true, Bool.false_eq_true, if_false]
  · have hu' : isHighSurrogate u = false ∧ isLowSurrogate u = true := by
      simp only [isHighSurrogate, isLowSurrogate, Bool.and_eq_true, Bool.and_eq_false_iff,
        decide_eq_true_eq, decide_eq_false_iff_not]
      omega
    cases ps with
    | nil => simp only [Piece.bytes?, hu'.1, hu'.2, Bool.or_true, if_true]
    | cons p ps =>
        cases p with
        | byte b => simp only [Piece.bytes?, hu'.1, hu'.2, Bool.or_true, if_true]
        | unit v => simp only [Piece.bytes?, hu'.1, hu'.2, Bool.false_eq_true, if_false, if_true]

/-- The character that codes at the front stand for, and what follows them. -/
theorem exists_char_of_unit {u : Nat} {ps : List Piece} {bytes : List UInt8}
    (h : Piece.bytes? (.unit u :: ps) = some bytes) :
    ∃ c ps' rest, bytes = String.utf8EncodeChar c ++ rest ∧ Piece.bytes? ps' = some rest ∧
      ∀ cs, Stands ps' cs → Stands (.unit u :: ps) (c :: cs) := by
  by_cases hcode : u < 0xD800 ∨ 0xE000 ≤ u
  · rw [bytes?_code hcode] at h
    rcases Option.map_eq_some_iff.mp h with ⟨rest, hrest, rfl⟩
    exact ⟨_, ps, rest, rfl, hrest, fun cs hcs => .code hcode hcs⟩
  · by_cases hpair : u < 0xDC00 ∧ ∃ v ps', ps = .unit v :: ps' ∧ 0xDC00 ≤ v ∧ v < 0xE000
    · rcases hpair with ⟨hhigh, v, ps', rfl, hv⟩
      have hu : 0xD800 ≤ u ∧ u < 0xDC00 := ⟨by omega, hhigh⟩
      rw [bytes?_pair hu hv] at h
      rcases Option.map_eq_some_iff.mp h with ⟨rest, hrest, rfl⟩
      exact ⟨_, ps', rest, rfl, hrest, fun cs hcs => .pair hu hv hcs⟩
    · rw [bytes?_alone (by omega) fun hhigh v ps' hps hv => hpair ⟨hhigh, v, ps', hps, hv⟩] at h
      cases h

/-! ## Bytes -/

/-- Bytes that begin no character are there as bytes. -/
theorem exists_of_not_first {conts rest : List UInt8} {ps : List Piece}
    (hconts : ∀ b ∈ conts, ¬ b.IsUTF8FirstByte) (h : Piece.bytes? ps = some (conts ++ rest)) :
    ∃ ps', ps = conts.map .byte ++ ps' ∧ Piece.bytes? ps' = some rest := by
  induction conts generalizing ps with
  | nil => exact ⟨ps, rfl, h⟩
  | cons b conts ih =>
      cases ps with
      | nil => cases h
      | cons p ps =>
          cases p with
          | byte b' =>
              rcases Option.map_eq_some_iff.mp h with ⟨later, hlater, hbytes⟩
              cases hbytes
              rcases ih (fun b hb => hconts b (List.mem_cons_of_mem _ hb)) hlater with
                ⟨ps', rfl, hrest⟩
              exact ⟨ps', rfl, hrest⟩
          | unit u =>
              rcases exists_char_of_unit h with ⟨c, -, later, hbytes, -, -⟩
              rcases List.exists_cons_of_ne_nil (String.utf8EncodeChar_ne_nil (c := c)) with
                ⟨first, others, hc⟩
              rw [hc, List.cons_append, List.cons_append] at hbytes
              rcases List.cons.inj hbytes with ⟨rfl, -⟩
              exact absurd (first_byte hc).1 (hconts b List.mem_cons_self)

/-! ## The text of a string -/

theorem stands_of_bytes? {ps : List Piece} {cs : List Char}
    (h : Piece.bytes? ps = some (utf8 cs)) : Stands ps cs := by
  induction cs generalizing ps with
  | nil =>
      cases ps with
      | nil => exact .nil
      | cons p ps =>
          cases p with
          | byte b =>
              rcases Option.map_eq_some_iff.mp h with ⟨later, -, hbytes⟩
              cases hbytes
          | unit u =>
              rcases exists_char_of_unit h with ⟨c, -, later, hbytes, -, -⟩
              exact absurd (List.append_eq_nil_iff.mp hbytes.symm).1 String.utf8EncodeChar_ne_nil
  | cons c cs ih =>
      rw [utf8_cons] at h
      cases ps with
      | nil =>
          exact absurd (List.append_eq_nil_iff.mp (Option.some.inj h).symm).1
            String.utf8EncodeChar_ne_nil
      | cons p ps =>
          cases p with
          | byte b =>
              -- The other bytes of the character follow its first one.
              rcases List.exists_cons_of_ne_nil (String.utf8EncodeChar_ne_nil (c := c)) with
                ⟨first, others, hc⟩
              rcases Option.map_eq_some_iff.mp h with ⟨later, hlater, hbytes⟩
              rw [hc] at hbytes
              cases hbytes
              rcases exists_of_not_first (first_byte hc).2 hlater with ⟨ps', rfl, hrest⟩
              have hstands := Stands.bytes c (ih hrest)
              rw [hc] at hstands
              exact hstands
          | unit u =>
              rcases exists_char_of_unit h with ⟨c', ps', later, hbytes, hlater, hstands⟩
              rcases append_inj_utf8EncodeChar hbytes with ⟨rfl, rfl⟩
              exact hstands cs (ih hlater)

theorem bytes?_of_stands {ps : List Piece} {cs : List Char} (h : Stands ps cs) :
    Piece.bytes? ps = some (utf8 cs) := by
  induction h with
  | nil => rfl
  | bytes c hrest ih => rw [bytes?_map_byte, ih, utf8_cons]; rfl
  | code hu hrest ih => rw [bytes?_code hu, ih, utf8_cons]; rfl
  | pair hu hv hrest ih => rw [bytes?_pair hu hv, ih, utf8_cons]; rfl

/-- The pieces of a string are the text that they stand for, and no other. -/
theorem text?_eq_some_iff {ps : List Piece} {s : String} :
    Piece.text? ps = some s ↔ Stands ps s.toList := by
  rw [Piece.text?]
  constructor
  · intro h
    rcases Option.bind_eq_some_iff.mp h with ⟨bytes, hbytes, hs⟩
    rw [fromUTF8?_eq_some_iff.mp hs] at hbytes
    exact stands_of_bytes? hbytes
  · intro h
    rw [bytes?_of_stands h]
    exact fromUTF8?_eq_some_iff.mpr rfl

end ForwardAuth.Json
