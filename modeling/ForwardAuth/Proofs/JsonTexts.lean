import ForwardAuth.Proofs.JsonValues

/-!
# Texts with a value

A body is a list of bytes, and it is read as JSON if its bytes spell a tree and the tree has a
value. Whether the bytes are text is never asked, and it need not be: outside of strings every byte
that is part of a token is below 0x80, and in a string a byte above it stands for itself, so it is
part of a character that the string stands for. Hence whatever has a value is a text, and `IsText`
says of texts which they are.

## Main definitions

* `IsUtf8`: Bytes that are those of characters.
* `IsText`: A text with a value.

## Theorems

* `exists_of_high`: Bytes of 0x80 and above are written as they are.
* `isUtf8_of_content`: What is written for characters is text.
* `Spells.isUtf8`: A text is spelled if its strings are texts.
* `Means.stands_of_mem`: Every string in a tree that means something stands for characters.
* `parse?_eq_some_iff`: What is read as a value is a text with this value.
* `IsText.unique`: A text has no more than one value.
-/

namespace ForwardAuth.Json

/-- The bytes are those of characters. -/
def IsUtf8 (bytes : List UInt8) : Prop :=
  ∃ cs, utf8 cs = bytes

/-- The text has this value: it spells the tokens of a tree with blanks around them as it likes, and
    the tree means the value and is nested in no more than 127 arrays and objects. -/
def IsText (text : String) (v : Json) : Prop :=
  ∃ w : Written, Spells text.toUTF8.toList w.tokens ∧ w.depth ≤ 127 ∧ Means w v

theorem IsUtf8.append {bytes bytes' : List UInt8} (h : IsUtf8 bytes) (h' : IsUtf8 bytes') :
    IsUtf8 (bytes ++ bytes') := by
  rcases h with ⟨cs, rfl⟩
  rcases h' with ⟨cs', rfl⟩
  exact ⟨cs ++ cs', utf8_append cs cs'⟩

theorem isUtf8_of_lt {bytes : List UInt8} (h : ∀ b ∈ bytes, b < 0x80) : IsUtf8 bytes := by
  induction bytes with
  | nil => exact ⟨[], rfl⟩
  | cons b bytes ih =>
      rcases ih fun b hb => h b (List.mem_cons_of_mem _ hb) with ⟨cs, rfl⟩
      refine ⟨Char.ofNat b.toNat :: cs, ?_⟩
      rw [utf8_cons, utf8EncodeChar_of_lt (h b List.mem_cons_self), List.singleton_append]

/-! ## Strings -/

theorem escapedByte?_lt {l b : UInt8} (h : escapedByte? l = some b) : l < 0x80 ∧ b < 0x80 := by
  have hall : ∀ l : UInt8, (escapedByte? l).all (fun b => decide (l < 0x80 ∧ b < 0x80)) = true :=
    forall_byte (by decide +kernel)
  have hl := hall l
  rw [h, Option.all_some, decide_eq_true_eq] at hl
  exact hl

theorem hexValue?_lt {b : UInt8} {d : Nat} (h : hexValue? b = some d) : b < 0x80 := by
  have hall : ∀ b : UInt8, (hexValue? b).isSome = true → b < 0x80 :=
    forall_byte (by decide +kernel)
  exact hall b (Option.isSome_of_eq_some h)

theorem hexNumber?_lt {ds : List UInt8} {u : Nat} (h : hexNumber? ds = some u) :
    ∀ b ∈ ds, b < 0x80 := by
  -- Whatever was read before them, each of the digits has a value.
  have hall : ∀ (ds : List UInt8) (value : Nat), ds.foldlM
      (fun value b => (hexValue? b).map (value * 16 + ·)) value = some u → ∀ b ∈ ds, b < 0x80 := by
    intro ds
    induction ds with
    | nil => exact fun value _ b hb => absurd hb List.not_mem_nil
    | cons d ds ih =>
        intro value h
        rw [List.foldlM_cons] at h
        rcases Option.bind_eq_some_iff.mp h with ⟨value', hd, hlater⟩
        rcases Option.map_eq_some_iff.mp hd with ⟨v, hv, -⟩
        exact List.forall_mem_cons.mpr ⟨hexValue?_lt hv, ih value' hlater⟩
  exact hall ds 0 h

theorem isUtf8_code {ds : List UInt8} {u : Nat} (h : hexNumber? ds = some u) {rest : List UInt8}
    (hrest : IsUtf8 rest) : IsUtf8 (0x5C :: 0x75 :: (ds ++ rest)) := by
  have hescape : IsUtf8 (0x5C :: 0x75 :: ds) :=
    isUtf8_of_lt (List.forall_mem_cons.mpr ⟨by decide,
      List.forall_mem_cons.mpr ⟨by decide, hexNumber?_lt h⟩⟩)
  exact hescape.append hrest

/-- Bytes of 0x80 and above are written as they are. -/
theorem exists_of_high {bytes raw : List UInt8} {ps : List Piece} (hbytes : ∀ b ∈ bytes, 0x80 ≤ b)
    (h : Content raw (bytes.map .byte ++ ps)) : ∃ rest, raw = bytes ++ rest ∧ Content rest ps := by
  induction bytes generalizing raw with
  | nil => exact ⟨raw, rfl, h⟩
  | cons b bytes ih =>
      rw [List.map_cons, List.cons_append] at h
      have hlater := fun b hb => hbytes b (List.mem_cons_of_mem _ hb)
      cases h with
      | plain hplain hrest =>
          rcases ih hlater hrest with ⟨rest, rfl, hcontent⟩
          exact ⟨rest, rfl, hcontent⟩
      | letter hletter hrest =>
          exact absurd (hbytes b List.mem_cons_self) (UInt8.not_le.mpr (escapedByte?_lt hletter).2)

/-- What is written for characters is text. -/
theorem isUtf8_of_content {raw : List UInt8} {ps : List Piece} {cs : List Char} (h : Stands ps cs)
    (hcontent : Content raw ps) : IsUtf8 raw := by
  induction h generalizing raw with
  | nil =>
      cases hcontent
      exact ⟨[], rfl⟩
  | @bytes c ps cs hrest ih =>
      have hc : IsUtf8 (String.utf8EncodeChar c) := ⟨[c], List.flatMap_singleton ..⟩
      rcases utf8EncodeChar_cases c with ⟨hlt, hbytes⟩ | hbytes
      · -- A character below 0x80 may be escaped by a letter.
        rw [hbytes] at hc
        rw [hbytes, List.map_singleton, List.singleton_append] at hcontent
        cases hcontent with
        | plain hplain hlater => exact hc.append (ih hlater)
        | @letter l b bytes ps hletter hlater =>
            have hescape : IsUtf8 [0x5C, l] := isUtf8_of_lt (List.forall_mem_cons.mpr
              ⟨by decide, List.forall_mem_singleton.mpr (escapedByte?_lt hletter).1⟩)
            exact hescape.append (ih hlater)
      · rcases exists_of_high hbytes hcontent with ⟨rest, rfl, hlater⟩
        exact hc.append (ih hlater)
  | code hu hrest ih =>
      cases hcontent with
      | code hlength hds hlater => exact isUtf8_code hds (ih hlater)
  | pair hu hv hrest ih =>
      cases hcontent with
      | code hlength hds hlater =>
          cases hlater with
          | code hlength' hds' hlater => exact isUtf8_code hds (isUtf8_code hds' (ih hlater))

/-! ## Tokens -/

theorem lt_of_isNumberByte {b : UInt8} (h : isNumberByte b = true) : b < 0x80 := by
  have hall : ∀ b : UInt8, isNumberByte b = true → b < 0x80 := forall_byte (by decide +kernel)
  exact hall b h

theorem lt_of_isBlankByte {b : UInt8} (h : isBlankByte b = true) : b < 0x80 := by
  have hall : ∀ b : UInt8, isBlankByte b = true → b < 0x80 := forall_byte (by decide +kernel)
  exact hall b h

theorem Token.Spelling.isUtf8 {t : Token} {bytes : List UInt8} (h : t.Spelling bytes)
    (hstands : ∀ ps, t = .string ps → ∃ cs, Stands ps cs) : IsUtf8 bytes := by
  cases h with
  | openArray => exact isUtf8_of_lt (by decide +kernel)
  | closeArray => exact isUtf8_of_lt (by decide +kernel)
  | openObject => exact isUtf8_of_lt (by decide +kernel)
  | closeObject => exact isUtf8_of_lt (by decide +kernel)
  | comma => exact isUtf8_of_lt (by decide +kernel)
  | colon => exact isUtf8_of_lt (by decide +kernel)
  | null => exact isUtf8_of_lt (by decide +kernel)
  | true => exact isUtf8_of_lt (by decide +kernel)
  | false => exact isUtf8_of_lt (by decide +kernel)
  | number hn =>
      rcases hn.eq_cons with ⟨b, bs, rfl, hb, hbs⟩
      refine isUtf8_of_lt (List.forall_mem_cons.mpr
        ⟨?_, fun b hb => lt_of_isNumberByte (hbs b hb)⟩)
      rcases Bool.or_eq_true_iff.mp hb with hdigit | hminus
      · exact lt_of_isNumberByte (isNumberByte_of_isDigit hdigit)
      · rw [eq_of_beq hminus]
        decide
  | string hcontent =>
      rcases hstands _ rfl with ⟨cs, hcs⟩
      have hquote : IsUtf8 [0x22] := isUtf8_of_lt (by decide +kernel)
      exact hquote.append ((isUtf8_of_content hcs hcontent).append hquote)

/-- A text is spelled if its strings are texts. -/
theorem Spells.isUtf8 {bytes : List UInt8} {ts : List Token} (h : Spells bytes ts)
    (hstands : ∀ ps, .string ps ∈ ts → ∃ cs, Stands ps cs) : IsUtf8 bytes := by
  induction h with
  | nil => exact ⟨[], rfl⟩
  | @blank b text ts hblank hrest ih =>
      have hb : IsUtf8 [b] :=
        isUtf8_of_lt (List.forall_mem_singleton.mpr (lt_of_isBlankByte hblank))
      exact hb.append (ih hstands)
  | token ht hrest ih =>
      refine (ht.isUtf8 fun ps hps => ?_).append (ih fun ps hps => ?_)
      · exact hstands ps (hps ▸ List.mem_cons_self)
      · exact hstands ps (List.mem_cons_of_mem _ hps)

/-! ## Trees -/

theorem mem_of_mem_separated {t : Token} (hcomma : t ≠ .comma) {parts : List (List Token)}
    (h : t ∈ separated parts) : ∃ part ∈ parts, t ∈ part := by
  induction parts with
  | nil => exact absurd h List.not_mem_nil
  | cons part parts ih =>
      cases parts with
      | nil => exact ⟨part, List.mem_cons_self, h⟩
      | cons part' parts =>
          rw [separated_cons_cons, List.mem_append, List.mem_cons] at h
          rcases h with h | rfl | h
          · exact ⟨part, List.mem_cons_self, h⟩
          · exact absurd rfl hcomma
          · rcases ih h with ⟨p, hp, ht⟩
            exact ⟨p, List.mem_cons_of_mem _ hp, ht⟩

-- Brackets and commas aside, the tokens of an array or object are those of its parts.
theorem exists_part {ps : List Piece} {t t' : Token} (ht : .string ps ≠ t) (ht' : .string ps ≠ t')
    {parts : List (List Token)} (h : .string ps ∈ t :: separated parts ++ [t']) :
    ∃ part ∈ parts, .string ps ∈ part := by
  rw [List.cons_append, List.mem_cons, List.mem_append, List.mem_singleton] at h
  exact mem_of_mem_separated (by rintro ⟨⟩) ((h.resolve_left ht).resolve_right ht')

/-- Every string in a tree that means something stands for characters. -/
theorem Means.stands_of_mem {w : Written} {v : Json} {ps : List Piece} (h : Means w v)
    (hps : .string ps ∈ w.tokens) : ∃ cs, Stands ps cs := by
  induction w using Written.tokens.induct generalizing v with
  | case1 =>
      rw [Written.tokens] at hps
      cases List.mem_singleton.mp hps
  | case2 b =>
      rw [Written.tokens] at hps
      cases List.mem_singleton.mp hps
  | case3 n =>
      rw [Written.tokens] at hps
      cases List.mem_singleton.mp hps
  | case4 ps =>
      rw [Written.tokens] at hps
      cases List.mem_singleton.mp hps
      cases h with
      | string h => exact ⟨_, h⟩
  | case5 items ih =>
      rw [Written.tokens] at hps
      cases h with
      | array hitems =>
          rcases exists_part (by rintro ⟨⟩) (by rintro ⟨⟩) hps with ⟨part, hpart, ht⟩
          rcases List.mem_map.mp hpart with ⟨w, hw, rfl⟩
          rcases exists_mem_of_forall₂ hitems hw with ⟨v, -, hv⟩
          exact ih w hw hv ht
  | case6 parts ih =>
      rw [Written.tokens] at hps
      cases h with
      | object hnames hvalues hlast =>
          rcases exists_part (by rintro ⟨⟩) (by rintro ⟨⟩) hps with ⟨part, hpart, ht⟩
          rcases List.mem_map.mp hpart with ⟨m, hm, rfl⟩
          rw [List.mem_cons, List.mem_cons] at ht
          rcases ht with ht | ht | ht
          · cases ht
            rcases exists_mem_of_forall₂ hnames hm with ⟨named, -, hname⟩
            exact ⟨_, hname⟩
          · cases ht
          · rcases exists_mem_of_forall₂ hvalues (List.mem_map_of_mem hm) with ⟨v, -, hv⟩
            exact ih m hm hv ht

/-! ## Texts -/

/-- What is read as a value is a text with this value. -/
theorem parse?_eq_some_iff {bytes : List UInt8} {v : Json} :
    parse? bytes = some v ↔ ∃ text : String, text.toUTF8.toList = bytes ∧ IsText text v := by
  rw [parse?, Option.bind_eq_bind, Option.bind_eq_some_iff]
  constructor
  · rintro ⟨w, hw, hv⟩
    have hspells := Written.read?_eq_some_iff.mp hw
    rcases value?_eq_some_iff.mp hv with ⟨hdepth, hmeans⟩
    rcases hspells.isUtf8 fun ps hps => hmeans.stands_of_mem hps with ⟨cs, hcs⟩
    have hbytes : (String.ofList cs).toUTF8.toList = bytes := by
      rw [toList_toUTF8, String.toList_ofList]
      exact hcs
    exact ⟨String.ofList cs, hbytes, w, hbytes ▸ hspells, hdepth, hmeans⟩
  · rintro ⟨text, rfl, w, hspells, hdepth, hmeans⟩
    exact ⟨w, Written.read?_eq_some_iff.mpr hspells, value?_eq_some_iff.mpr ⟨hdepth, hmeans⟩⟩

/-- A text has no more than one value. -/
theorem IsText.unique {text : String} {v v' : Json} (h : IsText text v) (h' : IsText text v') :
    v = v' :=
  Option.some.inj ((parse?_eq_some_iff.mpr ⟨text, rfl, h⟩).symm.trans
    (parse?_eq_some_iff.mpr ⟨text, rfl, h'⟩))

end ForwardAuth.Json
