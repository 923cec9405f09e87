import ForwardAuth.Proofs.JsonGrammar
import Mathlib.Data.List.Chain

/-!
# Texts are cut into their tokens

A text that spells tokens is cut into these tokens. For most of them nothing has to be asked of what
follows, since a bracket ends by itself, and a string with its quote. But nothing marks the end of a
number or a word: it ends with the first byte that could not be part of it, and two of them that
touch would be taken for one. So what follows has to be apart from them, and in a text this comes
from the tokens alone, when no two of the kind follow each other.

## Main definitions

* `Token.isOpen`: A token that ends only where something else begins.
* `Apart`: What follows belongs to no number or word before it.
* `Parted`: Two tokens that may touch.

## Theorems

* `run_of_step`, `run_of_silent_step`: One byte of a text.
* `Collects.run_token`: A number or word is one token.
* `run_content`: What stands between the quotes of a string.
* `run_spelling`: A spelled token is cut off from what follows.
* `run_of_spells`: A text is cut into the tokens it spells, if they are kept apart.
-/

namespace ForwardAuth.Json

/-- The token ends only where something else begins. -/
def Token.isOpen : Token → Bool
  | .null | .bool _ | .number _ => true
  | _ => false

/-- What follows belongs to no number or word before it. -/
def Apart (rest : List UInt8) : Prop :=
  ∀ b ∈ rest.head?, isNumberByte b = false ∧ isLetterByte b = false

theorem apart_cons {b : UInt8} (hnumber : isNumberByte b = false) (hletter : isLetterByte b = false)
    (rest : List UInt8) : Apart (b :: rest) := by
  intro b' hb'
  cases hb'
  exact ⟨hnumber, hletter⟩

/-! ## Single bytes -/

namespace Lexer

theorem run_of_step {s s' : Lexer} {b : UInt8} {ts : List Token} (h : s.step b = some (ts, s'))
    (bytes : List UInt8) : s.run (b :: bytes) = (s'.run bytes).map (ts ++ ·) := by
  rw [run, h]
  simp only [Option.bind_eq_bind, Option.bind_some]
  cases s'.run bytes with
  | none => rfl
  | some tokens => rfl

-- A byte inside a token completes none.
theorem run_of_silent_step {s s' : Lexer} {b : UInt8} (h : s.step b = some ([], s'))
    (bytes : List UInt8) : s.run (b :: bytes) = s'.run bytes := by
  rw [run_of_step h]
  cases s'.run bytes with
  | none => rfl
  | some tokens => rfl

end Lexer

/-! ## Numbers and words -/

theorem isNumberByte_of_isDigit {b : UInt8} (h : isDigit b = true) : isNumberByte b = true := by
  rw [isNumberByte, h]
  rfl

namespace Numeral

theorem Fraction.isNumberByte {fraction : List UInt8} {digits : List Nat}
    (h : Fraction fraction digits) : ∀ b ∈ fraction, isNumberByte b = true := by
  intro b hb
  cases h with
  | none => cases hb
  | point hds =>
      rcases List.mem_cons.mp hb with rfl | hb
      · rfl
      · exact isNumberByte_of_isDigit (hds.2 b hb)

theorem Power.isNumberByte {power : List UInt8} {exponent : Option Exponent}
    (h : Power power exponent) : ∀ b ∈ power, isNumberByte b = true := by
  intro b hb
  cases h with
  | none => cases hb
  | some hletter hsign hds =>
      rcases List.mem_cons.mp hb with rfl | hb
      · rcases hletter with rfl | rfl
        · rfl
        · rfl
      rcases List.mem_append.mp hb with hb | hb
      · cases hsign with
        | none => cases hb
        | plus => rw [List.mem_singleton.mp hb]; rfl
        | minus => rw [List.mem_singleton.mp hb]; rfl
      · exact isNumberByte_of_isDigit (hds.2 b hb)

/-- A number begins with a digit or a minus, and goes on with bytes of numbers. -/
theorem Spelling.eq_cons {n : Numeral} {bytes : List UInt8} (h : n.Spelling bytes) :
    ∃ b bs, bytes = b :: bs ∧ (isDigit b || b == 0x2D) = true ∧
      ∀ b ∈ bs, isNumberByte b = true := by
  cases h with
  | @mk negative whole fraction power digits exponent hwhole hzero hfraction hpower =>
      have hall : ∀ b ∈ whole ++ (fraction ++ power), Json.isNumberByte b = true := by
        intro b hb
        rcases List.mem_append.mp hb with hb | hb
        · exact isNumberByte_of_isDigit (hwhole.2 b hb)
        rcases List.mem_append.mp hb with hb | hb
        · exact hfraction.isNumberByte b hb
        · exact hpower.isNumberByte b hb
      cases negative with
      | true => exact ⟨0x2D, _, rfl, rfl, hall⟩
      | false =>
          rcases List.exists_cons_of_ne_nil hwhole.1 with ⟨b, bs, rfl⟩
          refine ⟨b, _, rfl, ?_, fun b' hb' => hall b' (List.mem_cons_of_mem _ hb')⟩
          rw [hwhole.2 b List.mem_cons_self, Bool.true_or]

end Numeral

namespace Lexer

theorem Collects.run_of_goes {state : List UInt8 → Lexer} {belongs : UInt8 → Bool}
    {read? : List UInt8 → Option Token} (hcollects : Collects state belongs read?)
    {bytes : List UInt8} (h : ∀ b ∈ bytes, belongs b = true) (read rest : List UInt8) :
    (state read).run (bytes ++ rest) = (state (bytes.reverse ++ read)).run rest := by
  induction bytes generalizing read with
  | nil => rfl
  | cons b bytes ih =>
      rw [List.cons_append, run_of_silent_step (hcollects.goes (h b List.mem_cons_self)),
        ih fun b hb => h b (List.mem_cons_of_mem _ hb), List.reverse_cons, List.append_assoc,
        List.singleton_append]

theorem Collects.run_of_ends {state : List UInt8 → Lexer} {belongs : UInt8 → Bool}
    {read? : List UInt8 → Option Token} (hcollects : Collects state belongs read?)
    {read rest : List UInt8} {t : Token} (hread : read? read.reverse = some t)
    (hrest : ∀ b ∈ rest.head?, belongs b = false) :
    (state read).run rest = (between.run rest).map (t :: ·) := by
  cases rest with
  | nil =>
      rw [run, hcollects.finishes, hread]
      rfl
  | cons b rest =>
      -- Both walks go on from where this byte begins something by itself.
      rw [run, run, hcollects.ends (hrest b rfl), hread, step]
      cases start b with
      | none => rfl
      | some r =>
          simp only [Option.map_some, Option.bind_eq_bind, Option.bind_some]
          cases r.2.run rest with
          | none => rfl
          | some ts => rfl

/-- A token whose bytes are collected is cut off from what does not belong to it. -/
theorem Collects.run_token {state : List UInt8 → Lexer} {belongs : UInt8 → Bool}
    {read? : List UInt8 → Option Token} (hcollects : Collects state belongs read?)
    {b : UInt8} {bs rest : List UInt8} {t : Token} (hstart : between.step b = some ([], state [b]))
    (hbs : ∀ b ∈ bs, belongs b = true) (hread : read? (b :: bs) = some t)
    (hrest : ∀ b ∈ rest.head?, belongs b = false) :
    between.run (b :: bs ++ rest) = (between.run rest).map (t :: ·) := by
  rw [List.cons_append, run_of_silent_step hstart, hcollects.run_of_goes hbs, ← List.reverse_cons]
  exact hcollects.run_of_ends (by rwa [List.reverse_reverse]) hrest

theorem step_of_begins_number {b : UInt8} (h : (isDigit b || b == 0x2D) = true) :
    between.step b = some ([], number [b]) := by
  have hall : ∀ b : UInt8, (isDigit b || b == 0x2D) = true →
      between.step b = some ([], number [b]) := forall_byte (by decide +kernel)
  exact hall b h

/-- A number is one token, however it is written. -/
theorem run_numeral {n : Numeral} {bytes rest : List UInt8} (h : n.Spelling bytes)
    (hrest : Apart rest) :
    between.run (bytes ++ rest) = (between.run rest).map (.number n :: ·) := by
  have hread := congrArg (Option.map Token.number) (Numeral.ofBytes?_eq_some_iff.mpr h)
  rcases h.eq_cons with ⟨b, bs, rfl, hfirst, hbs⟩
  exact collects_number.run_token (step_of_begins_number hfirst) hbs hread fun b hb =>
    (hrest b hb).1

/-- A word is one token. -/
theorem run_word {b : UInt8} {bs rest : List UInt8} {t : Token}
    (hread : wordToken? (b :: bs) = some t) (hstart : between.step b = some ([], word [b]))
    (hbs : bs.all isLetterByte = true) (hrest : Apart rest) :
    between.run (b :: bs ++ rest) = (between.run rest).map (t :: ·) :=
  collects_word.run_token hstart (List.all_eq_true.mp hbs) hread fun b hb => (hrest b hb).2

/-! ## Strings -/

theorem run_hex (read : List Piece) {ds : List UInt8} {value left u : Nat} (hleft : 0 < left)
    (hlength : ds.length = left)
    (h : ds.foldlM (fun value b => (hexValue? b).map (value * 16 + ·)) value = some u)
    (rest : List UInt8) :
    (hex read value left).run (ds ++ rest) = (string (.unit u :: read)).run rest := by
  induction ds generalizing value left with
  | nil => exact absurd hlength (Nat.ne_of_lt hleft)
  | cons b ds ih =>
      rw [List.foldlM_cons] at h
      rcases Option.bind_eq_some_iff.mp h with ⟨value', hvalue, hlater⟩
      rcases Option.map_eq_some_iff.mp hvalue with ⟨d, hd, rfl⟩
      have hstep : (hex read value left).step b = some ([], if left ≤ 1
          then string (.unit (value * 16 + d) :: read)
          else hex read (value * 16 + d) (left - 1)) := by
        rw [step, hd]
        by_cases hlast : left ≤ 1
        · simp only [Option.bind_eq_bind, Option.bind_some, if_pos hlast]
          rfl
        · simp only [Option.bind_eq_bind, Option.bind_some, if_neg hlast]
          rfl
      rw [List.length_cons] at hlength
      rw [List.cons_append, run_of_silent_step hstep]
      by_cases hlast : left ≤ 1
      · rcases List.length_eq_zero_iff.mp (show ds.length = 0 by omega) with rfl
        cases hlater
        rw [if_pos hlast]
        rfl
      · rw [if_neg hlast]
        exact ih (by omega) (by omega) hlater

/-- What stands between the quotes of a string is read as its parts. -/
theorem run_content {bytes : List UInt8} {ps : List Piece} (h : Content bytes ps)
    (read : List Piece) (rest : List UInt8) :
    (string read).run (bytes ++ rest) = (string (ps.reverse ++ read)).run rest := by
  induction h generalizing read with
  | nil => rfl
  | @plain b bytes ps hb hrest ih =>
      have hstep : (string read).step b = some ([], string (.byte b :: read)) := by
        rw [step, if_neg (by simpa using hb.1), if_neg (by simpa using hb.2.1), if_neg hb.2.2]
      rw [List.cons_append, run_of_silent_step hstep, ih, List.reverse_cons, List.append_assoc]
      rfl
  | @letter l b bytes ps hb hrest ih =>
      have hu : ¬ (l == 0x75) = true := fun hu => by
        rw [eq_of_beq hu] at hb
        cases hb
      have hstep : (escape read).step l = some ([], string (.byte b :: read)) := by
        rw [step, if_neg hu, hb]
        rfl
      rw [List.cons_append, List.cons_append,
        run_of_silent_step (show _ = some ([], escape read) from rfl), run_of_silent_step hstep, ih,
        List.reverse_cons, List.append_assoc]
      rfl
  | @code ds bytes u ps hlength hu hrest ih =>
      rw [List.cons_append, List.cons_append, List.append_assoc,
        run_of_silent_step (show _ = some ([], escape read) from rfl),
        run_of_silent_step (show _ = some ([], hex read 0 4) from rfl),
        run_hex read (by decide) hlength hu, ih, List.reverse_cons, List.append_assoc]
      rfl

/-! ## Whole texts -/

/-- A spelled token is cut off from what follows, if need be from something apart. -/
theorem run_spelling {t : Token} {bytes rest : List UInt8} (h : t.Spelling bytes)
    (hrest : t.isOpen = true → Apart rest) :
    between.run (bytes ++ rest) = (between.run rest).map (t :: ·) := by
  have hmark : ∀ {b : UInt8}, between.step b = some ([t], between) →
      between.run ([b] ++ rest) = (between.run rest).map (t :: ·) := fun hstep =>
    run_of_step hstep rest
  cases h with
  | openArray => exact hmark rfl
  | closeArray => exact hmark rfl
  | openObject => exact hmark rfl
  | closeObject => exact hmark rfl
  | comma => exact hmark rfl
  | colon => exact hmark rfl
  | null =>
      rw [show "null".toUTF8.toList = [0x6E, 0x75, 0x6C, 0x6C] by decide +kernel]
      exact run_word (by decide +kernel) rfl rfl (hrest rfl)
  | true =>
      rw [show "true".toUTF8.toList = [0x74, 0x72, 0x75, 0x65] by decide +kernel]
      exact run_word (by decide +kernel) rfl rfl (hrest rfl)
  | false =>
      rw [show "false".toUTF8.toList = [0x66, 0x61, 0x6C, 0x73, 0x65] by decide +kernel]
      exact run_word (by decide +kernel) rfl rfl (hrest rfl)
  | number hn => exact run_numeral hn (hrest rfl)
  | @string bytes ps hcontent =>
      have hend : (string ps.reverse).step 0x22 = some ([.string ps], between) := by
        rw [step, if_pos (beq_self_eq_true _), List.reverse_reverse]
      rw [List.cons_append, List.append_assoc,
        run_of_silent_step (show _ = some ([], string []) from rfl), run_content hcontent,
        List.append_nil, List.singleton_append, run_of_step hend]
      rfl

end Lexer

/-- Of two tokens that end only where something else begins, none follows the other. -/
def Parted (t u : Token) : Prop :=
  t.isOpen = true → u.isOpen = false

-- What neither is nor begins with an open token is apart from one before it.
theorem apart_of_spells {text : List UInt8} {ts : List Token} (h : Spells text ts)
    (hts : ∀ u ∈ ts.head?, u.isOpen = false) : Apart text := by
  cases h with
  | nil => rintro b ⟨⟩
  | @blank b text ts hb hrest =>
      have hall : ∀ b : UInt8, isBlankByte b = true →
          isNumberByte b = false ∧ isLetterByte b = false := forall_byte (by decide +kernel)
      rcases hall b hb with ⟨hnumber, hletter⟩
      exact apart_cons hnumber hletter text
  | @token t bytes text ts ht hrest =>
      have hclosed := hts t rfl
      cases ht with
      | openArray => exact apart_cons rfl rfl _
      | closeArray => exact apart_cons rfl rfl _
      | openObject => exact apart_cons rfl rfl _
      | closeObject => exact apart_cons rfl rfl _
      | comma => exact apart_cons rfl rfl _
      | colon => exact apart_cons rfl rfl _
      | string => exact apart_cons rfl rfl _
      | null => cases hclosed
      | true => cases hclosed
      | false => cases hclosed
      | number => cases hclosed

/-- A text is cut into the tokens it spells, if no two of them run into each other. -/
theorem run_of_spells {text : List UInt8} {ts : List Token} (h : Spells text ts)
    (hparted : ts.IsChain Parted) : Lexer.between.run text = some ts := by
  induction h with
  | nil => rfl
  | @blank b text ts hb hrest ih =>
      have hstep : Lexer.between.step b = some ([], .between) := by
        rw [Lexer.step, Lexer.start, if_pos hb]
      rw [Lexer.run_of_silent_step hstep]
      exact ih hparted
  | token ht hrest ih =>
      rcases List.isChain_cons.mp hparted with ⟨hhead, hlater⟩
      rw [Lexer.run_spelling ht fun hopen => apart_of_spells hrest fun u hu => hhead u hu hopen,
        ih hlater]
      rfl

end ForwardAuth.Json
