import ForwardAuth.Json.Token
import ForwardAuth.Proofs.NumeralGrammar

/-!
# The grammar of JSON tokens

A text is cut into tokens by a walk over its bytes with a small state, which does not look like the
grammar of JSON. The grammar is stated here apart from it: how a token may be spelled, and a text as
spelled tokens with blanks anywhere between them. Between the quotes of a string stand any bytes
that need no escape. Whether they are text is no matter of the grammar, and is asked only where the
string is used.

The walk is compared with the grammar by what it has taken so far: `Lexer.Holds` says which bytes of
an unfinished token a state may have read. One step adds the byte that it reads, and nothing else is
needed of it.

## Main definitions

* `IsPlain`: A byte that stands for itself in a string.
* `Content`: What stands between the quotes of a string.
* `Token.Spelling`: A token as it may be written.
* `Spells`: A text of given tokens.
* `Lexer.Holds`: The bytes of an unfinished token that a state may have read.

## Theorems

* `start_spells`: A byte that belongs to nothing before it.
* `step_spells`, `run_spells`: A step of the walk, and the whole of it.
-/

namespace ForwardAuth.Json

/-! ## Texts -/

/-- The number that hexadecimal digits stand for. -/
def hexNumber? (ds : List UInt8) : Option Nat :=
  ds.foldlM (fun value b => (hexValue? b).map (value * 16 + ·)) 0

/-- The byte stands for itself in a string. -/
def IsPlain (b : UInt8) : Prop :=
  b ≠ 0x22 ∧ b ≠ 0x5C ∧ ¬ b < 0x20

/-- What stands between the quotes of a string, and what is read for it. -/
inductive Content : List UInt8 → List Piece → Prop where
  | nil : Content [] []
  | plain {b : UInt8} {bytes : List UInt8} {ps : List Piece} (h : IsPlain b)
    (hrest : Content bytes ps) : Content (b :: bytes) (.byte b :: ps)
  | letter {l b : UInt8} {bytes : List UInt8} {ps : List Piece} (h : escapedByte? l = some b)
    (hrest : Content bytes ps) : Content (0x5C :: l :: bytes) (.byte b :: ps)
  | code {ds bytes : List UInt8} {u : Nat} {ps : List Piece} (hlength : ds.length = 4)
    (h : hexNumber? ds = some u) (hrest : Content bytes ps) :
    Content (0x5C :: 0x75 :: (ds ++ bytes)) (.unit u :: ps)

/-- A token as it may be written. -/
inductive Token.Spelling : Token → List UInt8 → Prop where
  | openArray : Spelling .openArray [0x5B]
  | closeArray : Spelling .closeArray [0x5D]
  | openObject : Spelling .openObject [0x7B]
  | closeObject : Spelling .closeObject [0x7D]
  | comma : Spelling .comma [0x2C]
  | colon : Spelling .colon [0x3A]
  | null : Spelling .null "null".toUTF8.toList
  | true : Spelling (.bool true) "true".toUTF8.toList
  | false : Spelling (.bool false) "false".toUTF8.toList
  | number {n : Numeral} {bytes : List UInt8} (h : n.Spelling bytes) : Spelling (.number n) bytes
  | string {bytes : List UInt8} {ps : List Piece} (h : Content bytes ps) :
    Spelling (.string ps) (0x22 :: (bytes ++ [0x22]))

/-- The text is these tokens one after another, with blanks wherever it likes. -/
inductive Spells : List UInt8 → List Token → Prop where
  | nil : Spells [] []
  | blank {b : UInt8} {text : List UInt8} {ts : List Token} (h : isBlankByte b = true)
    (hrest : Spells text ts) : Spells (b :: text) ts
  | token {t : Token} {bytes text : List UInt8} {ts : List Token} (h : t.Spelling bytes)
    (hrest : Spells text ts) : Spells (bytes ++ text) (t :: ts)

theorem Content.append {bytes bytes' : List UInt8} {ps ps' : List Piece} (h : Content bytes ps)
    (h' : Content bytes' ps') : Content (bytes ++ bytes') (ps ++ ps') := by
  induction h with
  | nil => exact h'
  | plain h hrest ih => exact .plain h ih
  | letter h hrest ih => exact .letter h ih
  | code hlength h hrest ih =>
      rw [List.cons_append, List.cons_append, List.append_assoc]
      exact .code hlength h ih

theorem Spells.append {text text' : List UInt8} {ts ts' : List Token} (h : Spells text ts)
    (h' : Spells text' ts') : Spells (text ++ text') (ts ++ ts') := by
  induction h with
  | nil => exact h'
  | blank h hrest ih => exact .blank h ih
  | token h hrest ih =>
      rw [List.append_assoc]
      exact .token h ih

theorem Token.Spelling.spells {t : Token} {bytes : List UInt8} (h : t.Spelling bytes) :
    Spells bytes [t] := by
  have htoken := Spells.token h .nil
  rwa [List.append_nil] at htoken

/-! ## What the first walk accepts -/

namespace Lexer

/-- The state may have read these bytes of a token that is not complete yet. -/
def Holds : Lexer → List UInt8 → Prop
  | between, bytes => bytes = []
  | number read, bytes => bytes = read.reverse
  | word read, bytes => bytes = read.reverse
  | string read, bytes => ∃ content, Content content read.reverse ∧ bytes = 0x22 :: content
  | escape read, bytes =>
    ∃ content, Content content read.reverse ∧ bytes = 0x22 :: (content ++ [0x5C])
  | hex read value left, bytes =>
    ∃ content ds, Content content read.reverse ∧ hexNumber? ds = some value ∧ 0 < left ∧
      ds.length + left = 4 ∧ bytes = 0x22 :: (content ++ 0x5C :: 0x75 :: ds)

theorem wordToken?_spelling {word : List UInt8} {t : Token} (h : wordToken? word = some t) :
    t.Spelling word := by
  rw [wordToken?] at h
  split_ifs at h with hnull htrue hfalse
  · cases h
    rw [hnull]
    exact .null
  · cases h
    rw [htrue]
    exact .true
  · cases h
    rw [hfalse]
    exact .false

/-- The state collects the bytes of a token that ends only where something else begins. -/
structure Collects (state : List UInt8 → Lexer) (belongs : UInt8 → Bool)
    (read? : List UInt8 → Option Token) : Prop where
  /-- A byte that belongs to the token is kept. -/
  goes {read : List UInt8} {b : UInt8} (h : belongs b = true) :
    (state read).step b = some ([], state (b :: read))
  /-- Any other byte ends the token, and begins something by itself. -/
  ends {read : List UInt8} {b : UInt8} (h : belongs b = false) : (state read).step b
    = (read? read.reverse).bind fun t => (start b).map fun r => (t :: r.1, r.2)
  /-- The end of the text ends the token, too. -/
  finishes {read : List UInt8} : (state read).finish = (read? read.reverse).map fun t => [t]
  /-- What is read for the bytes is a token that they spell. -/
  spelled {bytes : List UInt8} {t : Token} (h : read? bytes = some t) : t.Spelling bytes

theorem collects_number :
    Collects number isNumberByte fun bytes => (Numeral.ofBytes? bytes).map .number where
  goes h := by rw [step, if_pos h]
  ends {read b} h := by
    rw [step, if_neg (by rw [h]; exact Bool.false_ne_true)]
    cases Numeral.ofBytes? read.reverse with
    | none => rfl
    | some n =>
        cases start b with
        | none => rfl
        | some r => rfl
  finishes {read} :=
    (Option.map_map (fun t => [t]) Token.number (Numeral.ofBytes? read.reverse)).symm
  spelled h := by
    rcases Option.map_eq_some_iff.mp h with ⟨n, hn, rfl⟩
    exact .number (Numeral.ofBytes?_eq_some_iff.mp hn)

theorem collects_word : Collects word isLetterByte wordToken? where
  goes h := by rw [step, if_pos h]
  ends {read b} h := by
    rw [step, if_neg (by rw [h]; exact Bool.false_ne_true)]
    cases wordToken? read.reverse with
    | none => rfl
    | some t =>
        cases start b with
        | none => rfl
        | some r => rfl
  finishes := rfl
  spelled := wordToken?_spelling

theorem start_spells {s : Lexer} {b : UInt8} {ts : List Token} (h : start b = some (ts, s)) :
    ∃ cut held, [b] = cut ++ held ∧ Spells cut ts ∧ s.Holds held := by
  -- A bracket, comma or colon is complete at once, and anything else is given on to what follows.
  have hmark : ∀ {c : UInt8} {t : Token} {rest : Option (List Token × Lexer)}, t.Spelling [c] →
      (if (b == c) = true then some ([t], between) else rest) = some (ts, s) →
      (rest = some (ts, s) → ∃ cut held, [b] = cut ++ held ∧ Spells cut ts ∧ s.Holds held) →
      ∃ cut held, [b] = cut ++ held ∧ Spells cut ts ∧ s.Holds held := by
    intro c t rest ht hstart hrest
    by_cases hc : (b == c) = true
    · rw [if_pos hc] at hstart
      cases hstart
      rw [eq_of_beq hc]
      exact ⟨[c], [], rfl, ht.spells, rfl⟩
    · rw [if_neg hc] at hstart
      exact hrest hstart
  rw [start] at h
  by_cases hblank : isBlankByte b = true
  · rw [if_pos hblank] at h
    cases h
    exact ⟨[b], [], rfl, .blank hblank .nil, rfl⟩
  rw [if_neg hblank] at h
  refine hmark .openArray h fun h => hmark .closeArray h fun h => hmark .openObject h fun h =>
    hmark .closeObject h fun h => hmark .comma h fun h => hmark .colon h fun h => ?_
  by_cases hquote : (b == 0x22) = true
  · rw [if_pos hquote] at h
    cases h
    rw [eq_of_beq hquote]
    exact ⟨[], [0x22], rfl, .nil, [], .nil, rfl⟩
  rw [if_neg hquote] at h
  by_cases hnumber : (isDigit b || b == 0x2D) = true
  · rw [if_pos hnumber] at h
    cases h
    exact ⟨[], [b], rfl, .nil, rfl⟩
  rw [if_neg hnumber] at h
  by_cases hletter : isLetterByte b = true
  · rw [if_pos hletter] at h
    cases h
    exact ⟨[], [b], rfl, .nil, rfl⟩
  rw [if_neg hletter] at h
  cases h

theorem hexNumber?_append {ds : List UInt8} {value d : Nat} {b : UInt8}
    (h : hexNumber? ds = some value) (hd : hexValue? b = some d) :
    hexNumber? (ds ++ [b]) = some (value * 16 + d) := by
  rw [hexNumber?] at h ⊢
  rw [List.foldlM_append, h]
  simp only [Option.bind_eq_bind, Option.bind_some, List.foldlM_cons, hd, Option.map_some,
    List.foldlM_nil]
  rfl

-- A byte goes on with a number or word, or it ends it and begins something else.
theorem Collects.step_spells {state : List UInt8 → Lexer} {belongs : UInt8 → Bool}
    {read? : List UInt8 → Option Token} (hcollects : Collects state belongs read?)
    (hholds : ∀ read, (state read).Holds read.reverse) {read : List UInt8} {s : Lexer} {b : UInt8}
    {ts : List Token} (h : (state read).step b = some (ts, s)) :
    ∃ cut held, read.reverse ++ [b] = cut ++ held ∧ Spells cut ts ∧ s.Holds held := by
  by_cases hb : belongs b = true
  · rw [hcollects.goes hb] at h
    cases h
    exact ⟨[], _, List.reverse_cons.symm, .nil, hholds (b :: read)⟩
  · rw [hcollects.ends (Bool.eq_false_iff.mpr hb)] at h
    rcases Option.bind_eq_some_iff.mp h with ⟨t, ht, hstarted⟩
    rcases Option.map_eq_some_iff.mp hstarted with ⟨⟨ts', s'⟩, hstart, hpair⟩
    cases hpair
    rcases start_spells hstart with ⟨cut, held, hbytes, hcut, hheld⟩
    refine ⟨read.reverse ++ cut, held, ?_, .token (hcollects.spelled ht) hcut, hheld⟩
    rw [hbytes, List.append_assoc]

theorem Collects.finish_spells {state : List UInt8 → Lexer} {belongs : UInt8 → Bool}
    {read? : List UInt8 → Option Token} (hcollects : Collects state belongs read?)
    {read : List UInt8} {ts : List Token} (h : (state read).finish = some ts) :
    Spells read.reverse ts := by
  rw [hcollects.finishes] at h
  rcases Option.map_eq_some_iff.mp h with ⟨t, ht, rfl⟩
  exact (hcollects.spelled ht).spells

-- What a letter or a digit in an escape adds to the string is read when the escape is complete.
theorem holds_of_hex {read : List Piece} {value left : Nat} {b : UInt8} {d : Nat}
    {held : List UInt8} (h : (hex read value left).Holds held) (hd : hexValue? b = some d) :
    (if left ≤ 1 then string (.unit (value * 16 + d) :: read)
      else hex read (value * 16 + d) (left - 1)).Holds (held ++ [b]) := by
  rcases h with ⟨content, ds, hcontent, hds, hleft, hlength, rfl⟩
  have hmore := hexNumber?_append hds hd
  have hheld : (0x22 :: (content ++ 0x5C :: 0x75 :: ds)) ++ [b]
      = 0x22 :: (content ++ 0x5C :: 0x75 :: (ds ++ [b])) := by
    rw [List.cons_append, List.append_assoc]
    rfl
  have hcount : (ds ++ [b]).length = ds.length + 1 := List.length_append
  rw [hheld]
  by_cases hlast : left ≤ 1
  · rw [if_pos hlast]
    have hcode := Content.code (hcount.trans (by omega)) hmore .nil
    rw [List.append_nil] at hcode
    refine ⟨_, ?_, rfl⟩
    rw [List.reverse_cons]
    exact hcontent.append hcode
  · rw [if_neg hlast]
    exact ⟨content, ds ++ [b], hcontent, hmore, by omega, by omega, rfl⟩

/-- One byte adds itself to what is held, of which some may be complete tokens now. -/
theorem step_spells {s s' : Lexer} {b : UInt8} {ts : List Token} {held : List UInt8}
    (h : s.Holds held) (hstep : s.step b = some (ts, s')) :
    ∃ cut held', held ++ [b] = cut ++ held' ∧ Spells cut ts ∧ s'.Holds held' := by
  cases s with
  | between =>
      rw [show held = [] from h]
      exact start_spells hstep
  | number read =>
      rw [show held = read.reverse from h]
      exact collects_number.step_spells (fun _ => rfl) hstep
  | word read =>
      rw [show held = read.reverse from h]
      exact collects_word.step_spells (fun _ => rfl) hstep
  | string read =>
      rcases h with ⟨content, hcontent, rfl⟩
      rw [step] at hstep
      split_ifs at hstep with hquote hbackslash hcontrol
      · cases hstep
        rw [eq_of_beq hquote]
        exact ⟨_, [], (List.append_nil _).symm, (Token.Spelling.string hcontent).spells, rfl⟩
      · cases hstep
        rw [eq_of_beq hbackslash]
        exact ⟨[], _, rfl, .nil, content, hcontent, rfl⟩
      · cases hstep
        refine ⟨[], _, rfl, .nil, content ++ [b], ?_, rfl⟩
        rw [List.reverse_cons]
        refine hcontent.append (.plain ⟨?_, ?_, hcontrol⟩ .nil)
        · simpa using hquote
        · simpa using hbackslash
  | escape read =>
      rcases h with ⟨content, hcontent, rfl⟩
      have hheld : (0x22 :: (content ++ [0x5C])) ++ [b] = 0x22 :: (content ++ [0x5C, b]) :=
        congrArg (0x22 :: ·) (List.append_assoc content [0x5C] [b])
      rw [step] at hstep
      split_ifs at hstep with hu
      · cases hstep
        rw [eq_of_beq hu] at hheld ⊢
        exact ⟨[], _, hheld, .nil, content, [], hcontent, rfl, by decide, rfl, rfl⟩
      · rcases Option.map_eq_some_iff.mp hstep with ⟨c, hc, hpair⟩
        cases hpair
        refine ⟨[], _, hheld, .nil, content ++ [0x5C, b], ?_, rfl⟩
        rw [List.reverse_cons]
        exact hcontent.append (.letter hc .nil)
  | hex read value left =>
      rw [step] at hstep
      rcases Option.bind_eq_some_iff.mp hstep with ⟨d, hd, hnext⟩
      have hheld := holds_of_hex h hd
      split_ifs at hnext hheld with hlast
      · cases hnext
        exact ⟨[], _, rfl, .nil, hheld⟩
      · cases hnext
        exact ⟨[], _, rfl, .nil, hheld⟩

/-- What is cut from a text is what it spells, together with what the state holds. -/
theorem run_spells {s : Lexer} {text held : List UInt8} {ts : List Token} (h : s.Holds held)
    (hrun : s.run text = some ts) : Spells (held ++ text) ts := by
  induction text generalizing s held ts with
  | nil =>
      rw [List.append_nil]
      cases s with
      | between =>
          cases hrun
          rw [show held = [] from h]
          exact .nil
      | number read =>
          rw [show held = read.reverse from h]
          exact collects_number.finish_spells hrun
      | word read =>
          rw [show held = read.reverse from h]
          exact collects_word.finish_spells hrun
      | string read => cases hrun
      | escape read => cases hrun
      | hex read value left => cases hrun
  | cons b text ih =>
      rw [run] at hrun
      rcases Option.bind_eq_some_iff.mp hrun with ⟨⟨first, s'⟩, hstep, hnext⟩
      rcases Option.bind_eq_some_iff.mp hnext with ⟨later, hlater, hts⟩
      cases hts
      rcases step_spells h hstep with ⟨cut, held', hbytes, hcut, hheld⟩
      have htext : held ++ b :: text = cut ++ (held' ++ text) := by
        rw [← List.append_assoc, ← hbytes, List.append_assoc, List.singleton_append]
      rw [htext]
      exact hcut.append (ih hheld hlater)

end Lexer

end ForwardAuth.Json
