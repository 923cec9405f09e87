import ForwardAuth.Json.Number
import Mathlib.Data.List.TakeWhile
import Mathlib.Data.Option.Basic

/-!
# The grammar of numbers

A number is read part after part: a sign, the digits before the point, the fraction, the exponent.
Each part takes what it can, and what no part has taken makes the text no number. The grammar says
the same without an order: which bytes each part may be spelled with. Then it is to be shown that no
part takes a byte that the grammar gives to the next one, and this is where the bytes that a part
can begin with come in.

## Main definitions

* `IsDigits`: At least one digit, and nothing else.
* `Numeral.Fraction`, `Numeral.Power`: A fraction and an exponent as they may be written.
* `Numeral.Spelling`: A number as it may be written.

## Theorems

* `digits?_sound`, `digits?_append`: What is taken for digits.
* `fraction?_sound`, `fraction?_append`: What is taken for a fraction.
* `exponent?_eq_some_iff`: What is taken for an exponent at the end.
* `ofBytes?_eq_some_iff`: Numbers are read as the grammar has them.
-/

namespace ForwardAuth.Json

/-- At least one digit, and nothing else. -/
def IsDigits (ds : List UInt8) : Prop :=
  ds ≠ [] ∧ ∀ b ∈ ds, isDigit b = true

-- There are so few bytes that each of them can be asked.
theorem forall_byte {P : UInt8 → Prop} (h : ∀ n < 256, P (UInt8.ofNat n)) (b : UInt8) : P b :=
  UInt8.ofNat_toNat (x := b) ▸ h b.toNat b.toNat_lt

theorem IsDigits.head? {ds : List UInt8} (h : IsDigits ds) (rest : List UInt8) :
    ∀ b ∈ (ds ++ rest).head?, isDigit b = true := by
  rcases List.exists_cons_of_ne_nil h.1 with ⟨b, bs, rfl⟩
  intro b' hb'
  rw [← Option.some.inj hb']
  exact h.2 b List.mem_cons_self

namespace Numeral

/-- A fraction as it may be written, with its digits. -/
inductive Fraction : List UInt8 → List Nat → Prop where
  | none : Fraction [] []
  | point {ds : List UInt8} (h : IsDigits ds) : Fraction (0x2E :: ds) (ds.map digitValue)

/-- The sign of an exponent as it may be written: whether it is negative. -/
inductive ExponentSign : List UInt8 → Bool → Prop where
  | none : ExponentSign [] false
  | plus : ExponentSign [0x2B] false
  | minus : ExponentSign [0x2D] true

/-- An exponent as it may be written. -/
inductive Power : List UInt8 → Option Exponent → Prop where
  | none : Power [] none
  | some {letter : UInt8} {sign ds : List UInt8} {negative : Bool}
    (hletter : letter = 0x65 ∨ letter = 0x45) (hsign : ExponentSign sign negative)
    (hds : IsDigits ds) : Power (letter :: (sign ++ ds)) (some ⟨negative, ds.map digitValue⟩)

/-- A number as it may be written. A zero begins no longer integer. -/
inductive Spelling : Numeral → List UInt8 → Prop where
  | mk (negative : Bool) {whole fraction power : List UInt8} {digits : List Nat}
    {exponent : Option Exponent} (hwhole : IsDigits whole)
    (hzero : whole.head? = some 0x30 → whole.length = 1) (hfraction : Fraction fraction digits)
    (hpower : Power power exponent) :
    Spelling ⟨negative, whole.map digitValue, digits, exponent, !(fraction ++ power).isEmpty⟩
      ((if negative then [0x2D] else []) ++ (whole ++ (fraction ++ power)))

theorem digits?_sound {bytes rest : List UInt8} {vs : List Nat}
    (h : digits? bytes = some (vs, rest)) :
    ∃ ds, bytes = ds ++ rest ∧ IsDigits ds ∧ vs = ds.map digitValue := by
  rw [digits?] at h
  split at h
  · cases h
  · next hsome =>
    rw [← (Prod.mk.inj (Option.some.inj h)).1, ← (Prod.mk.inj (Option.some.inj h)).2]
    refine ⟨bytes.takeWhile isDigit, List.takeWhile_append_dropWhile.symm, ⟨hsome, ?_⟩, rfl⟩
    exact fun b hb => List.mem_takeWhile_imp hb

theorem digits?_append {ds rest : List UInt8} (h : IsDigits ds)
    (hrest : ∀ b ∈ rest.head?, isDigit b = false) :
    digits? (ds ++ rest) = some (ds.map digitValue, rest) := by
  have hnone : rest.takeWhile isDigit = [] ∧ rest.dropWhile isDigit = rest := by
    cases rest with
    | nil => exact ⟨rfl, rfl⟩
    | cons b rest =>
        have hb : ¬ isDigit b = true := by rw [hrest b rfl]; exact Bool.false_ne_true
        exact ⟨List.takeWhile_cons_of_neg hb, List.dropWhile_cons_of_neg hb⟩
  rw [digits?, List.takeWhile_append_of_pos h.2, List.dropWhile_append_of_pos h.2, hnone.1,
    hnone.2, List.append_nil]
  cases ds with
  | nil => exact absurd rfl h.1
  | cons b ds => rfl

theorem fraction?_sound {bytes rest : List UInt8} {vs : List Nat}
    (h : fraction? bytes = some (vs, rest)) :
    ∃ fraction, bytes = fraction ++ rest ∧ Fraction fraction vs := by
  unfold fraction? at h
  split at h
  · rcases digits?_sound h with ⟨ds, rfl, hds, rfl⟩
    exact ⟨0x2E :: ds, rfl, .point hds⟩
  · cases h
    exact ⟨[], rfl, .none⟩

-- Neither a point nor a digit of the fraction may follow it.
theorem fraction?_append {fraction rest : List UInt8} {vs : List Nat} (h : Fraction fraction vs)
    (hrest : ∀ b ∈ rest.head?, b ≠ 0x2E ∧ isDigit b = false) :
    fraction? (fraction ++ rest) = some (vs, rest) := by
  cases h with
  | none =>
      rw [List.nil_append]
      unfold fraction?
      split
      · exact absurd rfl (hrest 0x2E rfl).1
      · rfl
  | point h => exact digits?_append h fun b hb => (hrest b hb).2

-- A digit is no sign.
theorem sign_of_isDigit {bytes : List UInt8} (h : ∀ b ∈ bytes.head?, isDigit b = true) :
    sign bytes = (false, bytes) ∧ exponentSign bytes = (false, bytes) := by
  have hsign : sign bytes = (false, bytes) := by
    unfold sign
    split
    · exact absurd (h 0x2D rfl) (by decide)
    · rfl
  refine ⟨hsign, ?_⟩
  unfold exponentSign
  split
  · exact absurd (h 0x2B rfl) (by decide)
  · exact hsign

theorem sign_sound (bytes : List UInt8) :
    bytes = (if (sign bytes).1 then [0x2D] else []) ++ (sign bytes).2 := by
  unfold sign
  split
  · rfl
  · rfl

theorem exponentSign_sound (bytes : List UInt8) :
    ∃ sign, bytes = sign ++ (exponentSign bytes).2 ∧ ExponentSign sign (exponentSign bytes).1 := by
  unfold exponentSign
  split
  · exact ⟨[0x2B], rfl, .plus⟩
  · unfold sign
    split
    · exact ⟨[0x2D], rfl, .minus⟩
    · exact ⟨[], rfl, .none⟩

/-- An exponent that takes up the rest of a number. -/
theorem exponent?_eq_some_iff {bytes : List UInt8} {exponent : Option Exponent} :
    exponent? bytes = some (exponent, []) ↔ Power bytes exponent := by
  constructor
  · intro h
    cases bytes with
    | nil =>
        cases h
        exact .none
    | cons letter bytes =>
        rw [exponent?] at h
        split at h
        · next hletter =>
          rcases exponentSign_sound bytes with ⟨sign, hbytes, hsign⟩
          rcases hunsigned : exponentSign bytes with ⟨negative, unsigned⟩
          rw [hunsigned] at h hbytes hsign
          rcases Option.bind_eq_some_iff.mp h with ⟨⟨vs, rest⟩, hdigits, hpair⟩
          cases hpair
          rcases digits?_sound hdigits with ⟨ds, rfl, hds, rfl⟩
          rw [hbytes, List.append_nil]
          exact .some (by simpa using hletter) hsign hds
        · cases h
  · intro h
    cases h with
    | none => rfl
    | @some letter sign ds negative hletter hsign hds =>
        have hexponent : exponentSign (sign ++ ds) = (negative, ds) := by
          cases hsign with
          | none => exact (sign_of_isDigit (List.append_nil ds ▸ hds.head? [])).2
          | plus => rfl
          | minus => rfl
        have hdigits : digits? (ds ++ []) = some (ds.map digitValue, []) :=
          digits?_append hds (by rintro b ⟨⟩)
        rw [List.append_nil] at hdigits
        rw [exponent?, if_pos (by simpa using hletter), hexponent]
        simp only [hdigits, Option.bind_eq_bind, Option.bind_some]
        rfl

theorem Power.head? {power : List UInt8} {exponent : Option Exponent} (h : Power power exponent) :
    ∀ b ∈ power.head?, b ≠ 0x2E ∧ isDigit b = false := by
  intro b hb
  cases h with
  | none => cases hb
  | some hletter hsign hds =>
      rw [← Option.some.inj hb]
      rcases hletter with rfl | rfl
      · decide
      · decide

theorem Fraction.head? {fraction : List UInt8} {vs : List Nat} (h : Fraction fraction vs)
    {rest : List UInt8} (hrest : ∀ b ∈ rest.head?, isDigit b = false) :
    ∀ b ∈ (fraction ++ rest).head?, isDigit b = false := by
  cases h with
  | none => exact hrest
  | point h =>
      intro b hb
      rw [← Option.some.inj hb]
      decide

theorem digitValue_eq_zero {b : UInt8} (h : isDigit b = true) : digitValue b = 0 ↔ b = 0x30 := by
  have hall : ∀ b : UInt8, isDigit b = true → (digitValue b = 0 ↔ b = 0x30) :=
    forall_byte (by decide +kernel)
  exact hall b h

-- The digits begin with a zero if their values do.
theorem noZero_iff {whole : List UInt8} (h : IsDigits whole) :
    ((whole.map digitValue).head? ≠ some 0 || (whole.map digitValue).length == 1) = true ↔
      (whole.head? = some 0x30 → whole.length = 1) := by
  rcases List.exists_cons_of_ne_nil h.1 with ⟨b, bs, rfl⟩
  have hb := digitValue_eq_zero (h.2 b List.mem_cons_self)
  simp only [List.map_cons, List.head?_cons, Option.some.injEq, ne_eq, hb, List.length_cons,
    List.length_map, Bool.or_eq_true, decide_eq_true_eq, beq_iff_eq]
  exact Decidable.imp_iff_not_or.symm

/-- Numbers are read as the grammar has them. -/
theorem ofBytes?_eq_some_iff {bytes : List UInt8} {n : Numeral} :
    ofBytes? bytes = some n ↔ n.Spelling bytes := by
  constructor
  · intro h
    have hbytes := sign_sound bytes
    rcases hsign : sign bytes with ⟨negative, unsigned⟩
    rw [hsign] at hbytes
    rw [ofBytes?, hsign] at h
    rcases Option.bind_eq_some_iff.mp h with ⟨⟨whole, rest⟩, hwhole, h⟩
    rcases digits?_sound hwhole with ⟨ds, rfl, hds, rfl⟩
    rcases Option.bind_eq_some_iff.mp h with ⟨⟨⟩, hzero, h⟩
    rcases Option.bind_eq_some_iff.mp h with ⟨⟨digits, tail⟩, htail, h⟩
    rcases fraction?_sound htail with ⟨fraction, rfl, hfraction⟩
    rcases Option.bind_eq_some_iff.mp h with ⟨⟨exponent, last⟩, hpower, h⟩
    rcases Option.bind_eq_some_iff.mp h with ⟨⟨⟩, hlast, h⟩
    cases last with
    | cons b last => cases hlast
    | nil =>
        cases h
        rw [hbytes]
        exact .mk negative hds ((noZero_iff hds).mp ((Option.guard_eq_some' ()).mp hzero)) hfraction
          (exponent?_eq_some_iff.mp hpower)
  · intro h
    cases h with
    | @mk negative whole fraction power digits exponent hwhole hzero hfraction hpower =>
        have hsign : sign ((if negative then [0x2D] else []) ++ (whole ++ (fraction ++ power)))
            = (negative, whole ++ (fraction ++ power)) := by
          cases negative with
          | false => exact (sign_of_isDigit (hwhole.head? _)).1
          | true => rfl
        -- What follows the digits of each part cannot be taken for more of them.
        have hlater := hpower.head?
        have hdigits := digits?_append hwhole (hfraction.head? fun b hb => (hlater b hb).2)
        have hguard := (Option.guard_eq_some' ()).mpr ((noZero_iff hwhole).mpr hzero)
        rw [ofBytes?, hsign]
        refine Option.bind_eq_some_iff.mpr ⟨_, hdigits, ?_⟩
        refine Option.bind_eq_some_iff.mpr ⟨(), hguard, ?_⟩
        refine Option.bind_eq_some_iff.mpr ⟨_, fraction?_append hfraction hlater, ?_⟩
        exact Option.bind_eq_some_iff.mpr ⟨_, exponent?_eq_some_iff.mpr hpower, rfl⟩

end Numeral

end ForwardAuth.Json
