import ForwardAuth.Proofs.JsonStrings
import ForwardAuth.Proofs.NumeralGrammar

/-!
# The values of written numbers

Only an integer of 64 bits, with or without sign, has its exact value when it is read. Any other
number is taken for a double, and it has no value only if it is beyond the doubles. That a number is
small never costs it its value: a power of ten below zero is made up in steps, none of which can
overflow.

An integer is written in decimal, with a minus if it is negative, and so it is read back if it has
64 bits. Every statement about the digits goes by removing the last of them, as `decimal_eq` does
it.

## Main definitions

* `Overflows`: A double and a power of ten whose product is beyond the doubles.
* `Numeral.IsWord`, `Numeral.IsBeyond`: The numbers with an exact value, and those with none.
* `Numeral.integer`, `Numeral.double`: The values that a number may have.
* `decimal`: The digits of a natural number, as bytes.
* `numeral`: The parts of a written integer.

## Theorems

* `scale?_eq_none_iff`: Only what overflows is lost by scaling.
* `Numeral.value?_eq_some_iff`: The value that a number has.
* `decimal_eq`: The digits of a number are those of its tenth part, and one more.
* `ofDigits_decimal`: The digits of a number stand for it.
* `spelling_toString`: An integer is written as the grammar has it.
* `value?_numeral`: An integer of 64 bits is read as itself.
-/

namespace ForwardAuth.Json

/-! ## The value of a number -/

/-- The product of a double and a power of ten is beyond the doubles. -/
def Overflows (x : Float) (e : Int) : Prop :=
  (308 < e ∧ (x == 0) = false) ∨ (0 ≤ e ∧ e ≤ 308 ∧ (x * Decimal.nearest 1 e).isInf = true)

theorem not_overflows_of_neg {x : Float} {e : Int} (h : e < 0) : ¬ Overflows x e := by
  rintro (⟨hlarge, -⟩ | ⟨hnonneg, -⟩)
  · omega
  · omega

/-- Only what overflows is lost by scaling. -/
theorem scale?_eq_none_iff {x : Float} {e : Int} : scale? x e = none ↔ Overflows x e := by
  induction x, e using scale?.induct with
  | case1 x e hlarge hzero =>
      rw [scale?, if_pos hlarge, if_pos hzero]
      refine iff_of_false (by rintro ⟨⟩) ?_
      rintro (⟨-, hx⟩ | ⟨-, hsmall, -⟩)
      · rw [hzero] at hx
        cases hx
      · omega
  | case2 x e hlarge hzero =>
      rw [scale?, if_pos hlarge, if_neg hzero]
      exact iff_of_true rfl (.inl ⟨hlarge, Bool.eq_false_iff.mpr hzero⟩)
  | case3 x e hsmall hnonneg y hinf =>
      rw [scale?, if_neg hsmall, if_pos hnonneg, if_pos hinf]
      exact iff_of_true rfl (.inr ⟨hnonneg, Int.not_lt.mp hsmall, hinf⟩)
  | case4 x e hsmall hnonneg y hinf =>
      rw [scale?, if_neg hsmall, if_pos hnonneg, if_neg hinf]
      refine iff_of_false (by rintro ⟨⟩) ?_
      rintro (⟨hlarge, -⟩ | ⟨-, -, h⟩)
      · exact hsmall hlarge
      · exact hinf h
  | case5 x e hsmall hneg hlow =>
      rw [scale?, if_neg hsmall, if_neg hneg, if_pos hlow]
      exact iff_of_false (by rintro ⟨⟩) (not_overflows_of_neg (by omega))
  | case6 x e hsmall hneg hlow hzero =>
      rw [scale?, if_neg hsmall, if_neg hneg, if_neg hlow, if_pos hzero]
      exact iff_of_false (by rintro ⟨⟩) (not_overflows_of_neg (by omega))
  | case7 x e hsmall hneg hlow hzero ih =>
      -- A power that is too low is made up in steps, and each of them is below zero.
      rw [scale?, if_neg hsmall, if_neg hneg, if_neg hlow, if_neg hzero, ih]
      exact iff_of_false (not_overflows_of_neg (by omega)) (not_overflows_of_neg (by omega))

namespace Numeral

/-- The number is an integer of 64 bits, with or without sign. Minus zero is none. -/
def IsWord (n : Numeral) : Prop :=
  n.isReal = false ∧ if n.negative then 0 < ofDigits n.whole ∧ ofDigits n.whole ≤ Nat.pow 2 63
    else ofDigits n.whole ≤ maxSignificand

/-- The integer that is written in front of a fraction and an exponent. -/
def integer (n : Numeral) : Int :=
  if n.negative then -(ofDigits n.whole : Int) else ofDigits n.whole

/-- The double that is read for the number, if it is not beyond the doubles. -/
def double (n : Numeral) : Float :=
  if n.negative then -(n.magnitude?.getD 0) else n.magnitude?.getD 0

/-- The power of ten that the exponent gives. -/
def power (n : Numeral) : Int :=
  match n.exponent with
  | none => 0
  | some x => if x.negative then -(ofDigits x.digits : Int) else ofDigits x.digits

/-- The number is beyond the doubles: its exponent is too great to be counted, or scaling its
    significand overflows. -/
def IsBeyond (n : Numeral) : Prop :=
  n.significand.1 ≠ 0 ∧ (maxExponent : Int) < n.power ∨
    n.power.natAbs ≤ maxExponent ∧
      Overflows (Decimal.nearest n.significand.1 0) (n.significand.2 + n.power)

-- Whether an exponent is written or not, what counts is the power that it gives.
theorem magnitude?_eq (n : Numeral) : n.magnitude? =
    if maxExponent < n.power.natAbs then if n.significand.1 ≠ 0 ∧ 0 < n.power then none else some 0
    else scale? (Decimal.nearest n.significand.1 0) (n.significand.2 + n.power) := by
  rw [magnitude?, power]
  cases n.exponent with
  | none => exact congrArg (scale? _) (Int.add_zero _).symm
  | some x =>
      cases hx : x.negative with
      | true =>
          simp only [hx, if_true, Int.natAbs_neg, Int.natAbs_natCast, gt_iff_lt]
          congr 1
          rw [if_neg fun h => h.2 trivial, if_neg (by omega)]
      | false =>
          simp only [hx, Bool.false_eq_true, if_false, Int.natAbs_natCast, gt_iff_lt]
          by_cases hlarge : maxExponent < ofDigits x.digits
          · have hpositive : (0 : Int) < ofDigits x.digits := by omega
            simp only [if_pos hlarge, hpositive, not_false_eq_true]
          · rw [if_neg hlarge, if_neg hlarge]

theorem magnitude?_eq_none_iff {n : Numeral} : n.magnitude? = none ↔ n.IsBeyond := by
  rw [magnitude?_eq, IsBeyond]
  by_cases hlarge : maxExponent < n.power.natAbs
  · rw [if_pos hlarge]
    by_cases hbeyond : n.significand.1 ≠ 0 ∧ 0 < n.power
    · rw [if_pos hbeyond]
      exact iff_of_true rfl (.inl ⟨hbeyond.1, by omega⟩)
    · rw [if_neg hbeyond]
      refine iff_of_false (by rintro ⟨⟩) ?_
      rintro (⟨hsome, hpower⟩ | ⟨hsmall, -⟩)
      · exact hbeyond ⟨hsome, by omega⟩
      · omega
  · rw [if_neg hlarge, scale?_eq_none_iff]
    constructor
    · exact fun h => .inr ⟨Nat.not_lt.mp hlarge, h⟩
    · rintro (⟨-, hpower⟩ | ⟨-, h⟩)
      · omega
      · exact h

theorem value?_of_isWord {n : Numeral} (h : n.IsWord) : n.value? = some (.int n.integer) := by
  rcases h with ⟨hreal, hfits⟩
  rw [value?, hreal, integer]
  cases hsign : n.negative with
  | true =>
      rw [hsign, if_pos rfl] at hfits
      simp only [hfits, Bool.not_false, Bool.not_true, Bool.and_false, Bool.false_and,
        Bool.false_eq_true, if_false, Bool.and_self, decide_true, if_true]
  | false =>
      rw [hsign, if_neg Bool.false_ne_true] at hfits
      simp only [hfits, Bool.not_false, Bool.and_self, decide_true, if_true, Bool.false_eq_true,
        if_false]

theorem value?_of_not_isWord {n : Numeral} (h : ¬ n.IsWord) :
    n.value? = n.magnitude?.map fun x => .float (if n.negative then -x else x) := by
  rw [IsWord, not_and] at h
  rw [value?]
  cases hreal : n.isReal with
  | true => simp only [Bool.not_true, Bool.false_and, Bool.false_eq_true, if_false]
  | false =>
      have hfits := h hreal
      cases hsign : n.negative with
      | true =>
          rw [hsign, if_pos rfl] at hfits
          rw [if_neg (by simp only [Bool.not_true, Bool.and_false, Bool.false_and,
              Bool.false_eq_true, not_false_eq_true]), if_neg]
          simpa only [Bool.not_false, Bool.true_and, Bool.and_eq_true, decide_eq_true_eq]
            using hfits
      | false =>
          rw [hsign, if_neg Bool.false_ne_true] at hfits
          rw [if_neg, if_neg]
          · simp only [Bool.and_false, Bool.false_and, Bool.false_eq_true, not_false_eq_true]
          · simpa only [Bool.not_false, Bool.true_and, decide_eq_true_eq] using hfits

/-- The value of a number is exact if it is an integer of 64 bits. Any other number has a double for
    its value, unless it is beyond the doubles. -/
theorem value?_eq_some_iff {n : Numeral} {x : Number} : n.value? = some x ↔
    n.IsWord ∧ x = .int n.integer ∨ ¬ n.IsWord ∧ ¬ n.IsBeyond ∧ x = .float n.double := by
  have hdouble : n.magnitude?.map (fun y => Number.float (if n.negative then -y else y)) = some x ↔
      ¬ n.IsBeyond ∧ x = .float n.double := by
    rw [← magnitude?_eq_none_iff, double]
    cases n.magnitude? with
    | none => exact iff_of_false (by rintro ⟨⟩) fun h => h.1 rfl
    | some y =>
        exact ⟨fun h => ⟨by rintro ⟨⟩, (Option.some.inj h).symm⟩, fun h => congrArg some h.2.symm⟩
  by_cases hword : n.IsWord
  · rw [value?_of_isWord hword, Option.some.injEq, and_iff_right hword,
      or_iff_left fun h => h.1 hword, eq_comm]
  · rw [value?_of_not_isWord hword, hdouble, and_iff_right hword, or_iff_right fun h => hword h.1]

end Numeral

/-! ## Digits -/

/-- The digits of a natural number, as bytes. -/
def decimal (m : Nat) : List UInt8 :=
  utf8 (Nat.toDigits 10 m)

/-- The parts of a written integer. -/
def numeral (n : Int) : Numeral :=
  ⟨decide (n < 0), (decimal n.natAbs).map digitValue, [], none, false⟩

theorem utf8_digitChar {d : Nat} (h : d < 10) : utf8 [d.digitChar] = [UInt8.ofNat (0x30 + d)] := by
  have hall : ∀ d < 10, utf8 [d.digitChar] = [UInt8.ofNat (0x30 + d)] := by decide +kernel
  exact hall d h

theorem isDigit_ofNat {d : Nat} (h : d < 10) : isDigit (UInt8.ofNat (0x30 + d)) = true := by
  have hall : ∀ d < 10, isDigit (UInt8.ofNat (0x30 + d)) = true := by decide +kernel
  exact hall d h

theorem digitValue_ofNat {d : Nat} (h : d < 10) : digitValue (UInt8.ofNat (0x30 + d)) = d := by
  have hall : ∀ d < 10, digitValue (UInt8.ofNat (0x30 + d)) = d := by decide +kernel
  exact hall d h

/-- The digits of a number are those of its tenth part, and one more. -/
theorem decimal_eq (m : Nat) :
    decimal m = (if m < 10 then [] else decimal (m / 10)) ++ [UInt8.ofNat (0x30 + m % 10)] := by
  have hlast := utf8_digitChar (Nat.mod_lt m (by decide : 0 < 10))
  rw [decimal, Nat.toDigits_eq_if (by decide)]
  by_cases hm : m < 10
  · rw [if_pos hm, if_pos hm, ← hlast, Nat.mod_eq_of_lt hm, List.nil_append]
  · rw [if_neg hm, if_neg hm, utf8_append, hlast, decimal]

theorem isDigit_of_mem_decimal (m : Nat) : ∀ b ∈ decimal m, isDigit b = true := by
  induction m using Nat.strongRecOn with
  | ind m ih =>
      intro b hb
      rw [decimal_eq] at hb
      rcases List.mem_append.mp hb with hb | hb
      · by_cases hm : m < 10
        · rw [if_pos hm] at hb
          exact absurd hb List.not_mem_nil
        · rw [if_neg hm] at hb
          exact ih (m / 10) (by omega) b hb
      · rw [List.mem_singleton.mp hb]
        exact isDigit_ofNat (Nat.mod_lt m (by decide))

/-- The digits of a number stand for it. -/
theorem ofDigits_decimal (m : Nat) : ofDigits ((decimal m).map digitValue) = m := by
  induction m using Nat.strongRecOn with
  | ind m ih =>
      have hlast := digitValue_ofNat (Nat.mod_lt m (by decide : 0 < 10))
      rw [decimal_eq, List.map_append, List.map_singleton, hlast, ofDigits, List.foldl_append]
      change ofDigits _ * 10 + m % 10 = m
      by_cases hm : m < 10
      · rw [if_pos hm]
        exact (Nat.zero_add _).trans (Nat.mod_eq_of_lt hm)
      · -- The last digit is the remainder, so it makes up for what the division lost.
        rw [if_neg hm, ih (m / 10) (by omega)]
        omega

-- Only zero is written with a zero at the front.
theorem decimal_eq_cons {m : Nat} (h : 0 < m) :
    ∃ b bs, decimal m = b :: bs ∧ digitValue b ≠ 0 := by
  induction m using Nat.strongRecOn with
  | ind m ih =>
      rw [decimal_eq]
      by_cases hm : m < 10
      · refine ⟨_, [], by rw [if_pos hm, List.nil_append], ?_⟩
        rw [digitValue_ofNat (Nat.mod_lt m (by decide)), Nat.mod_eq_of_lt hm]
        exact Nat.ne_of_gt h
      · rcases ih (m / 10) (by omega) (by omega) with ⟨b, bs, hbs, hb⟩
        refine ⟨b, bs ++ [UInt8.ofNat (0x30 + m % 10)], ?_, hb⟩
        rw [if_neg hm, hbs, List.cons_append]

theorem decimal_zero : decimal 0 = [0x30] := by
  decide +kernel

theorem decimal_ne_nil (m : Nat) : decimal m ≠ [] := by
  rw [decimal_eq]
  exact List.append_ne_nil_of_right_ne_nil _ (List.cons_ne_nil _ _)

/-! ## The parts of a written integer -/

theorem utf8_toString (n : Int) : utf8 (toString n).toList
    = if n < 0 then 0x2D :: decimal n.natAbs else decimal n.natAbs := by
  cases n with
  | ofNat m =>
      rw [if_neg (Int.not_lt.mpr (Int.natCast_nonneg m) : ¬ Int.ofNat m < 0)]
      exact congrArg utf8 Nat.toList_repr
  | negSucc m =>
      have hlist : (toString (Int.negSucc m)).toList = '-' :: Nat.toDigits 10 (m + 1) := by
        rw [← Nat.toList_repr]
        exact String.toList_append
      rw [if_pos (Int.negSucc_lt_zero m), hlist, utf8_cons]
      rfl

theorem isDigits_decimal (m : Nat) : IsDigits (decimal m) :=
  ⟨decimal_ne_nil m, isDigit_of_mem_decimal m⟩

-- The digits are those of no longer number with a zero at the front.
theorem length_decimal {m : Nat} (h : (decimal m).head? = some 0x30) : (decimal m).length = 1 := by
  rcases Nat.eq_zero_or_pos m with rfl | hm
  · rw [decimal_zero]
    rfl
  · rcases decimal_eq_cons hm with ⟨b, bs, hbs, hb⟩
    rw [hbs, List.head?_cons, Option.some.injEq] at h
    rw [h] at hb
    exact absurd rfl hb

/-- An integer is written as the grammar has it. -/
theorem spelling_toString (n : Int) : (numeral n).Spelling (utf8 (toString n).toList) := by
  -- All the bytes are digits, so neither a fraction nor an exponent is left over.
  have hspelling := Numeral.Spelling.mk (decide (n < 0)) (isDigits_decimal n.natAbs)
    length_decimal .none .none
  rw [List.append_nil, List.append_nil] at hspelling
  rw [utf8_toString]
  by_cases hn : n < 0
  · rw [decide_eq_true hn] at hspelling
    rw [if_pos hn, numeral, decide_eq_true hn]
    exact hspelling
  · rw [decide_eq_false hn] at hspelling
    rw [if_neg hn, numeral, decide_eq_false hn]
    exact hspelling

/-- An integer of 64 bits is read as itself. -/
theorem value?_numeral {n : Int} (hlow : -(Nat.pow 2 63 : Nat) ≤ n)
    (hhigh : n < (Nat.pow 2 64 : Nat)) : (numeral n).value? = some (.int n) := by
  have hpower : Nat.pow 2 63 = 9223372036854775808 := rfl
  have hgreatest : maxSignificand = 18446744073709551615 := rfl
  have hword : (numeral n).IsWord := by
    rw [Nat.pow_eq] at hhigh
    rw [Numeral.IsWord, numeral, ofDigits_decimal]
    by_cases hn : n < 0
    · -- A negative number has half of the room.
      rw [if_pos (decide_eq_true hn)]
      exact ⟨rfl, by omega, by omega⟩
    · rw [if_neg (Bool.eq_false_iff.mp (decide_eq_false hn))]
      exact ⟨rfl, by omega⟩
  have hinteger : (numeral n).integer = n := by
    rw [Numeral.integer, numeral, ofDigits_decimal]
    by_cases hn : n < 0
    · rw [if_pos (decide_eq_true hn)]
      omega
    · rw [if_neg (Bool.eq_false_iff.mp (decide_eq_false hn))]
      omega
  rw [Numeral.value?_of_isWord hword, hinteger]

end ForwardAuth.Json
