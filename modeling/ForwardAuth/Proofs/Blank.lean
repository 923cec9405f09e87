import ForwardAuth.Text.Blank
import Mathlib.Data.List.TakeWhile

/-!
# What trimming leaves

Trimming takes the blanks off both ends of a text, all of them and nothing else. So a trimmed text
is known without any walk over characters: it is the one part of the text that begins and ends with
no blank and has only blanks around it. `trimChars_eq_iff` says this for every text, the empty one
included, and it is what statements about trimmed header values rest on.

## Main definitions

* `Bare`: A list that neither begins nor ends with a blank.

## Theorems

* `trimChars_append`: Blanks around a bare list are taken off.
* `exists_of_trimChars`: What is taken off is blank, and what is left is bare.
* `trimChars_eq_iff`: Trimming gives the bare part between blanks.
-/

namespace ForwardAuth.Text

/-- The list neither begins nor ends with a blank. -/
def Bare (cs : List Char) : Prop :=
  ∀ c, cs.head? = some c ∨ cs.getLast? = some c → isBlank c = false

-- A list with a beginning that is no blank keeps it.
theorem dropWhile_of_head {cs : List Char} (rest : List Char) (hne : cs ≠ [])
    (h : ∀ c, cs.head? = some c → isBlank c = false) :
    (cs ++ rest).dropWhile isBlank = cs ++ rest := by
  cases cs with
  | nil => exact absurd rfl hne
  | cons c cs =>
      have hc := h c rfl
      rw [List.cons_append, List.dropWhile_cons_of_neg (by rw [hc]; exact Bool.false_ne_true)]

theorem trimChars_append (before cs after : List Char)
    (hblank : ∀ c ∈ before ++ after, isBlank c = true) (hbare : Bare cs) :
    trimChars (before ++ (cs ++ after)) = cs := by
  have hbefore : ∀ c ∈ before, isBlank c = true := fun c hc => hblank c (List.mem_append_left _ hc)
  have hafter : ∀ c ∈ after, isBlank c = true := fun c hc => hblank c (List.mem_append_right _ hc)
  unfold trimChars
  rw [List.dropWhile_append_of_pos hbefore]
  by_cases hne : cs = []
  · -- There are only blanks, and the first pass takes them all.
    rw [hne, List.nil_append, List.dropWhile_eq_nil_iff.mpr hafter]
    rfl
  · -- The first pass stops where the list begins, and the second where it ends.
    have hlast : ∀ c, cs.reverse.head? = some c → isBlank c = false := by
      intro c hc
      rw [List.head?_reverse] at hc
      exact hbare c (Or.inr hc)
    have hkeep := dropWhile_of_head [] (mt List.reverse_eq_nil_iff.mp hne) hlast
    rw [List.append_nil] at hkeep
    rw [dropWhile_of_head after hne fun c hc => hbare c (Or.inl hc), List.reverse_append,
      List.dropWhile_append_of_pos fun c hc => hafter c (List.mem_reverse.mp hc), hkeep,
      List.reverse_reverse]

theorem exists_of_trimChars (cs : List Char) :
    ∃ before after, cs = before ++ (trimChars cs ++ after) ∧
      (∀ c ∈ before ++ after, isBlank c = true) ∧ Bare (trimChars cs) := by
  -- The two passes split the list in three: blanks, what is left, and blanks.
  have hsecond : trimChars cs ++ ((cs.dropWhile isBlank).reverse.takeWhile isBlank).reverse
      = cs.dropWhile isBlank := by
    unfold trimChars
    rw [← List.reverse_append, List.takeWhile_append_dropWhile, List.reverse_reverse]
  refine ⟨cs.takeWhile isBlank, ((cs.dropWhile isBlank).reverse.takeWhile isBlank).reverse, ?_,
    fun c hc => ?_, fun c hc => ?_⟩
  · rw [hsecond, List.takeWhile_append_dropWhile]
  · -- Each pass takes blanks only.
    rcases List.mem_append.mp hc with hc | hc
    · exact List.mem_takeWhile_imp hc
    · exact List.mem_takeWhile_imp (List.mem_reverse.mp hc)
  · rcases hc with hc | hc
    · -- The first pass ends before a character that is no blank.
      have hfirst := List.head?_dropWhile_not isBlank cs
      rw [← hsecond, List.head?_append, hc] at hfirst
      simpa only [Option.some_or, Bool.not_eq_true'] using hfirst
    · -- The second pass does the same from the other end.
      have hlast := List.head?_dropWhile_not isBlank (cs.dropWhile isBlank).reverse
      unfold trimChars at hc
      rw [List.getLast?_reverse] at hc
      rw [hc] at hlast
      simpa only [Bool.not_eq_true'] using hlast

/-- Trimming gives the part of a list that is bare and has only blanks around it. -/
theorem trimChars_eq_iff (cs ds : List Char) :
    trimChars cs = ds ↔
      ∃ before after, cs = before ++ (ds ++ after) ∧ (∀ c ∈ before ++ after, isBlank c = true) ∧
        Bare ds := by
  constructor
  · rintro rfl
    exact exists_of_trimChars cs
  · rintro ⟨before, after, rfl, hblank, hbare⟩
    exact trimChars_append before ds after hblank hbare

end ForwardAuth.Text
