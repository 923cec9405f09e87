import Mathlib.Data.List.Forall2

/-!
# Lists that are read part by part

A list is read by reading each of its parts, and if one of them cannot be read, the list cannot be
either. So what is read of a list stands beside it part by part, and this is all that there is to
know of it: the induction over the list is made here once, and the rest is said about the relation
`List.Forall₂` between a part and what is read for it.

## Theorems

* `mapM_eq_some_iff_forall₂`: What is read part by part stands beside the parts.
* `mapM_eq_none_iff`: A list is not read because of one of its parts.
* `mapM_eq_some_iff_of`, `mapM_map_eq_some`: Parts that have one reading, and parts that were
  written.
* `exists_mem_of_forall₂`, `exists_mem_of_mapM`: The part beside a given one.
-/

namespace ForwardAuth

variable {α β : Type}

theorem forall₂_congr_of_mem {R S : α → β → Prop} {as : List α} {bs : List β}
    (h : ∀ a ∈ as, ∀ b, R a b ↔ S a b) : List.Forall₂ R as bs ↔ List.Forall₂ S as bs := by
  induction as generalizing bs with
  | nil => rw [List.forall₂_nil_left_iff, List.forall₂_nil_left_iff]
  | cons a as ih =>
      rw [List.forall₂_cons_left_iff, List.forall₂_cons_left_iff]
      have hlater : ∀ bs, List.Forall₂ R as bs ↔ List.Forall₂ S as bs := fun _ =>
        ih fun a ha => h a (List.mem_cons_of_mem _ ha)
      simp only [h a List.mem_cons_self, hlater]

theorem exists_mem_of_forall₂ {R : α → β → Prop} {as : List α} {bs : List β}
    (h : List.Forall₂ R as bs) {a : α} (ha : a ∈ as) : ∃ b ∈ bs, R a b := by
  induction h with
  | nil => exact absurd ha List.not_mem_nil
  | cons hfirst hlater ih =>
      rcases List.mem_cons.mp ha with rfl | ha
      · exact ⟨_, List.mem_cons_self, hfirst⟩
      · rcases ih ha with ⟨b, hb, hread⟩
        exact ⟨b, List.mem_cons_of_mem _ hb, hread⟩

theorem forall₂_and_iff {R S : α → β → Prop} {as : List α} {bs : List β} :
    List.Forall₂ (fun a b => R a b ∧ S a b) as bs ↔ List.Forall₂ R as bs ∧ List.Forall₂ S as bs :=
  ⟨fun h => ⟨h.imp fun _ _ => And.left, h.imp fun _ _ => And.right⟩,
    fun h => h.1.mp (fun _ _ => And.intro) h.2⟩

theorem forall₂_eq_map_iff {g : α → β} {as : List α} {bs : List β} :
    List.Forall₂ (fun a b => b = g a) as bs ↔ bs = as.map g := by
  have hmap : List.Forall₂ (fun b a => b = g a) bs as ↔ bs = as.map g := by
    rw [← List.forall₂_map_right_iff (R := Eq), List.forall₂_eq_eq_eq]
  exact ⟨fun h => hmap.mp h.flip, fun h => (hmap.mpr h).flip⟩

/-- What is read part by part, if what is read for a part is asked of it alone. -/
theorem mapM_eq_some_iff_forall₂ {f : α → Option β} {as : List α} {bs : List β} :
    as.mapM f = some bs ↔ List.Forall₂ (fun a b => f a = some b) as bs := by
  induction as generalizing bs with
  | nil =>
      rw [List.mapM_nil, List.forall₂_nil_left_iff]
      exact ⟨fun h => (Option.some.inj h).symm, fun h => congrArg some h.symm⟩
  | cons a as ih =>
      rw [List.mapM_cons, Option.bind_eq_bind, Option.bind_eq_some_iff, List.forall₂_cons_left_iff]
      constructor
      · rintro ⟨b, hb, hrest⟩
        rcases Option.bind_eq_some_iff.mp hrest with ⟨later, hlater, hbs⟩
        exact ⟨b, later, hb, ih.mp hlater, (Option.some.inj hbs).symm⟩
      · rintro ⟨b, later, hb, hlater, rfl⟩
        refine ⟨b, hb, ?_⟩
        rw [ih.mpr hlater]
        rfl

theorem mapM_eq_none_iff {f : α → Option β} {as : List α} :
    as.mapM f = none ↔ ∃ a ∈ as, f a = none := by
  induction as with
  | nil =>
      rw [List.mapM_nil]
      constructor
      · rintro ⟨⟩
      · rintro ⟨a, ha, -⟩
        exact absurd ha List.not_mem_nil
  | cons a as ih =>
      rw [List.mapM_cons, Option.bind_eq_bind, List.exists_mem_cons_iff]
      cases hfirst : f a with
      | none => exact ⟨fun _ => .inl rfl, fun _ => rfl⟩
      | some b =>
          rw [Option.bind_some, ← ih]
          cases hrest : as.mapM f with
          | none => exact ⟨fun _ => .inr rfl, fun _ => rfl⟩
          | some bs =>
              constructor
              · rintro ⟨⟩
              · rintro (h | h)
                · cases h
                · cases h

/-- What is read part by part, if each part has one reading or none. -/
theorem mapM_eq_some_iff_of {f : α → Option β} {P : α → Prop} {g : α → β}
    (h : ∀ a b, f a = some b ↔ P a ∧ b = g a) {as : List α} {bs : List β} :
    as.mapM f = some bs ↔ (∀ a ∈ as, P a) ∧ bs = as.map g := by
  rw [mapM_eq_some_iff_forall₂, forall₂_congr_of_mem fun a _ => h a, List.forall₂_and_left,
    forall₂_eq_map_iff]

theorem mapM_map_eq_some {f : α → β} {g : β → Option α} {as : List α}
    (h : ∀ a ∈ as, g (f a) = some a) : (as.map f).mapM g = some as := by
  rw [mapM_eq_some_iff_forall₂, List.forall₂_map_left_iff, List.forall₂_same]
  exact h

theorem exists_mem_of_mapM {f : α → Option β} {as : List α} {bs : List β}
    (h : as.mapM f = some bs) {b : β} (hb : b ∈ bs) : ∃ a ∈ as, f a = some b :=
  exists_mem_of_forall₂ (mapM_eq_some_iff_forall₂.mp h).flip hb

end ForwardAuth
