import Std.Data.HashSet

/-!
# Identities

Who a request acts as: a user name and the groups that user belongs to.

A group listed twice grants nothing more than a group listed once, so an identity keeps the first
occurrence of each group and drops the later ones. The order of what stays is the order it came
in, because the proxy in front shows the groups to its backends in that order. `keepFirst` is the
one walk that does this; `Identity.of` is the one way to make an identity, and the type carries
the proof that no group repeats.

## Main definitions

* `keepFirst`: Drops every element that a set already holds, or that came earlier in the list.
* `firstOccurrences`: The elements of a list, each where it first occurs.
* `Identity`: A user name with groups that do not repeat.
* `Identity.of`: The identity of a user name and any list of groups.

## Theorems

* `mem_keepFirst`: What stays is what the list holds and the set does not.
* `nodup_keepFirst`: Nothing that stays is repeated.
* `keepFirst_eq_eraseDups`: The walk drops what the set holds, then the repeats.
* `firstOccurrences_eq_eraseDups`: First occurrences are what erasing repeats leaves.
* `firstOccurrences_of_nodup`: A list without repeats stays as it is.
* `firstOccurrences_append`: Of a list added to one without repeats, only what is new stays.
* `Identity.of_groups`: An identity is made again from its own name and groups.
-/

namespace ForwardAuth

/-- Walks a list with the set of elements met so far and drops those met before. -/
def keepFirst (seen : Std.HashSet String) : List String → List String
  | [] => []
  | x :: xs => if x ∈ seen then keepFirst seen xs else x :: keepFirst (seen.insert x) xs

/-- The elements of a list in order, each at its first occurrence only. -/
def firstOccurrences (xs : List String) : List String :=
  keepFirst ∅ xs

/-- The walk keeps exactly the elements of the list that the set does not hold. -/
theorem mem_keepFirst {x : String} {seen : Std.HashSet String} {xs : List String} :
    x ∈ keepFirst seen xs ↔ x ∈ xs ∧ x ∉ seen := by
  induction xs generalizing seen with
  | nil => simp [keepFirst]
  | cons y ys ih =>
    by_cases hy : y ∈ seen
    · simp only [keepFirst, hy, if_true, ih, List.mem_cons]
      constructor
      · rintro ⟨hx, hs⟩
        exact ⟨.inr hx, hs⟩
      · rintro ⟨rfl | hx, hs⟩
        · exact absurd hy hs
        · exact ⟨hx, hs⟩
    · simp only [keepFirst, hy, if_false, List.mem_cons, ih, Std.HashSet.mem_insert, beq_iff_eq]
      constructor
      · rintro (rfl | ⟨hx, hs⟩)
        · exact ⟨.inl rfl, hy⟩
        · exact ⟨.inr hx, fun h => hs (.inr h)⟩
      · rintro ⟨rfl | hx, hs⟩
        · exact .inl rfl
        · by_cases h : y = x
          · exact .inl h.symm
          · exact .inr ⟨hx, fun h' => h'.elim h hs⟩

/-- The walk repeats nothing. -/
theorem nodup_keepFirst (seen : Std.HashSet String) (xs : List String) :
    (keepFirst seen xs).Nodup := by
  induction xs generalizing seen with
  | nil => simp [keepFirst]
  | cons y ys ih =>
    by_cases hy : y ∈ seen
    · simp [keepFirst, hy, ih]
    · simp [keepFirst, hy, ih, mem_keepFirst]

/-- The walk drops what the set holds, and of the rest what is repeated. The set stands for the
    elements already walked over, so the induction is over every set at once. -/
theorem keepFirst_eq_eraseDups (seen : Std.HashSet String) (xs : List String) :
    keepFirst seen xs = (xs.filter fun x => x ∉ seen).eraseDups := by
  induction xs generalizing seen with
  | nil => rfl
  | cons y ys ih =>
      by_cases hy : y ∈ seen
      · rw [keepFirst, if_pos hy, ih, List.filter_cons_of_neg (by simpa using hy)]
      · rw [keepFirst, if_neg hy, ih, List.filter_cons_of_pos (by simpa using hy),
          List.eraseDups_cons, List.filter_filter]
        congr 2
        refine List.filter_congr (fun x _ => ?_)
        -- Being outside the larger set is being outside the smaller one and not `y`.
        by_cases hxy : x = y
        · simp [hxy]
        · simp [hxy, Ne.symm hxy]

/-- The first occurrences are what is left once repeats are erased. -/
theorem firstOccurrences_eq_eraseDups (xs : List String) : firstOccurrences xs = xs.eraseDups := by
  rw [firstOccurrences, keepFirst_eq_eraseDups, List.filter_eq_self.mpr]
  intro x _
  simp

/-- A list without repeats stays as it is. -/
theorem firstOccurrences_of_nodup {xs : List String} (h : xs.Nodup) : firstOccurrences xs = xs := by
  rw [firstOccurrences_eq_eraseDups]
  induction xs with
  | nil => rfl
  | cons y ys ih =>
      rw [List.nodup_cons] at h
      rw [List.eraseDups_cons, List.filter_eq_self.mpr, ih h.2]
      intro x hx
      have hne : x ≠ y := fun hxy => h.1 (hxy ▸ hx)
      simpa using hne

/-- Of a list that is added to one without repeats, the elements that are not there yet stay, each
    once and in order. -/
theorem firstOccurrences_append {xs : List String} (h : xs.Nodup) (ys : List String) :
    firstOccurrences (xs ++ ys) = xs ++ (ys.filter fun y => y ∉ xs).eraseDups := by
  have hxs : xs.eraseDups = xs := by
    rw [← firstOccurrences_eq_eraseDups, firstOccurrences_of_nodup h]
  rw [firstOccurrences_eq_eraseDups, List.eraseDups_append, hxs]
  congr 2
  refine List.filter_congr (fun y _ => ?_)
  simp

/-- A user name and the groups it belongs to, none of them listed twice. -/
@[ext]
structure Identity where
  username : String
  groups : List String
  nodup_groups : groups.Nodup
  deriving DecidableEq, Repr

namespace Identity

/-- The identity of a user name and a list of groups that may repeat. -/
def of (username : String) (groups : List String) : Identity where
  username
  groups := firstOccurrences groups
  nodup_groups := nodup_keepFirst ∅ groups

/-- An identity is made again from its own name and groups. -/
theorem of_groups (i : Identity) : of i.username i.groups = i := by
  ext1
  · rfl
  · exact firstOccurrences_of_nodup i.nodup_groups

end Identity

end ForwardAuth
