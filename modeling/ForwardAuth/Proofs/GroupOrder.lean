import ForwardAuth.Resolution.Enforcement
import Mathlib.Data.List.Induction

/-!
# Groups keep the order of their first occurrence

An identity drops repeated groups with one walk over the list and a set of the groups met so far.
The walk is fast, but what it keeps is said more plainly without the set, and in two ways: by
places, a group stays where no group before it is the same, and by growth, a group is put behind
those that are kept unless it is one of them.

The second way tells what happens to a longer list. Groups that are added to a list are added to
what is kept of it, one after another, and it makes no difference whether the repeats were dropped
before. That is why all granted groups may be put behind the caller's and the repeats dropped once
at the end.

## Main definitions

* `addNew`: Puts an element behind a list, unless it is there already.
* `notSeenBefore`: The elements of a list that do not occur before their place.

## Theorems

* `firstOccurrences_concat`: What one more element adds to the first occurrences.
* `firstOccurrences_eq_foldl`: The first occurrences grow by adding new elements.
* `firstOccurrences_append_eq_foldl`: A list that is added adds to what is kept already.
* `firstOccurrences_eq_notSeenBefore`: The first occurrences by their places.
* `groups_at_first_occurrence`: Which groups an identity has, and in which order.
-/

namespace ForwardAuth

/-- The list with an element put behind it, unless it is there already. -/
def addNew (kept : List String) (x : String) : List String :=
  if x ∈ kept then kept else kept ++ [x]

/-- The elements of a list that do not occur before their place. -/
def notSeenBefore (xs : List String) : List String :=
  (xs.zipIdx.filter fun placed => placed.1 ∉ xs.take placed.2).map Prod.fst

theorem mem_firstOccurrences {x : String} {xs : List String} :
    x ∈ firstOccurrences xs ↔ x ∈ xs := by
  rw [firstOccurrences, mem_keepFirst]
  exact and_iff_left Std.HashSet.not_mem_empty

/-- One more element is put behind the first occurrences, unless it has occurred. -/
theorem firstOccurrences_concat (xs : List String) (x : String) :
    firstOccurrences (xs ++ [x]) = addNew (firstOccurrences xs) x := by
  have hsplit : firstOccurrences (xs ++ [x])
      = firstOccurrences xs ++ (if x ∈ xs then [] else [x]) := by
    rw [firstOccurrences_eq_eraseDups, List.eraseDups_append, ← firstOccurrences_eq_eraseDups]
    congr 1
    by_cases hx : x ∈ xs
    · rw [if_pos hx, List.removeAll, List.filter_cons_of_neg (by simpa using hx)]
      rfl
    · rw [if_neg hx, List.removeAll, List.filter_cons_of_pos (by simpa using hx)]
      rfl
  rw [hsplit, addNew]
  by_cases hx : x ∈ xs
  · rw [if_pos hx, if_pos (mem_firstOccurrences.mpr hx), List.append_nil]
  · rw [if_neg hx, if_neg fun hmem => hx (mem_firstOccurrences.mp hmem)]

/-- The first occurrences grow from nothing, by one new element after another. -/
theorem firstOccurrences_eq_foldl (xs : List String) :
    firstOccurrences xs = xs.foldl addNew [] := by
  induction xs using List.reverseRecOn with
  | nil => rfl
  | append_singleton xs x ih =>
      rw [firstOccurrences_concat, ih, List.foldl_append]
      rfl

/-- Elements that are added to a list are added to what is kept of it. -/
theorem firstOccurrences_append_eq_foldl (xs ys : List String) :
    firstOccurrences (xs ++ ys) = ys.foldl addNew (firstOccurrences xs) := by
  rw [firstOccurrences_eq_foldl, List.foldl_append, ← firstOccurrences_eq_foldl]

theorem notSeenBefore_concat (xs : List String) (x : String) :
    notSeenBefore (xs ++ [x]) = notSeenBefore xs ++ (if x ∈ xs then [] else [x]) := by
  -- Before the places of the first list stands only what stood there without the new element.
  have hbefore : xs.zipIdx.filter (fun placed => placed.1 ∉ (xs ++ [x]).take placed.2)
      = xs.zipIdx.filter fun placed => placed.1 ∉ xs.take placed.2 := by
    refine List.filter_congr fun placed hplaced => ?_
    rw [List.take_append_of_le_length (Nat.le_of_lt (List.snd_lt_of_mem_zipIdx hplaced))]
  rw [notSeenBefore, List.zipIdx_append, Nat.zero_add, List.filter_append, hbefore,
    List.map_append, ← notSeenBefore, List.zipIdx_singleton]
  congr 1
  by_cases hx : x ∈ xs
  · rw [List.filter_cons_of_neg (by simpa using hx), if_pos hx]
    rfl
  · rw [List.filter_cons_of_pos (by simpa using hx), if_neg hx]
    rfl

/-- The walk keeps an element where it does not occur before its place. -/
theorem firstOccurrences_eq_notSeenBefore (xs : List String) :
    firstOccurrences xs = notSeenBefore xs := by
  induction xs using List.reverseRecOn with
  | nil => rfl
  | append_singleton xs x ih =>
      rw [firstOccurrences_concat, notSeenBefore_concat, ← ih, addNew]
      by_cases hx : x ∈ xs
      · rw [if_pos (mem_firstOccurrences.mpr hx), if_pos hx, List.append_nil]
      · rw [if_neg fun hmem => hx (mem_firstOccurrences.mp hmem), if_neg hx]

theorem notSeenBefore_sublist (xs : List String) : (notSeenBefore xs).Sublist xs := by
  have hkept : (notSeenBefore xs).Sublist (xs.zipIdx.map Prod.fst) := List.filter_sublist.map _
  rwa [List.zipIdx_map_fst] at hkept

/-- An identity has the groups of a list that do not occur before their place, in order: each member
    of the list once, as if only new groups were added one after another. Made again from its own
    groups it stays what it is, and so does one that is made from more groups if the repeats among
    the first of them were dropped before. So an impersonated identity, which is made from the
    caller's groups with all granted ones behind them, has the groups that come of adding each
    granted group that is new. -/
theorem groups_at_first_occurrence (username : String) (groups : List String) :
    (Identity.of username groups).groups = notSeenBefore groups ∧
    (Identity.of username groups).groups.Sublist groups ∧
    (Identity.of username groups).groups.Nodup ∧
    (∀ group, group ∈ (Identity.of username groups).groups ↔ group ∈ groups) ∧
    (Identity.of username groups).groups = groups.foldl addNew [] ∧
    Identity.of username (Identity.of username groups).groups = Identity.of username groups ∧
    (∀ more, (Identity.of username ((Identity.of username groups).groups ++ more)).groups
      = (Identity.of username (groups ++ more)).groups) ∧
    ∀ (caller : Identity) (targets : Impersonation.Targets),
      (Resolution.assumed caller targets).groups = targets.groups.foldl addNew caller.groups := by
  have hnodup : (firstOccurrences groups).Nodup := nodup_keepFirst ∅ groups
  refine ⟨firstOccurrences_eq_notSeenBefore groups, ?_, hnodup, fun _ => mem_firstOccurrences,
    firstOccurrences_eq_foldl groups, Identity.of_groups (.of username groups), fun more => ?_,
    fun caller targets => ?_⟩
  · change (firstOccurrences groups).Sublist groups
    rw [firstOccurrences_eq_notSeenBefore]
    exact notSeenBefore_sublist groups
  · change firstOccurrences (firstOccurrences groups ++ more) = firstOccurrences (groups ++ more)
    rw [firstOccurrences_append_eq_foldl, firstOccurrences_append_eq_foldl groups,
      firstOccurrences_of_nodup hnodup]
  · change firstOccurrences (caller.groups ++ targets.groups) = _
    rw [firstOccurrences_append_eq_foldl, firstOccurrences_of_nodup caller.nodup_groups]

end ForwardAuth
