import ForwardAuth.Identity
import ForwardAuth.Proofs.JsonCharacters
import ForwardAuth.Proofs.JsonRoundtrip
import Mathlib.Data.List.Induction

/-!
# The value that a written tree means

A tree is evaluated from its root, with a limit that counts down at every array and object. What
comes of it has nothing to do with counting: a tree means a value or it means none, and how deep it
is nested is a number of its own. So the two are stated apart, and a tree has a value exactly if it
is not too deep and means this value.

The rules of the meaning go by the parts of a tree. Only an object is more than its parts. Its names
may repeat, and what it means has each name once: it stands where it came first, and with the value
that came last. `KeepsLast` says no more than this, and no two objects have it of the same members.

## Main definitions

* `KeepsLast`: What counts of members in which names may repeat.
* `Written.depth`: How deep the arrays and objects of a tree are nested.
* `Means`: The value that a tree means.

## Theorems

* `Members.get?_insert`, `Members.names_insert`: What a member that is put in changes.
* `Members.keepsLast_iff`: What counts of members is what is kept of them.
* `value?_object`: An object is read member by member.
* `value?_eq_some_iff`: A tree has the value that it means, if it is not too deep.
-/

namespace ForwardAuth.Json

/-- The members are what counts of named members in which names may repeat: each name stands where
    it came first, and with the value that came last. -/
structure KeepsLast (named members : Members) : Prop where
  names : members.map Prod.fst = (named.map Prod.fst).eraseDups
  values : ∀ name, members.get? name = named.reverse.lookup name

/-- How deep the arrays and objects of a tree are nested. -/
def Written.depth : Written → Nat
  | .array items => (items.map Written.depth).foldr max 0 + 1
  | .object members => (members.map fun m => Written.depth m.2).foldr max 0 + 1
  | .null => 0
  | .bool _ => 0
  | .number _ => 0
  | .string _ => 0
termination_by w => sizeOf w
decreasing_by
  · next w hmem =>
    have hlt := List.sizeOf_lt_of_mem hmem
    simp only [Written.array.sizeOf_spec]
    omega
  · next hmem =>
    have hlt := List.sizeOf_lt_of_mem hmem
    rcases m with ⟨k, w⟩
    simp only [Written.object.sizeOf_spec, Prod.mk.sizeOf_spec] at hlt ⊢
    omega

/-- The tree means this value. An integer of 64 bits means itself, any other number a double, and a
    number beyond the doubles nothing. A string means what its pieces stand for, an array the values
    of its items, and an object what counts of its members. -/
inductive Means : Written → Json → Prop where
  | null : Means .null .null
  | bool (b : Bool) : Means (.bool b) (.bool b)
  | integer {n : Numeral} (hword : n.IsWord) : Means (.number n) (.number (.int n.integer))
  | double {n : Numeral} (hword : ¬ n.IsWord) (hbeyond : ¬ n.IsBeyond) :
    Means (.number n) (.number (.float n.double))
  | string {ps : List Piece} {s : String} (h : Stands ps s.toList) : Means (.string ps) (.string s)
  | array {items : List Written} {vs : List Json} (h : List.Forall₂ Means items vs) :
    Means (.array items) (.array vs)
  | object {parts : List (List Piece × Written)} {named members : Members}
    (hnames : List.Forall₂ (fun p m => Stands p.1 m.1.toList) parts named)
    (hvalues : List.Forall₂ Means (parts.map Prod.snd) (named.map Prod.snd))
    (hlast : KeepsLast named members) : Means (.object parts) (.object members)

/-! ## Lists -/

theorem foldr_max_le {ns : List Nat} {n : Nat} : ns.foldr max 0 ≤ n ↔ ∀ m ∈ ns, m ≤ n := by
  induction ns with
  | nil => exact iff_of_true (Nat.zero_le n) fun m hm => absurd hm List.not_mem_nil
  | cons m ns ih => rw [List.foldr_cons, Nat.max_le, ih, List.forall_mem_cons]

/-! ## Members whose names repeat -/

namespace Members

theorem get?_cons (m : String × Json) (ms : Members) (name : String) :
    get? (m :: ms) name = if name = m.1 then some m.2 else get? ms name := by
  rw [get?, get?, List.lookup_cons]
  by_cases h : name = m.1
  · rw [if_pos h, beq_iff_eq.mpr h]
  · rw [if_neg h, beq_eq_false_iff_ne.mpr h]

theorem get?_of_notMem {ms : Members} {name : String} (h : name ∉ ms.map Prod.fst) :
    get? ms name = none := by
  induction ms with
  | nil => rfl
  | cons m ms ih =>
      rw [List.map_cons, List.mem_cons, not_or] at h
      rw [get?_cons, if_neg h.1, ih h.2]

theorem get?_insert (ms : Members) (name : String) (value : Json) (name' : String) :
    (insert ms name value).get? name' = if name' = name then some value else ms.get? name' := by
  induction ms with
  | nil => rw [insert, get?_cons]
  | cons m ms ih =>
      rw [insert, get?_cons m ms]
      by_cases hname : m.1 = name
      · rw [if_pos hname, get?_cons, hname]
        by_cases hname' : name' = name
        · rw [if_pos hname', if_pos hname']
        · rw [if_neg hname', if_neg hname', if_neg hname']
      · rw [if_neg hname, get?_cons, ih]
        by_cases hm : name' = m.1
        · rw [if_pos hm, if_pos hm, if_neg fun h => hname (hm.symm.trans h)]
        · rw [if_neg hm, if_neg hm]

theorem names_insert (ms : Members) (name : String) (value : Json) :
    (insert ms name value).map Prod.fst
      = if name ∈ ms.map Prod.fst then ms.map Prod.fst else ms.map Prod.fst ++ [name] := by
  by_cases h : name ∈ ms.map Prod.fst
  · rw [if_pos h]
    induction ms with
    | nil => exact absurd h List.not_mem_nil
    | cons m ms ih =>
        rw [insert]
        by_cases hname : m.1 = name
        · rw [if_pos hname, List.map_cons, List.map_cons, hname]
        · rw [if_neg hname, List.map_cons, List.map_cons]
          rw [List.map_cons, List.mem_cons] at h
          rw [ih (h.resolve_left fun heq => hname heq.symm)]
  · rw [if_neg h, insert_of_notMem h, List.map_append, List.map_singleton]

/-- Of members with one name the last counts, in the place of the first. -/
theorem keepsLast_ofList (named : Members) : KeepsLast named (ofList named) := by
  induction named using List.reverseRecOn with
  | nil => exact ⟨rfl, fun name => rfl⟩
  | append_singleton named m ih =>
      have hlast : ofList (named ++ [m]) = insert (ofList named) m.1 m.2 := by
        rw [ofList, ofList, List.foldl_append]
        rfl
      rw [hlast]
      refine ⟨?_, fun name => ?_⟩
      · rw [names_insert, ih.names, List.map_append, List.map_singleton, List.eraseDups_append]
        by_cases hm : m.1 ∈ named.map Prod.fst
        · rw [if_pos (List.mem_eraseDups.mpr hm)]
          simp [List.removeAll, hm]
        · rw [if_neg fun h => hm (List.mem_eraseDups.mp h)]
          simp [List.removeAll, hm, List.eraseDups_cons]
      · rw [get?_insert, ih.values, List.reverse_append, List.reverse_singleton,
          List.singleton_append]
        exact (get?_cons m named.reverse name).symm

-- Members without repeated names are known from their names and the values under these.
theorem eq_of_get?_eq {ms ms' : Members} (hnodup : (ms.map Prod.fst).Nodup)
    (hnames : ms.map Prod.fst = ms'.map Prod.fst) (h : ∀ name, ms.get? name = ms'.get? name) :
    ms = ms' := by
  induction ms generalizing ms' with
  | nil => exact (List.map_eq_nil_iff.mp hnames.symm).symm
  | cons m ms ih =>
      cases ms' with
      | nil => cases hnames
      | cons m' ms' =>
          rw [List.map_cons, List.map_cons] at hnames
          rcases List.cons.inj hnames with ⟨hname, hlater⟩
          rw [List.map_cons, List.nodup_cons] at hnodup
          have hvalue := h m.1
          rw [get?_cons, get?_cons, if_pos rfl, if_pos hname] at hvalue
          have hrest : ∀ name, get? ms name = get? ms' name := by
            intro name
            by_cases hm : name = m.1
            · -- The name of the first member is that of no other.
              rw [hm, get?_of_notMem hnodup.1, get?_of_notMem (hlater ▸ hnodup.1)]
            · have hsame := h name
              rwa [get?_cons, get?_cons, if_neg hm, if_neg (hname ▸ hm)] at hsame
          rw [ih hnodup.2 hlater hrest, Prod.ext hname (Option.some.inj hvalue)]

/-- What counts of members is what is kept of them. -/
theorem keepsLast_iff {named members : Members} :
    KeepsLast named members ↔ members = ofList named := by
  constructor
  · intro h
    have hkept := keepsLast_ofList named
    refine eq_of_get?_eq ?_ (h.names.trans hkept.names.symm) fun name =>
      (h.values name).trans (hkept.values name).symm
    rw [h.names, ← firstOccurrences_eq_eraseDups]
    exact nodup_keepFirst ∅ _
  · rintro rfl
    exact keepsLast_ofList named

end Members

/-! ## Trees -/

theorem depth_array_le {items : List Written} {limit : Nat} :
    (Written.array items).depth ≤ limit + 1 ↔ ∀ w ∈ items, w.depth ≤ limit := by
  rw [Written.depth, Nat.succ_le_succ_iff, foldr_max_le, List.forall_mem_map]

theorem depth_object_le {parts : List (List Piece × Written)} {limit : Nat} :
    (Written.object parts).depth ≤ limit + 1 ↔ ∀ p ∈ parts, p.2.depth ≤ limit := by
  rw [Written.depth, Nat.succ_le_succ_iff, foldr_max_le, List.forall_mem_map]

/-- An object is read member by member, and then it is kept what counts. -/
theorem value?_object {parts : List (List Piece × Written)} {limit : Nat} {v : Json} :
    (Written.object parts).value? (limit + 1) = some v ↔ ∃ named,
      List.Forall₂ (fun p m => Stands p.1 m.1.toList ∧ p.2.value? limit = some m.2) parts named ∧
        v = .object (Members.ofList named) := by
  rw [Written.value?, Option.bind_eq_bind, Option.bind_eq_some_iff]
  refine exists_congr fun named => and_congr ?_ ?_
  · rw [mapM_eq_some_iff_forall₂]
    refine forall₂_congr_of_mem fun p _ m => ?_
    rw [Option.bind_eq_bind, Option.bind_eq_some_iff]
    constructor
    · rintro ⟨k, hk, hrest⟩
      rcases Option.bind_eq_some_iff.mp hrest with ⟨v, hv, hm⟩
      cases hm
      exact ⟨text?_eq_some_iff.mp hk, hv⟩
    · rintro ⟨hk, hv⟩
      exact ⟨m.1, text?_eq_some_iff.mpr hk, Option.bind_eq_some_iff.mpr ⟨m.2, hv, rfl⟩⟩
  · exact ⟨fun h => (Option.some.inj h).symm, fun h => congrArg some h.symm⟩

/-- A tree has a value exactly if it is no deeper than the limit and means this value. By induction
    on the tree; the limit of the parts is one less. -/
theorem value?_eq_some_iff {w : Written} {limit : Nat} {v : Json} :
    w.value? limit = some v ↔ w.depth ≤ limit ∧ Means w v := by
  induction w using Written.tokens.induct generalizing limit v with
  | case1 =>
      rw [Written.value?, Written.depth]
      constructor
      · rintro ⟨⟩
        exact ⟨Nat.zero_le _, .null⟩
      · rintro ⟨-, ⟨⟩⟩
        rfl
  | case2 b =>
      rw [Written.value?, Written.depth]
      constructor
      · rintro ⟨⟩
        exact ⟨Nat.zero_le _, .bool b⟩
      · rintro ⟨-, ⟨⟩⟩
        rfl
  | case3 n =>
      rw [Written.value?, Option.map_eq_some_iff, Written.depth]
      constructor
      · rintro ⟨x, hx, rfl⟩
        rcases Numeral.value?_eq_some_iff.mp hx with ⟨hword, rfl⟩ | ⟨hword, hbeyond, rfl⟩
        · exact ⟨Nat.zero_le _, .integer hword⟩
        · exact ⟨Nat.zero_le _, .double hword hbeyond⟩
      · rintro ⟨-, hmeans⟩
        cases hmeans with
        | integer hword => exact ⟨_, Numeral.value?_eq_some_iff.mpr (.inl ⟨hword, rfl⟩), rfl⟩
        | double hword hbeyond =>
            exact ⟨_, Numeral.value?_eq_some_iff.mpr (.inr ⟨hword, hbeyond, rfl⟩), rfl⟩
  | case4 ps =>
      rw [Written.value?, Option.map_eq_some_iff, Written.depth]
      constructor
      · rintro ⟨s, hs, rfl⟩
        exact ⟨Nat.zero_le _, .string (text?_eq_some_iff.mp hs)⟩
      · rintro ⟨-, hmeans⟩
        cases hmeans with
        | string h => exact ⟨_, text?_eq_some_iff.mpr h, rfl⟩
  | case5 items ih =>
      cases limit with
      | zero =>
          rw [Written.value?, Written.depth]
          exact iff_of_false (by rintro ⟨⟩) fun h => absurd h.1 (Nat.not_succ_le_zero _)
      | succ limit =>
          have hitems : ∀ vs, items.mapM (Written.value? limit) = some vs ↔
              (∀ w ∈ items, w.depth ≤ limit) ∧ List.Forall₂ Means items vs := by
            intro vs
            rw [mapM_eq_some_iff_forall₂, forall₂_congr_of_mem fun w hw v => ih w hw,
              List.forall₂_and_left]
          rw [Written.value?, Option.map_eq_some_iff, depth_array_le]
          constructor
          · rintro ⟨vs, hvs, rfl⟩
            rcases (hitems vs).mp hvs with ⟨hdepths, hmeans⟩
            exact ⟨hdepths, .array hmeans⟩
          · rintro ⟨hdepths, hmeans⟩
            cases hmeans with
            | array h => exact ⟨_, (hitems _).mpr ⟨hdepths, h⟩, rfl⟩
  | case6 parts ih =>
      cases limit with
      | zero =>
          rw [Written.value?, Written.depth]
          exact iff_of_false (by rintro ⟨⟩) fun h => absurd h.1 (Nat.not_succ_le_zero _)
      | succ limit =>
          have hparts : ∀ named : Members,
              List.Forall₂ (fun p m => Stands p.1 m.1.toList ∧ p.2.value? limit = some m.2)
                parts named ↔
              (∀ p ∈ parts, p.2.depth ≤ limit) ∧
                List.Forall₂ (fun p m => Stands p.1 m.1.toList) parts named ∧
                List.Forall₂ Means (parts.map Prod.snd) (named.map Prod.snd) := by
            intro named
            rw [forall₂_and_iff, forall₂_congr_of_mem fun p hp m => ih p hp,
              List.forall₂_and_left, List.forall₂_map_left_iff, List.forall₂_map_right_iff]
            exact and_left_comm
          rw [value?_object, depth_object_le]
          constructor
          · rintro ⟨named, hnamed, rfl⟩
            rcases (hparts named).mp hnamed with ⟨hdepths, hnames, hvalues⟩
            exact ⟨hdepths, .object hnames hvalues (Members.keepsLast_ofList named)⟩
          · rintro ⟨hdepths, hmeans⟩
            cases hmeans with
            | object hnames hvalues hlast =>
                exact ⟨_, (hparts _).mpr ⟨hdepths, hnames, hvalues⟩,
                  congrArg Json.object (Members.keepsLast_iff.mp hlast)⟩

end ForwardAuth.Json
