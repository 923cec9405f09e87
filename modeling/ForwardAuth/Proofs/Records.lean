import ForwardAuth.Proofs.JsonReading
import ForwardAuth.Proofs.Partwise
import ForwardAuth.Review.Wire

/-!
# Records in JSON

What is asked for in an answer is a record, an object with some known names. An array may stand for
it, and gives the values in the order of the names. A record is formed well if it says no more than
once what it is asked for, and it has a shape if the values that it gives do.

The reader takes all fields of a record at once and then reads them one by one. Here this is brought
back to one field: `valueOf?` is the value under a name, and a well-formed record is read as the
values of its names. Two answers are compared with their shapes in this way, and neither has to look
into the reading of fields again.

## Main definitions

* `valuesOf`, `valueOf?`: What a record gives under a name.
* `IsRecord`: A record that is formed well.
* `HasShape`: A record whose values have given shapes.
* `Says`, `SaysAll`: A value that is a text, or a list of texts.

## Theorems

* `fields?_eq_some_iff`, `field_eq_some_iff`: The fields of a record are read as its values.
* `text?_eq_some_iff`, `texts?_eq_some_iff`: Texts are read as what they say.
* `exists_readOr_iff`: A field is read if it is left out or can be read.
-/

namespace ForwardAuth.Review

open Json (Written Piece)

/-- The values that a record gives under a name. An array has them in the order of the names. -/
def valuesOf (names : List String) (w : Written) (name : String) : List Written :=
  match w with
  | .object members => (members.filter fun m => Piece.text? m.1 = some name).map Prod.snd
  | .array items => ((names.zip items).filter fun f => f.1 = name).map Prod.snd
  | _ => []

/-- The value that a record gives under a name. -/
def valueOf? (names : List String) (w : Written) (name : String) : Option Written :=
  (valuesOf names w name).head?

/-- The value is a record of these names: an object with texts as keys, which gives none of the
    names twice, or an array with no more items than there are names. -/
def IsRecord (names : List String) (w : Written) : Prop :=
  match w with
  | .object members => (∀ m ∈ members, ∃ key, Piece.text? m.1 = some key) ∧
      ∀ name ∈ names, (valuesOf names w name).length ≤ 1
  | .array items => items.length ≤ names.length
  | _ => False

/-- The value is a record, and what it gives under each of the names is of its shape. -/
def HasShape (fields : List (String × (Written → Prop))) (w : Written) : Prop :=
  IsRecord (fields.map Prod.fst) w ∧
    ∀ f ∈ fields, ∀ v, valueOf? (fields.map Prod.fst) w f.1 = some v → f.2 v

/-- The value is this text. -/
def Says (w : Written) (s : String) : Prop :=
  ∃ ps, w = .string ps ∧ Piece.text? ps = some s

/-- The value is a list of these texts. -/
def SaysAll (w : Written) (texts : List String) : Prop :=
  ∃ items, w = .array items ∧ List.Forall₂ Says items texts

/-! ## The fields of a record -/

theorem field?_eq_some_iff {members : List (String × Written)} {name : String}
    {value : Option Written} : field? members name = some value ↔
      ((members.filter fun m => m.1 = name).map Prod.snd).length ≤ 1 ∧
        value = ((members.filter fun m => m.1 = name).map Prod.snd).head? := by
  rw [field?]
  generalize members.filter (fun m => m.1 = name) = found
  rcases found with _ | ⟨m, _ | ⟨m', rest⟩⟩
  · exact ⟨fun h => ⟨Nat.zero_le 1, (Option.some.inj h).symm⟩, fun h => congrArg some h.2.symm⟩
  · exact ⟨fun h => ⟨Nat.le_refl 1, (Option.some.inj h).symm⟩, fun h => congrArg some h.2.symm⟩
  · refine iff_of_false (by rintro ⟨⟩) fun h => ?_
    simp only [List.map_cons, List.length_cons] at h
    omega

-- The names of an object are read before its fields, and none of them is lost in this.
theorem fields?_object {names : List String} {members : List (List Piece × Written)}
    {values : List (Option Written)} : fields? names (.object members) = some values ↔
      IsRecord names (.object members) ∧
        values = names.map (valueOf? names (.object members)) := by
  have hkeys : ∀ (m : List Piece × Written) (named : String × Written),
      (Piece.text? m.1).map (fun k => (k, m.2)) = some named ↔
        (∃ key, Piece.text? m.1 = some key) ∧ named = ((Piece.text? m.1).getD "", m.2) := by
    intro m named
    cases htext : Piece.text? m.1 with
    | none => exact iff_of_false (by rintro ⟨⟩) fun ⟨⟨_, hkey⟩, _⟩ => by cases hkey
    | some key =>
        exact ⟨fun h => ⟨⟨key, rfl⟩, (Option.some.inj h).symm⟩, fun h => congrArg some h.2.symm⟩
  have hvalues : ∀ name, (∀ m ∈ members, ∃ key, Piece.text? m.1 = some key) →
      ((members.map fun m => ((Piece.text? m.1).getD "", m.2)).filter
        fun m => m.1 = name).map Prod.snd = valuesOf names (.object members) name := by
    intro name htexts
    rw [valuesOf, List.filter_map, List.map_map]
    congr 1
    refine List.filter_congr fun m hm => ?_
    rcases htexts m hm with ⟨key, hkey⟩
    simp only [Function.comp_apply, hkey, Option.getD_some, Option.some.injEq]
  rw [fields?, Option.bind_eq_bind, Option.bind_eq_some_iff]
  constructor
  · rintro ⟨named, hnamed, hfields⟩
    rcases (mapM_eq_some_iff_of hkeys).mp hnamed with ⟨htexts, rfl⟩
    rcases (mapM_eq_some_iff_of fun _ _ => field?_eq_some_iff).mp hfields with ⟨honce, rfl⟩
    refine ⟨⟨htexts, fun name hname => ?_⟩, List.map_congr_left fun name _ => ?_⟩
    · rw [← hvalues name htexts]
      exact honce name hname
    · rw [hvalues name htexts, valueOf?]
  · rintro ⟨⟨htexts, honce⟩, rfl⟩
    refine ⟨_, (mapM_eq_some_iff_of hkeys).mpr ⟨htexts, rfl⟩,
      (mapM_eq_some_iff_of fun _ _ => field?_eq_some_iff).mpr ⟨fun name hname => ?_,
        List.map_congr_left fun name _ => ?_⟩⟩
    · rw [hvalues name htexts]
      exact honce name hname
    · rw [hvalues name htexts, valueOf?]

-- Each item of an array is found at its own name, as the names differ.
theorem map_valueOf?_array {names : List String} (hnames : names.Nodup) {items : List Written}
    (h : items.length ≤ names.length) :
    names.map (valueOf? names (.array items))
      = items.map some ++ List.replicate (names.length - items.length) none := by
  induction names generalizing items with
  | nil =>
      rw [List.length_eq_zero_iff.mp (Nat.le_zero.mp h)]
      rfl
  | cons name names ih =>
      rcases List.nodup_cons.mp hnames with ⟨hnew, hlater⟩
      cases items with
      | nil =>
          refine (List.map_congr_left fun name' _ => ?_).trans List.map_const'
          rw [valueOf?, valuesOf, List.zip_nil_right]
          rfl
      | cons item items =>
          have hfirst : valueOf? (name :: names) (.array (item :: items)) name = some item := by
            rw [valueOf?, valuesOf, List.zip_cons_cons, List.filter_cons_of_pos (by simp)]
            rfl
          have hrest : ∀ name' ∈ names, valueOf? (name :: names) (.array (item :: items)) name'
              = valueOf? names (.array items) name' := by
            intro name' hname'
            have hne : ¬ name = name' := fun heq => hnew (heq ▸ hname')
            rw [valueOf?, valuesOf, List.zip_cons_cons,
              List.filter_cons_of_neg (by simpa using hne), valueOf?, valuesOf]
          have hlength : items.length ≤ names.length := Nat.le_of_succ_le_succ h
          rw [List.map_cons, hfirst, List.map_congr_left hrest, ih hlater hlength, List.length_cons,
            List.length_cons, Nat.succ_sub_succ]
          rfl

/-- The fields of a record are read as its values. -/
theorem fields?_eq_some_iff {names : List String} (hnames : names.Nodup) {w : Written}
    {values : List (Option Written)} :
    fields? names w = some values ↔ IsRecord names w ∧ values = names.map (valueOf? names w) := by
  cases w with
  | object members => exact fields?_object
  | array items =>
      rw [fields?, IsRecord]
      by_cases hlength : items.length ≤ names.length
      · rw [if_pos hlength, map_valueOf?_array hnames hlength]
        exact ⟨fun h => ⟨hlength, (Option.some.inj h).symm⟩, fun h => congrArg some h.2.symm⟩
      · rw [if_neg hlength]
        exact iff_of_false (by rintro ⟨⟩) fun h => hlength h.1
  | null => exact iff_of_false (by rintro ⟨⟩) fun h => h.1
  | bool b => exact iff_of_false (by rintro ⟨⟩) fun h => h.1
  | number n => exact iff_of_false (by rintro ⟨⟩) fun h => h.1
  | string ps => exact iff_of_false (by rintro ⟨⟩) fun h => h.1

theorem fields?_of_not_isRecord {names : List String} (hnames : names.Nodup) {w : Written}
    (h : ¬ IsRecord names w) : fields? names w = none :=
  Option.eq_none_iff_forall_ne_some.mpr fun _ hvalues =>
    h ((fields?_eq_some_iff hnames).mp hvalues).1

/-- A record of one name is read as its value. -/
theorem field_eq_some_iff {name : String} {w : Written} {α : Type}
    {read : Option Written → Option α} {a : α} :
    (match fields? [name] w with
      | some [value] => read value
      | _ => none) = some a ↔ IsRecord [name] w ∧ read (valueOf? [name] w name) = some a := by
  have hnames : [name].Nodup := List.pairwise_singleton _ name
  by_cases hrecord : IsRecord [name] w
  · rw [(fields?_eq_some_iff hnames).mpr ⟨hrecord, rfl⟩]
    exact ⟨fun h => ⟨hrecord, h⟩, fun h => h.2⟩
  · rw [fields?_of_not_isRecord hnames hrecord]
    exact iff_of_false (by rintro ⟨⟩) fun h => hrecord h.1

/-! ## The values of fields -/

theorem bool?_eq_some_iff {w : Written} {b : Bool} : bool? w = some b ↔ w = .bool b := by
  constructor
  · intro h
    unfold bool? at h
    split at h
    · rw [Option.some.inj h]
    · cases h
  · rintro rfl
    rfl

theorem text?_eq_some_iff {w : Written} {s : String} : text? w = some s ↔ Says w s := by
  constructor
  · intro h
    unfold text? at h
    split at h
    · exact ⟨_, rfl, h⟩
    · cases h
  · rintro ⟨ps, rfl, h⟩
    exact h

theorem texts?_eq_some_iff {w : Written} {texts : List String} :
    texts? w = some texts ↔ SaysAll w texts := by
  have hitems : ∀ (items : List Written) (texts : List String),
      items.mapM text? = some texts ↔ List.Forall₂ Says items texts := fun items texts => by
    rw [mapM_eq_some_iff_forall₂]
    exact forall₂_congr_of_mem fun item _ text => text?_eq_some_iff
  constructor
  · intro h
    unfold texts? at h
    split at h
    · exact ⟨_, rfl, (hitems _ texts).mp h⟩
    · cases h
  · rintro ⟨items, rfl, h⟩
    exact (hitems items texts).mpr h

theorem nullable?_eq_some_iff {w : Written} {text : Option String} : nullable? w = some text ↔
    (w = .null ∧ text = none) ∨ ∃ s, Says w s ∧ text = some s := by
  constructor
  · intro h
    unfold nullable? at h
    split at h
    · exact Or.inl ⟨rfl, (Option.some.inj h).symm⟩
    · rcases Option.map_eq_some_iff.mp h with ⟨s, hs, rfl⟩
      exact Or.inr ⟨s, text?_eq_some_iff.mp hs, rfl⟩
  · rintro (⟨rfl, rfl⟩ | ⟨s, ⟨ps, rfl, hs⟩, rfl⟩)
    · rfl
    · exact Option.map_eq_some_iff.mpr ⟨s, hs, rfl⟩

/-- A field is read if it is left out or can be read. -/
theorem exists_readOr_iff {α : Type} {default : α} {read : Written → Option α}
    {value : Option Written} : (∃ a, readOr default read value = some a) ↔
      ∀ v, value = some v → ∃ a, read v = some a := by
  cases value with
  | none => exact iff_of_true ⟨default, rfl⟩ (by rintro v ⟨⟩)
  | some v => exact ⟨fun h v' hv' => Option.some.inj hv' ▸ h, fun h => h v rfl⟩

end ForwardAuth.Review
