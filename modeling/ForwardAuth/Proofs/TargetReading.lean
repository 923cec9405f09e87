import ForwardAuth.Proofs.Naming
import ForwardAuth.Proofs.ReceivedFields

/-!
# Which targets a request names

If all values of both names are legible, the first that is said of the user and all that are said of
the groups are the targets (`Reading`). Otherwise nothing is read, not even from the values that are
legible, and the refusal names the user first. `texts?_spec` is this for one name.

The rest follows from it. The targets are bare, they are read again from fields that hold nothing
else, and neither padding nor other fields change them.

## Main definitions

* `Targets.fields`: The fields that name some targets.
* `Targets.Reading`: What is read of the fields, with one rule for each outcome.
* `Targets.spoken`: The values of a name that are not blank.

## Theorems

* `texts?_spec`: What is read for a name, or that a value of it is not legible.
* `Reading.unique`, `ofHeaders_eq_iff`: The targets are those that the fields name.
* `target_spec`: A target is trimmed, not empty, and legible.
* `isEmpty_iff`: There are no targets exactly if all values are blank.
* `ofHeaders_fields`: The targets are read again from the fields that name them.
* `ofHeaders_of_spoken`: Only the values that are not blank matter.
* `targets_read`: Which targets a request names.
-/

namespace ForwardAuth

namespace Impersonation.Targets

open Http (Headers HeaderName HeaderValue Legible given said stripped isPadding charOf)

variable {received : List (String × List UInt8)} {headers : Headers}

/-- The bytes of a text. -/
def bytesOf (text : String) : List UInt8 :=
  text.toUTF8.toList

/-- The fields that name the targets. -/
def fields (t : Targets) : List (String × List UInt8) :=
  (t.user.toList.map fun user => ("impersonate-user", bytesOf user))
    ++ t.groups.map fun group => ("impersonate-group", bytesOf group)

/-- What is read of the fields that were received, with one rule for each outcome. -/
inductive Reading (received : List (String × List UInt8)) : Except Refusal Targets → Prop where
  | targets {t : Targets}
      (hlegible : ∀ value ∈ given "impersonate-user" received ++ given "impersonate-group" received,
        Legible value)
      (huser : t.user.map bytesOf = (said "impersonate-user" received).head?)
      (hgroups : t.groups.map bytesOf = said "impersonate-group" received) :
      Reading received (.ok t)
  | user {value : List UInt8} (hvalue : value ∈ given "impersonate-user" received)
      (hnot : ¬ Legible value) :
      Reading received
        (.error (.invalidImpersonationHeader "impersonate-user must be visible ASCII"))
  | group {value : List UInt8}
      (hlegible : ∀ value ∈ given "impersonate-user" received, Legible value)
      (hvalue : value ∈ given "impersonate-group" received) (hnot : ¬ Legible value) :
      Reading received
        (.error (.invalidImpersonationHeader "impersonate-group must be visible ASCII"))

theorem bytesOf_injective {s t : String} (h : bytesOf s = bytesOf t) : s = t :=
  eq_of_toUTF8_eq h

theorem isEmpty_bytesOf (s : String) : (bytesOf s).isEmpty = s.isEmpty := by
  rw [Bool.eq_iff_iff, List.isEmpty_iff, String.isEmpty_iff]
  refine ⟨fun h => bytesOf_injective (h.trans ?_), fun h => ?_⟩
  · decide +kernel
  · rw [h]
    decide +kernel

theorem filter_bytesOf (texts : List String) :
    (texts.map bytesOf).filter (fun value => !value.isEmpty)
      = (texts.filter fun text => !text.isEmpty).map bytesOf := by
  have hsame : (fun value : List UInt8 => !value.isEmpty) ∘ bytesOf
      = fun text => !text.isEmpty := by
    funext text
    exact congrArg (!·) (isEmpty_bytesOf text)
  rw [List.filter_map, hsame]

/-! ## What is read for a name -/

/-- What is read for a name is what its values say, if all of them are legible. -/
theorem texts?_spec (h : Headers.ofFields? received = some headers) (name : String) :
    (∃ texts, texts? headers ⟨name⟩ = some texts ∧ (∀ value ∈ given name received, Legible value) ∧
      texts.map bytesOf = said name received ∧ ∀ text ∈ texts, ∃ s, text = Text.trim s) ∨
    (texts? headers ⟨name⟩ = none ∧ ∃ value ∈ given name received, ¬ Legible value) := by
  have hvalues := Http.values_of_ofFields? h name
  have htext : ∀ (value : HeaderValue) (s : String),
      value.text? = some s ↔ Legible value.bytes ∧ s = String.ofList (value.bytes.map charOf) := by
    intro value s
    rw [HeaderValue.text?_eq_some_iff]
    constructor
    · rintro ⟨hall, hs⟩
      exact ⟨fun b hb => (Http.isTextByte_iff b).mp (hall b hb),
        eq_of_toUTF8_eq (hs.trans (HeaderValue.toUTF8_of_isTextByte hall).symm)⟩
    · rintro ⟨hlegible, rfl⟩
      have hall : ∀ b ∈ value.bytes, Http.isTextByte b = true :=
        fun b hb => Http.isTextByte_of_legible hlegible hb
      exact ⟨hall, HeaderValue.toUTF8_of_isTextByte hall⟩
  -- A value has a text if it is legible, so all of them have or none is read.
  by_cases hlegible : ∀ value ∈ given name received, Legible value
  · left
    have hbytes : ∀ value ∈ headers.values ⟨name⟩, Legible value.bytes := fun value hvalue =>
      hlegible _ (hvalues ▸ List.mem_map_of_mem hvalue)
    have hread := (mapM_eq_some_iff_of htext).mpr ⟨hbytes, rfl⟩
    refine ⟨_, by rw [texts?, hread]; rfl, hlegible, ?_, fun text hmem => ?_⟩
    · have hstripped : (given name received).map stripped
          = (((headers.values ⟨name⟩).map fun value => String.ofList (value.bytes.map charOf)).map
              Text.trim).map bytesOf := by
        rw [← hvalues, List.map_map, List.map_map, List.map_map]
        exact List.map_congr_left fun value hvalue =>
          (Http.toUTF8_trim (hbytes value hvalue)).symm
      rw [said, hstripped, filter_bytesOf]
    · rcases List.mem_map.mp (List.mem_filter.mp hmem).1 with ⟨s, -, rfl⟩
      exact ⟨s, rfl⟩
  · right
    rw [not_forall] at hlegible
    rcases hlegible with ⟨value, hvalue⟩
    rw [Classical.not_imp] at hvalue
    refine ⟨?_, value, hvalue⟩
    rw [texts?, Option.bind_eq_bind, Option.bind_eq_none_iff]
    intro texts hread
    have hbytes := ((mapM_eq_some_iff_of htext).mp hread).1
    rw [← hvalues] at hvalue
    rcases List.mem_map.mp hvalue.1 with ⟨given, hgiven, rfl⟩
    exact absurd (hbytes given hgiven) hvalue.2

/-! ## Which targets are read -/

theorem reading_ofHeaders (h : Headers.ofFields? received = some headers) :
    Reading received (ofHeaders headers) := by
  unfold ofHeaders userHeader groupHeader
  -- The user is read before the groups, so it is refused first.
  rcases texts?_spec h "impersonate-user" with
    ⟨users, husers, hlegible, hsaid, -⟩ | ⟨hnone, value, hvalue, hnot⟩
  · rcases texts?_spec h "impersonate-group" with
      ⟨groups, hgroups, hlegible', hsaid', -⟩ | ⟨hnone, value, hvalue, hnot⟩
    · rw [husers, hgroups]
      refine .targets (fun value hvalue => ?_) ?_ hsaid'
      · exact (List.mem_append.mp hvalue).elim (hlegible value) (hlegible' value)
      · rw [← hsaid, List.head?_map]
    · rw [husers, hnone]
      exact .group hlegible hvalue hnot
  · rw [hnone]
    exact .user hvalue hnot

theorem Reading.unique {r r' : Except Refusal Targets} (h : Reading received r)
    (h' : Reading received r') : r = r' := by
  cases h with
  | @targets t hlegible huser hgroups =>
      cases h' with
      | @targets t' hlegible' huser' hgroups' =>
          have hsame : t.user = t'.user :=
            Option.map_injective (fun _ _ => bytesOf_injective) (huser.trans huser'.symm)
          have hsame' : t.groups = t'.groups :=
            List.map_injective_iff.mpr (fun _ _ => bytesOf_injective) (hgroups.trans hgroups'.symm)
          rw [show t = t' from by cases t; cases t'; cases hsame; cases hsame'; rfl]
      | user hvalue hnot => exact absurd (hlegible _ (List.mem_append_left _ hvalue)) hnot
      | group _ hvalue hnot => exact absurd (hlegible _ (List.mem_append_right _ hvalue)) hnot
  | user hvalue hnot =>
      cases h' with
      | targets hlegible _ _ => exact absurd (hlegible _ (List.mem_append_left _ hvalue)) hnot
      | user _ _ => rfl
      | group hlegible _ _ => exact absurd (hlegible _ hvalue) hnot
  | group hlegible hvalue hnot =>
      cases h' with
      | targets hlegible _ _ => exact absurd (hlegible _ (List.mem_append_right _ hvalue)) hnot
      | user hvalue' hnot' => exact absurd (hlegible _ hvalue') hnot'
      | group _ _ _ => rfl

/-- The targets of a request are those that its fields name. -/
theorem ofHeaders_eq_iff (h : Headers.ofFields? received = some headers)
    (r : Except Refusal Targets) : ofHeaders headers = r ↔ Reading received r :=
  ⟨fun hr => hr ▸ reading_ofHeaders h, fun hr => (reading_ofHeaders h).unique hr⟩

theorem reading_of_ok (h : Headers.ofFields? received = some headers) {t : Targets}
    (ht : ofHeaders headers = .ok t) :
    (∀ value ∈ given "impersonate-user" received ++ given "impersonate-group" received,
      Legible value) ∧
    t.user.map bytesOf = (said "impersonate-user" received).head? ∧
    t.groups.map bytesOf = said "impersonate-group" received := by
  cases (ofHeaders_eq_iff h _).mp ht with
  | targets hlegible huser hgroups => exact ⟨hlegible, huser, hgroups⟩

/-! ## What the targets are like -/

theorem legible_of_mem_said {name : String} {value : List UInt8}
    (h : ∀ value ∈ given name received, Legible value) (hvalue : value ∈ said name received) :
    Legible value := by
  rcases List.mem_map.mp (List.mem_filter.mp hvalue).1 with ⟨whole, hwhole, rfl⟩
  exact (h whole hwhole).stripped

/-- A target is trimmed, it is not empty, and its bytes are legible. -/
theorem target_spec (h : Headers.ofFields? received = some headers) {t : Targets}
    (ht : ofHeaders headers = .ok t) (target : String)
    (hmem : target ∈ t.user.toList ++ t.groups) : target ≠ "" ∧ Text.Bare target.toList ∧
      Text.trim target = target ∧ Legible (bytesOf target) := by
  rcases ofHeaders_eq_ok ht with ⟨users, groups, husers, hgroups, rfl⟩
  -- Every target is among the texts that are read for one of the two names.
  have hread : ∀ {name : String} {texts : List String}, texts? headers ⟨name⟩ = some texts →
      target ∈ texts → target ≠ "" ∧ Text.Bare target.toList ∧ Text.trim target = target ∧
        Legible (bytesOf target) := by
    intro name texts htexts htarget
    rcases texts?_spec h name with ⟨texts', htexts', hlegible, hsaid, htrim⟩ | ⟨hnone, -⟩
    · rw [htexts] at htexts'
      cases htexts'
      rcases htrim target htarget with ⟨s, rfl⟩
      have hbare : Text.Bare (Text.trim s).toList := by
        rcases Text.exists_of_trimChars s.toList with ⟨-, -, -, -, hbare⟩
        rw [Text.trim, String.toList_ofList]
        exact hbare
      have htrimmed := Text.trimChars_append [] (Text.trim s).toList [] (fun c hc => by cases hc)
        hbare
      rw [List.nil_append, List.append_nil] at htrimmed
      refine ⟨ne_empty_of_mem_texts? htexts htarget, hbare, ?_, ?_⟩
      · rw [Text.trim, htrimmed, String.ofList_toList]
      · exact legible_of_mem_said hlegible (hsaid ▸ List.mem_map_of_mem htarget)
    · rw [htexts] at hnone
      cases hnone
  rcases List.mem_append.mp hmem with hmem | hmem
  · exact hread husers (List.mem_of_mem_head? (Option.mem_toList.mp hmem))
  · exact hread hgroups hmem

theorem isEmpty_iff (h : Headers.ofFields? received = some headers) {t : Targets}
    (ht : ofHeaders headers = .ok t) : t.isEmpty = true ↔
      ∀ value ∈ given "impersonate-user" received ++ given "impersonate-group" received,
        ∀ b ∈ value, isPadding b = true := by
  have hsilent : ∀ name, said name received = [] ↔
      ∀ value ∈ given name received, ∀ b ∈ value, isPadding b = true := by
    intro name
    rw [said, List.filter_eq_nil_iff, List.forall_mem_map]
    refine forall₂_congr fun value _ => ?_
    rw [Bool.not_eq_true', Bool.not_eq_false, List.isEmpty_iff, Http.stripped_eq_nil_iff]
  rcases reading_of_ok h ht with ⟨-, huser, hgroups⟩
  have hnobody : t.user.isNone = true ↔ said "impersonate-user" received = [] := by
    rw [Option.isNone_iff_eq_none, ← Option.map_eq_none_iff (f := bytesOf), huser,
      List.head?_eq_none_iff]
  have hnogroup : t.groups.isEmpty = true ↔ said "impersonate-group" received = [] := by
    rw [List.isEmpty_iff, ← List.map_eq_nil_iff (f := bytesOf), hgroups]
  rw [isEmpty, Bool.and_eq_true, hnobody, hnogroup, hsilent, hsilent, List.forall_mem_append]

/-! ## The targets, sent again -/

theorem ofFields?_map (name : String) {texts : List String}
    (hname : (HeaderName.ofString? name).isSome = true)
    (h : ∀ text ∈ texts, Legible (bytesOf text)) :
    ∃ headers, Headers.ofFields? (texts.map fun text => (name, bytesOf text)) = some headers := by
  induction texts with
  | nil => exact ⟨[], rfl⟩
  | cons text texts ih =>
      rcases Option.isSome_iff_exists.mp hname with ⟨n, hn⟩
      rcases ih fun text hmem => h text (List.mem_cons_of_mem _ hmem) with ⟨rest, hrest⟩
      have hvalue : Writable text := fun b hb =>
        (h text List.mem_cons_self b hb).imp id fun hb => ⟨hb.1, UInt8.ne_of_lt hb.2⟩
      rcases (HeaderValue.exists_ofString?_iff text).mpr hvalue with ⟨value, hvalue⟩
      exact ⟨_, Http.ofFields?_cons.mpr ⟨n, value, rest, hn, hvalue, hrest, rfl⟩⟩

theorem said_of_trimmed {name : String} {fields : List (String × List UInt8)} {texts : List String}
    (hgiven : given name fields = texts.map bytesOf)
    (h : ∀ text ∈ texts, text ≠ "" ∧ Text.trim text = text ∧ Legible (bytesOf text)) :
    said name fields = texts.map bytesOf := by
  have hstripped : (texts.map bytesOf).map stripped = texts.map bytesOf := by
    rw [List.map_map]
    refine List.map_congr_left fun text hmem => ?_
    rcases h text hmem with ⟨-, htrim, hlegible⟩
    exact (Http.stripped_toUTF8 hlegible).trans (by rw [htrim]; rfl)
  have hall : texts.filter (fun text => !text.isEmpty) = texts := by
    rw [List.filter_eq_self]
    intro text hmem
    rw [Bool.not_eq_true', Bool.eq_false_iff, Ne, String.isEmpty_iff]
    exact (h text hmem).1
  rw [said, hgiven, hstripped, filter_bytesOf, hall]

theorem given_map (name name' : String) (texts : List String) :
    given name (texts.map fun text => (name', bytesOf text))
      = if name'.toList.map Char.toLower = name.toList then texts.map bytesOf else [] := by
  induction texts with
  | nil =>
      split
      · rfl
      · rfl
  | cons text texts ih =>
      rw [given] at ih ⊢
      rw [List.map_cons]
      by_cases hname : name'.toList.map Char.toLower = name.toList
      · have hnamed : Http.named name (name', bytesOf text) = true := decide_eq_true hname
        rw [if_pos hname] at ih ⊢
        rw [List.filter_cons_of_pos hnamed, List.map_cons, ih, List.map_cons]
      · have hnamed : ¬ Http.named name (name', bytesOf text) = true := by
          rwa [Http.named, decide_eq_true_eq]
        rw [if_neg hname] at ih ⊢
        rw [List.filter_cons_of_neg hnamed, ih]

theorem given_append (name : String) (before after : List (String × List UInt8)) :
    given name (before ++ after) = given name before ++ given name after := by
  rw [given, List.filter_append, List.map_append, ← given, ← given]

/-- The targets are read again from the fields that name them and nothing else. -/
theorem ofHeaders_fields (h : Headers.ofFields? received = some headers) {t : Targets}
    (ht : ofHeaders headers = .ok t) :
    ∃ again, Headers.ofFields? t.fields = some again ∧ ofHeaders again = .ok t := by
  have husers : ∀ user ∈ t.user.toList, user ≠ "" ∧ Text.trim user = user ∧
      Legible (bytesOf user) := by
    intro user hmem
    rcases target_spec h ht user (List.mem_append_left _ hmem) with ⟨hne, -, htrim, hlegible⟩
    exact ⟨hne, htrim, hlegible⟩
  have hgroups : ∀ group ∈ t.groups, group ≠ "" ∧ Text.trim group = group ∧
      Legible (bytesOf group) := by
    intro group hmem
    rcases target_spec h ht group (List.mem_append_right _ hmem) with ⟨hne, -, htrim, hlegible⟩
    exact ⟨hne, htrim, hlegible⟩
  rcases ofFields?_map "impersonate-user" (by decide) fun user hmem => (husers user hmem).2.2 with
    ⟨first, hfirst⟩
  rcases ofFields?_map "impersonate-group" (by decide)
    fun group hmem => (hgroups group hmem).2.2 with ⟨second, hsecond⟩
  have hagain : Headers.ofFields? t.fields = some (first ++ second) :=
    Http.ofFields?_append.mpr ⟨first, second, hfirst, hsecond, rfl⟩
  have huser : given "impersonate-user" t.fields = t.user.toList.map bytesOf := by
    rw [fields, given_append, given_map, given_map, if_pos (by decide), if_neg (by decide),
      List.append_nil]
  have hgroup : given "impersonate-group" t.fields = t.groups.map bytesOf := by
    rw [fields, given_append, given_map, given_map, if_neg (by decide), if_pos (by decide),
      List.nil_append]
  refine ⟨first ++ second, hagain, (ofHeaders_eq_iff hagain _).mpr (.targets ?_ ?_ ?_)⟩
  · rw [huser, hgroup, List.forall_mem_append, List.forall_mem_map, List.forall_mem_map]
    exact ⟨fun user hmem => (husers user hmem).2.2, fun group hmem => (hgroups group hmem).2.2⟩
  · rw [said_of_trimmed huser husers]
    cases t.user with
    | none => rfl
    | some user => rfl
  · exact (said_of_trimmed hgroup hgroups).symm

/-! ## What does not matter -/

/-- The values of a name that are not blank. -/
def spoken (name : String) (fields : List (String × List UInt8)) : List (List UInt8) :=
  (given name fields).filter fun value => !value.all isPadding

theorem said_eq_map_spoken (name : String) (fields : List (String × List UInt8)) :
    said name fields = (spoken name fields).map stripped := by
  have hsame : (fun value : List UInt8 => !value.isEmpty) ∘ stripped
      = fun value => !value.all isPadding := by
    funext value
    rw [Function.comp_apply, Bool.eq_iff_iff, Bool.not_eq_true', Bool.not_eq_true',
      Bool.eq_false_iff, Bool.eq_false_iff, Ne, Ne, List.isEmpty_iff, Http.stripped_eq_nil_iff,
      List.all_eq_true]
  rw [said, List.filter_map, hsame, spoken]

theorem forall_legible_iff (name : String) (fields : List (String × List UInt8)) :
    (∀ value ∈ given name fields, Legible value) ↔ ∀ value ∈ spoken name fields, Legible value := by
  refine ⟨fun h value hvalue => h value (List.mem_filter.mp hvalue).1, fun h value hvalue => ?_⟩
  by_cases hblank : value.all isPadding = true
  · -- Padding is legible.
    intro b hb
    have hpadding := List.all_eq_true.mp hblank b hb
    rw [isPadding, Bool.or_eq_true, beq_iff_eq, beq_iff_eq] at hpadding
    rcases hpadding with rfl | rfl
    · exact .inr ⟨by decide, by decide⟩
    · exact .inl rfl
  · exact h value (List.mem_filter.mpr ⟨hvalue, by rw [Bool.eq_false_iff.mpr hblank]; rfl⟩)

/-- Requests with the same values, apart from blank ones, name the same targets. -/
theorem ofHeaders_of_spoken {received' : List (String × List UInt8)} {headers' : Headers}
    (h : Headers.ofFields? received = some headers)
    (h' : Headers.ofFields? received' = some headers')
    (huser : spoken "impersonate-user" received' = spoken "impersonate-user" received)
    (hgroup : spoken "impersonate-group" received' = spoken "impersonate-group" received) :
    ofHeaders headers' = ofHeaders headers := by
  have hsaid : ∀ {name}, spoken name received' = spoken name received →
      said name received' = said name received := by
    intro name hname
    rw [said_eq_map_spoken, hname, ← said_eq_map_spoken]
  have hlegible : ∀ {name}, spoken name received' = spoken name received →
      ((∀ value ∈ given name received', Legible value) ↔
        ∀ value ∈ given name received, Legible value) := by
    intro name hname
    rw [forall_legible_iff, hname, ← forall_legible_iff]
  have hillegible : ∀ {name value}, spoken name received' = spoken name received →
      value ∈ given name received → ¬ Legible value →
      ∃ value ∈ given name received', ¬ Legible value := by
    intro name value hname hvalue hnot
    by_contra hnone
    simp only [not_exists, not_and, not_not] at hnone
    exact hnot ((hlegible hname).mp hnone value hvalue)
  rw [ofHeaders_eq_iff h']
  have hreading := reading_ofHeaders h
  revert hreading
  generalize ofHeaders headers = r
  intro hreading
  cases hreading with
  | targets hall hu hg =>
      rw [List.forall_mem_append] at hall
      refine .targets ?_ ?_ ?_
      · rw [List.forall_mem_append, hlegible huser, hlegible hgroup]
        exact hall
      · rw [hsaid huser]
        exact hu
      · rw [hsaid hgroup]
        exact hg
  | user hvalue hnot =>
      rcases hillegible huser hvalue hnot with ⟨value, hvalue', hnot'⟩
      exact .user hvalue' hnot'
  | group hall hvalue hnot =>
      rcases hillegible hgroup hvalue hnot with ⟨value, hvalue', hnot'⟩
      exact .group ((hlegible huser).mpr hall) hvalue' hnot'

theorem spoken_insert {name : String} {field : String × List UInt8}
    (h : Http.named name field = false ∨ field.2.all isPadding = true)
    (before after : List (String × List UInt8)) :
    spoken name (before ++ field :: after) = spoken name (before ++ after) := by
  have hone : spoken name (field :: after) = spoken name after := by
    rw [spoken, spoken, given, given]
    by_cases hnamed : Http.named name field = true
    · have hblank : field.2.all isPadding = true := h.resolve_left (by rw [hnamed]; decide)
      rw [List.filter_cons_of_pos hnamed, List.map_cons,
        List.filter_cons_of_neg (by rw [hblank]; decide)]
    · rw [List.filter_cons_of_neg hnamed]
  rw [spoken, given_append, List.filter_append, ← spoken, ← spoken, hone, spoken, spoken,
    ← List.filter_append, ← given_append, ← spoken]

/-- Which targets a request names, told from its fields as they were received. They are trimmed and
    not empty, fields that hold nothing else name the same ones, and there are none exactly if all
    values are blank. A field that has another name, or a blank value, makes no difference. -/
theorem targets_read {received : List (String × List UInt8)} {headers : Headers}
    (h : Headers.ofFields? received = some headers) :
    (∀ r, ofHeaders headers = r ↔ Reading received r) ∧
    (∀ t, ofHeaders headers = .ok t →
      (∀ target ∈ t.user.toList ++ t.groups, target ≠ "" ∧ Text.Bare target.toList ∧
        Text.trim target = target) ∧
      (∃ again, Headers.ofFields? t.fields = some again ∧ ofHeaders again = .ok t) ∧
      (t.isEmpty = true ↔
        ∀ value ∈ given "impersonate-user" received ++ given "impersonate-group" received,
          ∀ b ∈ value, isPadding b = true)) ∧
    ∀ (before after : List (String × List UInt8)) (field : String × List UInt8),
      received = before ++ field :: after →
      (Http.named "impersonate-user" field = false ∧ Http.named "impersonate-group" field = false) ∨
        (∀ b ∈ field.2, isPadding b = true) →
      ∃ fewer, Headers.ofFields? (before ++ after) = some fewer ∧
        ofHeaders fewer = ofHeaders headers := by
  refine ⟨ofHeaders_eq_iff h, fun t ht => ⟨fun target hmem => ?_, ofHeaders_fields h ht,
    isEmpty_iff h ht⟩, ?_⟩
  · rcases target_spec h ht target hmem with ⟨hne, hbare, htrim, -⟩
    exact ⟨hne, hbare, htrim⟩
  · rintro before after field rfl hidle
    rcases Http.ofFields?_append.mp h with ⟨first, rest, hfirst, hrest, rfl⟩
    rcases Http.ofFields?_cons.mp hrest with ⟨name, value, second, -, -, hsecond, rfl⟩
    have hfewer := Http.ofFields?_append.mpr ⟨first, second, hfirst, hsecond, rfl⟩
    have huser : Http.named "impersonate-user" field = false ∨ field.2.all isPadding = true :=
      hidle.imp And.left List.all_eq_true.mpr
    have hgroup : Http.named "impersonate-group" field = false ∨ field.2.all isPadding = true :=
      hidle.imp And.right List.all_eq_true.mpr
    exact ⟨first ++ second, hfewer, ofHeaders_of_spoken h hfewer
      (spoken_insert huser before after).symm (spoken_insert hgroup before after).symm⟩

/-- Names in all cases, blank and padded values, a second user, a group twice, and a field that is
    no text. Had it been one of the user, nothing would have been read. -/
theorem targets_read_mixed :
    (∃ headers, Headers.ofFields? [("IMPERSONATE-USER", [0x20, 0x09]), ("x-other", [0xE9]),
        ("Impersonate-Group", [0x61]), ("impersonate-user", [0x09, 0x62, 0x20, 0x62, 0x20]),
        ("Impersonate-User", [0x63]), ("impersonate-group", [0x61])] = some headers ∧
      ofHeaders headers = .ok ⟨some "b b", ["a", "a"]⟩) ∧
    ∃ headers, Headers.ofFields? [("impersonate-group", [0xE9]), ("impersonate-user", [0x62]),
        ("Impersonate-User", [0xE9])] = some headers ∧
      ofHeaders headers
        = .error (.invalidImpersonationHeader "impersonate-user must be visible ASCII") := by
  constructor
  · rcases hread : Headers.ofFields? _ with _ | headers
    · exact absurd hread (by decide)
    · refine ⟨headers, rfl, ((targets_read hread).1 _).mpr (.targets ?_ ?_ ?_)⟩
      · decide +kernel
      · decide +kernel
      · decide +kernel
  · rcases hread : Headers.ofFields? _ with _ | headers
    · exact absurd hread (by decide)
    · have hbad : [0xE9] ∈ given "impersonate-user" [("impersonate-group", [0xE9]),
          ("impersonate-user", [0x62]), ("Impersonate-User", [0xE9])] := by
        decide +kernel
      exact ⟨headers, rfl, ((targets_read hread).1 _).mpr (.user hbad (by decide +kernel))⟩

end Impersonation.Targets

end ForwardAuth
