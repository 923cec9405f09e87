import ForwardAuth.Proofs.Answer

/-!
# Fields as they are received

Headers are read as texts, and what is received are bytes. So it is said here of the fields as they
were received, a name in any case and a value of any bytes, what they say under a name. Nothing
about a text is needed for it, only which bytes may stand in a value (`Legible`) and which of them
pad it (`isPadding`).

`given` are the values of a name, and `said` is what is left of them without padding, as far as it
is anything. A legible byte is a character of its own, so the text of a value is trimmed where its
bytes are stripped.

## Main definitions

* `Headers.ofFields?`: The fields of a message, as they were received.
* `named`, `given`: The fields of a name, and their values.
* `Legible`, `isPadding`, `stripped`: The bytes of a value, and those that pad it.
* `said`: The values of a name without padding.

## Theorems

* `ofFields?_cons`, `ofFields?_append`: Fields are read one after another.
* `values_of_ofFields?`: The values of a name are those that were given for it.
* `trimChars_map`, `toUTF8_trim`: Trimming the text of a value strips its bytes.
* `stripped_eq_nil_iff`: Nothing is left of a value exactly if it is all padding.
-/

namespace ForwardAuth

namespace Http

/-- The fields of a message as they were received, if they are fields. -/
def Headers.ofFields? (fields : List (String × List UInt8)) : Option Headers :=
  fields.mapM fun field => do
    return (← HeaderName.ofString? field.1, ← HeaderValue.ofBytes? field.2)

/-- The field has the name, in any case of its letters. -/
def named (name : String) (field : String × List UInt8) : Bool :=
  field.1.toList.map Char.toLower = name.toList

/-- The values of the fields with a name. -/
def given (name : String) (fields : List (String × List UInt8)) : List (List UInt8) :=
  (fields.filter (named name)).map Prod.snd

/-- All bytes are visible ASCII characters, spaces or tabs. -/
def Legible (value : List UInt8) : Prop :=
  ∀ b ∈ value, b = 0x09 ∨ (0x20 ≤ b ∧ b < 0x7F)

instance : DecidablePred Legible := fun value =>
  inferInstanceAs (Decidable (∀ b ∈ value, b = 0x09 ∨ (0x20 ≤ b ∧ b < 0x7F)))

/-- The byte is a space or a tab. -/
def isPadding (b : UInt8) : Bool :=
  b == 0x20 || b == 0x09

/-- The value without the spaces and tabs around it. -/
def stripped (value : List UInt8) : List UInt8 :=
  ((value.dropWhile isPadding).reverse.dropWhile isPadding).reverse

/-- What the values of a name say: each without padding, and none that is nothing else. -/
def said (name : String) (fields : List (String × List UInt8)) : List (List UInt8) :=
  ((given name fields).map stripped).filter fun value => !value.isEmpty

/-! ## The values of a name -/

theorem HeaderName.ofString?_eq_some {s : String} {name : HeaderName}
    (h : ofString? s = some name) : name.text.toList = s.toList.map Char.toLower := by
  simp only [ofString?] at h
  split_ifs at h
  cases h
  exact String.toList_ofList

theorem HeaderValue.ofBytes?_eq_some {bytes : List UInt8} {value : HeaderValue}
    (h : ofBytes? bytes = some value) : value.bytes = bytes := by
  unfold ofBytes? at h
  split_ifs at h
  cases h
  rfl

theorem ofFields?_cons {field : String × List UInt8} {fields : List (String × List UInt8)}
    {headers : Headers} : Headers.ofFields? (field :: fields) = some headers ↔
      ∃ name value rest, HeaderName.ofString? field.1 = some name ∧
        HeaderValue.ofBytes? field.2 = some value ∧ Headers.ofFields? fields = some rest ∧
        headers = (name, value) :: rest := by
  rw [Headers.ofFields?, List.mapM_cons, ← Headers.ofFields?]
  simp only [Option.bind_eq_bind, Option.bind_eq_some_iff, Option.pure_def, Option.some.injEq]
  constructor
  · rintro ⟨_, ⟨name, hname, value, hvalue, rfl⟩, rest, hrest, rfl⟩
    exact ⟨name, value, rest, hname, hvalue, hrest, rfl⟩
  · rintro ⟨name, value, rest, hname, hvalue, hrest, rfl⟩
    exact ⟨_, ⟨name, hname, value, hvalue, rfl⟩, rest, hrest, rfl⟩

theorem ofFields?_append {before after : List (String × List UInt8)} {headers : Headers} :
    Headers.ofFields? (before ++ after) = some headers ↔
      ∃ first second, Headers.ofFields? before = some first ∧
        Headers.ofFields? after = some second ∧ headers = first ++ second := by
  rw [Headers.ofFields?, List.mapM_append, ← Headers.ofFields?]
  simp only [Option.bind_eq_bind, Option.bind_eq_some_iff, Option.pure_def, Option.some.injEq]
  constructor
  · rintro ⟨first, hfirst, second, hsecond, rfl⟩
    exact ⟨first, second, hfirst, hsecond, rfl⟩
  · rintro ⟨first, second, hfirst, hsecond, rfl⟩
    exact ⟨first, hfirst, second, hsecond, rfl⟩

/-- The values of a name are those that were given for it. -/
theorem values_of_ofFields? {fields : List (String × List UInt8)} {headers : Headers}
    (h : Headers.ofFields? fields = some headers) (name : String) :
    (headers.values ⟨name⟩).map HeaderValue.bytes = given name fields := by
  induction fields generalizing headers with
  | nil =>
      cases h
      rfl
  | cons field fields ih =>
      rcases ofFields?_cons.mp h with ⟨n, value, rest, hname, hvalue, hrest, rfl⟩
      -- A name is kept in lower case, so it is the one asked for exactly if the field has it.
      have htext := HeaderName.ofString?_eq_some hname
      by_cases hnamed : named name field = true
      · have hsame : n = ⟨name⟩ := by
          have hlower : field.1.toList.map Char.toLower = name.toList := of_decide_eq_true hnamed
          rw [hlower, String.toList_inj] at htext
          rw [← htext]
        rw [Headers.values_cons_of_eq hsame, List.map_cons, ih hrest, given, given,
          List.filter_cons_of_pos hnamed, List.map_cons, HeaderValue.ofBytes?_eq_some hvalue]
      · have hother : n ≠ ⟨name⟩ := by
          rintro rfl
          exact hnamed (decide_eq_true htext.symm)
        rw [Headers.values_cons_of_ne hother, ih hrest, given, given,
          List.filter_cons_of_neg hnamed]

/-! ## Padding -/

/-- The character that a byte stands for. -/
def charOf (b : UInt8) : Char :=
  Char.ofNat b.toNat

theorem isTextByte_of_legible {value : List UInt8} (h : Legible value) {b : UInt8}
    (hb : b ∈ value) : isTextByte b = true :=
  (isTextByte_iff b).mpr (h b hb)

theorem isBlank_charOf {b : UInt8} (h : isTextByte b = true) :
    Text.isBlank (charOf b) = isPadding b := by
  have hall : ∀ b : UInt8, isTextByte b = true → Text.isBlank (charOf b) = isPadding b :=
    Json.forall_byte (by decide +kernel)
  exact hall b h

theorem dropWhile_map_charOf {bytes : List UInt8} (h : Legible bytes) :
    (bytes.map charOf).dropWhile Text.isBlank = (bytes.dropWhile isPadding).map charOf := by
  induction bytes with
  | nil => rfl
  | cons b bytes ih =>
      have hb := isBlank_charOf (isTextByte_of_legible h List.mem_cons_self)
      have hrest : Legible bytes := fun b hb => h b (List.mem_cons_of_mem _ hb)
      rw [List.map_cons, List.dropWhile_cons, List.dropWhile_cons, hb]
      by_cases hpadding : isPadding b = true
      · rw [if_pos hpadding, if_pos hpadding, ih hrest]
      · rw [if_neg hpadding, if_neg hpadding, List.map_cons]

theorem mem_of_mem_stripped {value : List UInt8} {b : UInt8} (h : b ∈ stripped value) :
    b ∈ value := by
  have hinner := (List.dropWhile_suffix isPadding).subset (List.mem_reverse.mp h)
  exact (List.dropWhile_suffix isPadding).subset (List.mem_reverse.mp hinner)

theorem Legible.stripped {value : List UInt8} (h : Legible value) : Legible (stripped value) :=
  fun b hb => h b (mem_of_mem_stripped hb)

theorem trimChars_map {bytes : List UInt8} (h : Legible bytes) :
    Text.trimChars (bytes.map charOf) = (stripped bytes).map charOf := by
  have hinner : Legible (bytes.dropWhile isPadding).reverse := fun b hb =>
    h b ((List.dropWhile_suffix isPadding).subset (List.mem_reverse.mp hb))
  rw [Text.trimChars, dropWhile_map_charOf h, ← List.map_reverse, dropWhile_map_charOf hinner,
    ← List.map_reverse, stripped]

/-- Trimming a text of legible bytes strips these bytes. -/
theorem toUTF8_trim {bytes : List UInt8} (h : Legible bytes) :
    (Text.trim (String.ofList (bytes.map charOf))).toUTF8.toList = stripped bytes := by
  rw [Text.trim, String.toList_ofList, trimChars_map h]
  exact HeaderValue.toUTF8_of_isTextByte fun b hb => isTextByte_of_legible h.stripped hb

theorem stripped_toUTF8 {s : String} (h : Legible s.toUTF8.toList) :
    stripped s.toUTF8.toList = (Text.trim s).toUTF8.toList := by
  have htext : String.ofList (s.toUTF8.toList.map charOf) = s :=
    eq_of_toUTF8_eq (HeaderValue.toUTF8_of_isTextByte fun b hb => isTextByte_of_legible h hb)
  rw [← toUTF8_trim h, htext]

theorem stripped_eq_nil_iff {value : List UInt8} :
    stripped value = [] ↔ ∀ b ∈ value, isPadding b = true := by
  rw [stripped, List.reverse_eq_nil_iff, List.dropWhile_eq_nil_iff]
  constructor
  · intro h b hb
    rw [← List.takeWhile_append_dropWhile (p := isPadding) (l := value)] at hb
    rcases List.mem_append.mp hb with hb | hb
    · exact List.mem_takeWhile_imp hb
    · exact h b (List.mem_reverse.mpr hb)
  · intro h b hb
    exact h b ((List.dropWhile_suffix isPadding).subset (List.mem_reverse.mp hb))

end Http

end ForwardAuth
