import ForwardAuth.Json.Value
import ForwardAuth.Proofs.JsonNumbers
import ForwardAuth.Proofs.JsonReading
import ForwardAuth.Proofs.Partwise

/-!
# What is written is read back

A value is written as text, and the text is read as a tree whose numbers and strings are evaluated.
The tree in the middle is what both directions have in common. `written` is the tree for a value,
and the two halves are stated about it alone: the text spells its tokens, and it has the value.

The first half holds of every value. Only the second asks anything of it, and this is what `Fits`
says: a double is not written at all, the reader has a limit on depth, and of members with one name
it keeps one.

## Main definitions

* `written`: The tree for a value.
* `Fits`: A value that the reader has room for.

## Theorems

* `spells_render`: What is written for a value spells the tokens of its tree.
* `read?_encode`: What is written for a value is read as its tree.
* `value?_written`: The tree for a value has this value.
* `parse?_encode`: What is written for a value is read as this value.
* `encode_injective`: Two values that are written alike are the same.
-/

namespace ForwardAuth.Json

/-- The tree for a value. A double is written as `null`. -/
def written : Json → Written
  | .null => .null
  | .bool b => .bool b
  | .number (.int n) => .number (numeral n)
  | .number (.float _) => .null
  | .string s => .string (pieces s)
  | .array items => .array (items.map written)
  | .object members => .object (members.map fun m => (pieces m.1, written m.2))
termination_by v => sizeOf v
decreasing_by
  · next v hmem =>
    have hlt := List.sizeOf_lt_of_mem hmem
    simp only [Json.array.sizeOf_spec]
    omega
  · next hmem =>
    have hlt := List.sizeOf_lt_of_mem hmem
    rcases m with ⟨k, v⟩
    simp only [Json.object.sizeOf_spec, Prod.mk.sizeOf_spec] at hlt ⊢
    omega

/-- A value that the reader has room for, within so many arrays and objects. -/
inductive Fits : Nat → Json → Prop where
  | null (limit : Nat) : Fits limit .null
  | bool (limit : Nat) (b : Bool) : Fits limit (.bool b)
  | int (limit : Nat) {n : Int} (hlow : -(Nat.pow 2 63 : Nat) ≤ n)
    (hhigh : n < (Nat.pow 2 64 : Nat)) : Fits limit (.number (.int n))
  | string (limit : Nat) (s : String) : Fits limit (.string s)
  | array {limit : Nat} {items : List Json} (hitems : ∀ v ∈ items, Fits limit v) :
    Fits (limit + 1) (.array items)
  | object {limit : Nat} {members : Members} (hnames : (members.map Prod.fst).Nodup)
    (hmembers : ∀ m ∈ members, Fits limit m.2) : Fits (limit + 1) (.object members)

/-! ## The text spells the tokens of its tree -/

namespace Spells

theorem enclosed {c c' : Char} {b b' : UInt8} {t t' : Token} (hc : String.utf8EncodeChar c = [b])
    (hc' : String.utf8EncodeChar c' = [b']) (ht : t.Spelling [b]) (ht' : t'.Spelling [b'])
    {text : List Char} {ts : List Token} (h : Spells (utf8 text) ts) :
    Spells (utf8 (c :: text ++ [c'])) (t :: ts ++ [t']) := by
  rw [utf8_append, utf8_cons, utf8_cons, hc, hc']
  exact (Spells.token ht h).append ht'.spells

theorem member (k : String) {text : List Char} {ts : List Token} (h : Spells (utf8 text) ts) :
    Spells (utf8 (quote k ++ ':' :: text)) (.string (pieces k) :: .colon :: ts) := by
  rw [utf8_append, utf8_cons]
  exact .token (spelling_quote k) (.token .colon h)

theorem list {α : Type} (text : α → List Char) (ts : α → List Token) {items : List α}
    (h : ∀ a ∈ items, Spells (utf8 (text a)) (ts a)) :
    Spells (utf8 (commaSeparated (items.map text))) (separated (items.map ts)) := by
  induction items with
  | nil => exact .nil
  | cons a items ih =>
      have hfirst := h a List.mem_cons_self
      have hlater := ih fun a ha => h a (List.mem_cons_of_mem _ ha)
      cases items with
      | nil => exact hfirst
      | cons a' items =>
          have htext : commaSeparated ((a :: a' :: items).map text)
              = text a ++ ',' :: commaSeparated ((a' :: items).map text) := rfl
          rw [htext, utf8_append, utf8_cons]
          exact hfirst.append (.token .comma hlater)

end Spells

theorem renderItems_eq_map (vs : List Json) : renderItems vs = vs.map render := by
  induction vs with
  | nil => rfl
  | cons v vs ih => rw [renderItems, ih, List.map_cons]

theorem renderMembers_eq_map (ms : Members) :
    renderMembers ms = ms.map fun m => quote m.1 ++ ':' :: render m.2 := by
  induction ms with
  | nil => rfl
  | cons m ms ih => rw [renderMembers, ih, List.map_cons]

/-- What is written for a value spells the tokens of its tree. -/
theorem spells_render (v : Json) : Spells (utf8 (render v)) (written v).tokens := by
  have hword : ∀ word : String, utf8 word.toList = word.toUTF8.toList := fun word =>
    (toList_toUTF8 word).symm
  induction v using written.induct with
  | case1 =>
      rw [render, written, Written.tokens, hword]
      exact Token.Spelling.null.spells
  | case2 b =>
      rw [written, Written.tokens]
      cases b with
      | true =>
          rw [render, hword]
          exact Token.Spelling.true.spells
      | false =>
          rw [render, hword]
          exact Token.Spelling.false.spells
  | case3 n =>
      rw [render, written, Written.tokens]
      exact (Token.Spelling.number (spelling_toString n)).spells
  | case4 x =>
      rw [render, written, Written.tokens, hword]
      exact Token.Spelling.null.spells
  | case5 s =>
      rw [render, written, Written.tokens]
      exact (spelling_quote s).spells
  | case6 items ih =>
      rw [render, written, Written.tokens, renderItems_eq_map, List.map_map]
      exact (Spells.list _ _ ih).enclosed rfl rfl .openArray .closeArray
  | case7 members ih =>
      rw [render, written, Written.tokens, renderMembers_eq_map, List.map_map]
      exact (Spells.list _ _ fun m hm => Spells.member m.1 (ih m hm)).enclosed rfl rfl
        .openObject .closeObject

/-- What is written for a value is read as its tree. -/
theorem read?_encode (v : Json) : Written.read? (encode v) = some (written v) := by
  rw [encode_eq_utf8]
  exact Written.read?_eq_some_iff.mpr (spells_render v)

/-! ## The tree has the value -/

namespace Members

theorem insert_of_notMem {ms : Members} {name : String} (h : name ∉ ms.map Prod.fst)
    (value : Json) : insert ms name value = ms ++ [(name, value)] := by
  induction ms with
  | nil => rfl
  | cons m ms ih =>
      rw [List.map_cons, List.mem_cons, not_or] at h
      rw [insert, if_neg (Ne.symm h.1), ih h.2]
      rfl

/-- Members whose names differ are kept as they are. -/
theorem ofList_of_nodup {ms : Members} (h : (ms.map Prod.fst).Nodup) : ofList ms = ms := by
  -- The members that were kept so far have names apart from those to come.
  have hall : ∀ (later before : Members), ((before ++ later).map Prod.fst).Nodup →
      later.foldl (fun acc m => insert acc m.1 m.2) before = before ++ later := by
    intro later
    induction later with
    | nil => exact fun before _ => (List.append_nil before).symm
    | cons m later ih =>
        intro before hnodup
        have hnew : m.1 ∉ before.map Prod.fst := by
          rw [List.map_append, List.nodup_append] at hnodup
          exact fun hmem => hnodup.2.2 _ hmem _ List.mem_cons_self rfl
        rw [List.append_cons] at hnodup ⊢
        rw [List.foldl_cons, insert_of_notMem hnew]
        exact ih _ hnodup
  exact hall ms [] h

end Members

/-- The tree for a value has this value. -/
theorem value?_written {limit : Nat} {v : Json} (h : Fits limit v) :
    (written v).value? limit = some v := by
  induction h with
  | null limit => rw [written, Written.value?]
  | bool limit b => rw [written, Written.value?]
  | int limit hlow hhigh => rw [written, Written.value?, value?_numeral hlow hhigh]; rfl
  | string limit s => rw [written, Written.value?, text?_pieces]; rfl
  | array hitems ih =>
      rw [written, Written.value?, mapM_map_eq_some ih]
      rfl
  | object hnames hmembers ih =>
      rw [written, Written.value?, mapM_map_eq_some]
      · exact congrArg (fun ms => some (Json.object ms)) (Members.ofList_of_nodup hnames)
      · intro m hm
        simp only [text?_pieces, ih m hm, Option.bind_eq_bind, Option.bind_some]
        rfl

/-! ## Reading what was written -/

/-- What is written for a value is read as this value. -/
theorem parse?_encode {v : Json} (h : Fits maxDepth v) : parse? (encode v) = some v := by
  rw [parse?, read?_encode]
  exact value?_written h

/-- Two values that are written alike are the same. -/
theorem encode_injective {v w : Json} (hv : Fits maxDepth v) (hw : Fits maxDepth w)
    (h : encode v = encode w) : v = w := by
  have hread := parse?_encode hv
  rw [h, parse?_encode hw] at hread
  exact (Option.some.inj hread).symm

end ForwardAuth.Json
