import ForwardAuth.Json.Written
import ForwardAuth.Proofs.JsonLexing

/-!
# The grammar of JSON values

A text is one value if it spells the tokens of a tree, and it is read as this tree. The tokens of a
tree give it back to the second walk, by induction on the tree; the items and members before a place
are then in the frames. What is left is that nothing else is read. So the second walk is compared
with the trees by the tokens that it has taken so far, `Reader.taken`: those of every array and
object that is still open, up to the place that was reached in it. What a step adds to this is the
token that it reads.

In a text the tokens of a tree have to be kept apart. They are, as between any two values there is a
comma, and a bracket, comma or colon ends by itself.

## Main definitions

* `separated`, `Written.tokens`: The tokens of a tree.
* `Reads`: The tokens of a tree give it back.
* `memberTokens`, `followed`: The tokens of members, and of parts with commas.
* `Frame.taken`, `Reader.taken`: The tokens that a state has taken.

## Theorems

* `reads_tokens`: The tokens of a tree give it back.
* `isChain_tokens`: The tokens of a tree are kept apart.
* `taken_of_step`, `taken_of_foldlM`: A step of the walk, and the whole of it.
* `read?_eq_some_iff`: A text is read as the tree whose tokens it spells.
-/

namespace ForwardAuth.Json

/-- Parts with a comma between any two. -/
def separated : List (List Token) → List Token
  | [] => []
  | [part] => part
  | part :: parts => part ++ .comma :: separated parts

/-- The tokens of a tree. -/
def Written.tokens : Written → List Token
  | .null => [.null]
  | .bool b => [.bool b]
  | .number n => [.number n]
  | .string ps => [.string ps]
  | .array items => .openArray :: separated (items.map Written.tokens) ++ [.closeArray]
  | .object members =>
    .openObject :: separated (members.map fun m => .string m.1 :: .colon :: Written.tokens m.2)
      ++ [.closeObject]
termination_by w => sizeOf w
decreasing_by
  · next w hmem =>
    have hlt := List.sizeOf_lt_of_mem hmem
    simp only [Written.array.sizeOf_spec]
    omega
  · next hmem =>
    have hlt := List.sizeOf_lt_of_mem hmem
    rcases m with ⟨k, w⟩
    simp only [Written.object.sizeOf_spec, Prod.mk.sizeOf_spec] at hlt ⊢
    omega

/-! ## The tokens of a tree give it back -/

/-- The tokens of the tree give it back, within any arrays and objects. -/
def Reads (w : Written) : Prop :=
  ∀ frames, w.tokens.foldlM Reader.step (.value frames) = some (.after frames w)

-- An array whose first token is not its end goes on as after a comma.
theorem foldlM_arrayStart {ts : List Token} {frames frames' : List Frame} {w : Written}
    (h : ts.foldlM Reader.step (.value (.item [] :: frames)) = some (.after frames' w)) :
    ts.foldlM Reader.step (.arrayStart frames) = some (.after frames' w) := by
  cases ts with
  | nil => cases h
  | cons t ts =>
      rw [List.foldlM_cons] at h ⊢
      -- No value begins with the end of an array, so the two states differ in nothing else.
      cases t with
      | closeArray => cases h
      | _ => exact h

theorem separated_cons_cons (part part' : List Token) (parts : List (List Token)) :
    separated (part :: part' :: parts) = part ++ .comma :: separated (part' :: parts) := rfl

theorem reverse_append_cons {α : Type} (before : List α) (a : α) (later : List α) :
    before.reverse ++ a :: later = (a :: before).reverse ++ later := by
  rw [List.reverse_cons, List.append_assoc, List.singleton_append]

theorem foldlM_items {w : Written} {ws : List Written} (h : ∀ w' ∈ w :: ws, Reads w')
    (frames : List Frame) (before : List Written) :
    (separated ((w :: ws).map Written.tokens) ++ [Token.closeArray]).foldlM Reader.step
        (.value (.item before :: frames))
      = some (.after frames (.array (before.reverse ++ w :: ws))) := by
  have hw := h w List.mem_cons_self (.item before :: frames)
  rw [reverse_append_cons]
  -- By induction on what is left: the first item is read, and then there is an end or a comma.
  induction ws generalizing w before with
  | nil =>
      rw [List.map_singleton, separated, List.foldlM_append, hw, List.append_nil]
      rfl
  | cons w' ws ih =>
      have hlater := fun w' hw' => h w' (List.mem_cons_of_mem _ hw')
      rw [List.map_cons, List.map_cons, separated_cons_cons, List.append_assoc,
        List.foldlM_append, hw]
      rw [reverse_append_cons]
      exact ih hlater (w :: before) (hlater w' List.mem_cons_self _)

theorem foldlM_members {m : List Piece × Written} {ms : List (List Piece × Written)}
    (h : ∀ m' ∈ m :: ms, Reads m'.2) (frames : List Frame)
    (before : List (List Piece × Written)) :
    (separated ((m :: ms).map fun m => .string m.1 :: .colon :: m.2.tokens)
        ++ [Token.closeObject]).foldlM Reader.step (.key frames before)
      = some (.after frames (.object (before.reverse ++ m :: ms))) := by
  have hm := h m List.mem_cons_self (.member before m.1 :: frames)
  -- A name and a colon lead to where the value is expected.
  have hmember : (.string m.1 :: .colon :: m.2.tokens).foldlM Reader.step (.key frames before)
      = some (.after (.member before m.1 :: frames) m.2) := hm
  rw [reverse_append_cons]
  induction ms generalizing m before with
  | nil =>
      rw [List.map_singleton, separated, List.foldlM_append, hmember, List.append_nil]
      rfl
  | cons m' ms ih =>
      have hlater := fun m' hm' => h m' (List.mem_cons_of_mem _ hm')
      have hm' := hlater m' List.mem_cons_self (.member (m :: before) m'.1 :: frames)
      rw [List.map_cons, List.map_cons, separated_cons_cons, List.append_assoc,
        List.foldlM_append, hmember]
      rw [reverse_append_cons]
      exact ih hlater (m :: before) hm' hm'

/-- The tokens of a tree give it back. -/
theorem reads_tokens (w : Written) : Reads w := by
  induction w using Written.tokens.induct with
  | case1 => exact fun frames => by rw [Written.tokens]; rfl
  | case2 b => exact fun frames => by rw [Written.tokens]; rfl
  | case3 n => exact fun frames => by rw [Written.tokens]; rfl
  | case4 ps => exact fun frames => by rw [Written.tokens]; rfl
  | case5 items ih =>
      intro frames
      rw [Written.tokens, List.cons_append, List.foldlM_cons]
      cases items with
      | nil => rfl
      | cons w ws => exact foldlM_arrayStart (foldlM_items ih frames [])
  | case6 members ih =>
      intro frames
      rw [Written.tokens, List.cons_append, List.foldlM_cons]
      cases members with
      | nil => rfl
      | cons m ms =>
          -- The first name is taken after the bracket as it would be after a comma.
          have hmembers := foldlM_members ih frames []
          cases ms with
          | nil => exact hmembers
          | cons m' ms => exact hmembers

/-! ## The tokens of a tree are kept apart -/

theorem isChain_cons {t : Token} {us : List Token} (ht : t.isOpen = false)
    (hus : us.IsChain Parted) : (t :: us).IsChain Parted := by
  refine List.isChain_cons.mpr ⟨fun u _ hopen => ?_, hus⟩
  rw [ht] at hopen
  cases hopen

theorem isChain_around {t : Token} {ts us : List Token} (ht : t.isOpen = false)
    (hts : ts.IsChain Parted) (hus : us.IsChain Parted) : (ts ++ t :: us).IsChain Parted := by
  refine List.isChain_append.mpr ⟨hts, isChain_cons ht hus, fun u _ t' ht' _ => ?_⟩
  rwa [← Option.some.inj ht']

theorem isChain_separated {parts : List (List Token)} (h : ∀ part ∈ parts, part.IsChain Parted) :
    (separated parts).IsChain Parted := by
  induction parts with
  | nil => exact .nil
  | cons part parts ih =>
      have hfirst := h part List.mem_cons_self
      cases parts with
      | nil => exact hfirst
      | cons part' parts =>
          exact isChain_around rfl hfirst
            (ih fun part hpart => h part (List.mem_cons_of_mem _ hpart))

theorem isChain_tokens (w : Written) : w.tokens.IsChain Parted := by
  have henclosed : ∀ {t t' : Token} {parts : List (List Token)}, t.isOpen = false →
      t'.isOpen = false → (∀ part ∈ parts, part.IsChain Parted) →
      (t :: separated parts ++ [t']).IsChain Parted := fun ht ht' hparts =>
    isChain_around ht' (isChain_cons ht (isChain_separated hparts)) .nil
  induction w using Written.tokens.induct with
  | case1 => rw [Written.tokens]; exact .singleton _
  | case2 b => rw [Written.tokens]; exact .singleton _
  | case3 n => rw [Written.tokens]; exact .singleton _
  | case4 ps => rw [Written.tokens]; exact .singleton _
  | case5 items ih =>
      rw [Written.tokens]
      refine henclosed rfl rfl fun part hpart => ?_
      rcases List.mem_map.mp hpart with ⟨w, hw, rfl⟩
      exact ih w hw
  | case6 members ih =>
      rw [Written.tokens]
      refine henclosed rfl rfl fun part hpart => ?_
      rcases List.mem_map.mp hpart with ⟨m, hm, rfl⟩
      exact isChain_cons rfl (isChain_cons rfl (ih m hm))

/-! ## What the second walk accepts -/

/-- The tokens of a member. -/
def memberTokens (m : List Piece × Written) : List Token :=
  .string m.1 :: .colon :: m.2.tokens

/-- Parts with a comma after each. -/
def followed (parts : List (List Token)) : List Token :=
  parts.flatMap (· ++ [.comma])

/-- The tokens of an array or object that were taken up to the place of a value in it. -/
def Frame.taken : Frame → List Token
  | .item before => .openArray :: followed (before.reverse.map Written.tokens)
  | .member before k =>
    .openObject :: followed (before.reverse.map memberTokens) ++ [.string k, .colon]

/-- The tokens that were taken up to a place within frames. -/
def takenWithin (frames : List Frame) : List Token :=
  frames.reverse.flatMap Frame.taken

/-- The tokens that a state has taken. -/
def Reader.taken : Reader → List Token
  | value frames => takenWithin frames
  | arrayStart frames => takenWithin frames ++ [.openArray]
  | objectStart frames => takenWithin frames ++ [.openObject]
  | key frames before =>
    takenWithin frames ++ .openObject :: followed (before.reverse.map memberTokens)
  | colon frames before k =>
    takenWithin frames ++ .openObject :: followed (before.reverse.map memberTokens) ++ [.string k]
  | after frames w => takenWithin frames ++ w.tokens

theorem takenWithin_cons (f : Frame) (frames : List Frame) :
    takenWithin (f :: frames) = takenWithin frames ++ f.taken := by
  rw [takenWithin, takenWithin, List.reverse_cons, List.flatMap_append, List.flatMap_singleton]

theorem followed_append (parts : List (List Token)) (part : List Token) :
    followed (parts ++ [part]) = followed parts ++ (part ++ [.comma]) := by
  rw [followed, followed, List.flatMap_append, List.flatMap_singleton]

theorem separated_append (parts : List (List Token)) (part : List Token) :
    separated (parts ++ [part]) = followed parts ++ part := by
  induction parts with
  | nil => rfl
  | cons part' parts ih =>
      have hcons : ∃ first later, parts ++ [part] = first :: later :=
        List.exists_cons_of_ne_nil (List.append_ne_nil_of_right_ne_nil _ (List.cons_ne_nil _ _))
      rcases hcons with ⟨first, later, hlater⟩
      have hfollowed : followed (part' :: parts) = part' ++ [.comma] ++ followed parts :=
        List.flatMap_cons
      rw [List.cons_append, hlater, separated_cons_cons, ← hlater, ih, hfollowed,
        List.append_assoc, List.append_assoc]
      rfl

namespace Reader

theorem taken_of_beginValue {frames : List Frame} {t : Token} {s : Reader}
    (h : beginValue frames t = some s) : s.taken = takenWithin frames ++ [t] := by
  cases t with
  | null => cases h; rw [taken, Written.tokens]
  | bool b => cases h; rw [taken, Written.tokens]
  | number n => cases h; rw [taken, Written.tokens]
  | string ps => cases h; rw [taken, Written.tokens]
  | openArray => cases h; rfl
  | openObject => cases h; rfl
  | closeArray => cases h
  | closeObject => cases h
  | comma => cases h
  | colon => cases h

theorem taken_of_goOn {frames : List Frame} {w : Written} {t : Token} {s : Reader}
    (h : goOn w frames t = some s) : s.taken = takenWithin frames ++ w.tokens ++ [t] := by
  unfold goOn at h
  split at h
  · cases h
    simp only [taken, takenWithin_cons, Frame.taken, List.reverse_cons, List.map_append,
      List.map_singleton, followed_append, List.append_assoc, List.cons_append]
  · cases h
    simp only [taken, takenWithin_cons, Frame.taken, Written.tokens, List.reverse_cons,
      List.map_append, List.map_singleton, separated_append, List.append_assoc, List.cons_append]
  · cases h
    simp only [taken, takenWithin_cons, Frame.taken, List.reverse_cons, List.map_append,
      List.map_singleton, followed_append, memberTokens, List.append_assoc, List.cons_append,
      List.nil_append]
  · cases h
    have htokens : (fun m : List Piece × Written => .string m.1 :: .colon :: m.2.tokens)
        = memberTokens := rfl
    simp only [taken, takenWithin_cons, Frame.taken, Written.tokens, htokens, List.reverse_cons,
      List.map_append, List.map_singleton, separated_append, memberTokens, List.append_assoc,
      List.cons_append, List.nil_append]
  · cases h

/-- A step takes its token. -/
theorem taken_of_step {s s' : Reader} {t : Token} (h : s.step t = some s') :
    s'.taken = s.taken ++ [t] := by
  unfold step at h
  split at h
  · exact taken_of_beginValue h
  · cases h
    rw [taken, taken, Written.tokens, List.append_assoc]
    rfl
  · -- The first value of an array is taken within it, when nothing came before.
    rw [taken_of_beginValue h, takenWithin_cons]
    rfl
  · cases h
    rw [taken, taken, Written.tokens, List.append_assoc]
    rfl
  · cases h
    rw [taken, taken, List.append_assoc, List.append_assoc]
    rfl
  · cases h
    rfl
  · cases h
    rw [taken, taken, takenWithin_cons, Frame.taken]
    simp only [List.append_assoc, List.cons_append, List.nil_append]
  · exact taken_of_goOn h
  · cases h

theorem taken_of_foldlM {s s' : Reader} {ts : List Token} (h : ts.foldlM step s = some s') :
    s'.taken = s.taken ++ ts := by
  induction ts generalizing s with
  | nil =>
      cases h
      exact (List.append_nil _).symm
  | cons t ts ih =>
      rw [List.foldlM_cons] at h
      rcases Option.bind_eq_some_iff.mp h with ⟨s₁, hstep, hlater⟩
      rw [ih hlater, taken_of_step hstep, List.append_assoc, List.singleton_append]

end Reader

/-- A text is read as the tree whose tokens it spells, and else as none. -/
theorem Written.read?_eq_some_iff {text : List UInt8} {w : Written} :
    Written.read? text = some w ↔ Spells text w.tokens := by
  constructor
  · intro h
    rcases Option.bind_eq_some_iff.mp h with ⟨ts, htokens, h⟩
    rcases Option.bind_eq_some_iff.mp h with ⟨s, hwalk, hend⟩
    have hspells := Lexer.run_spells (show Lexer.between.Holds [] from rfl) htokens
    have htaken := Reader.taken_of_foldlM hwalk
    unfold Reader.finish at hend
    split at hend
    · cases hend
      rw [show w.tokens = ts from htaken]
      exact hspells
    · cases hend
  · intro h
    rw [Written.read?, tokens?, run_of_spells h (isChain_tokens w)]
    simp only [Option.bind_eq_bind, Option.bind_some]
    rw [reads_tokens w []]
    rfl

end ForwardAuth.Json
