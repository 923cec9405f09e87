import ForwardAuth.Proofs.JsonRoundtrip
import ForwardAuth.Token.Structured
import Mathlib.Data.List.TakeWhile
import Mathlib.Data.Option.Basic

/-!
# A token that was put together is taken apart again

A structured token is made in three layers: an object is written as JSON, the bytes of that as
Base64, and the two texts and a signature with dots between them. Reading undoes the layers from the
outside. What each layer needs of the one inside it is little. A dot ends a segment, so a segment
must hold none; padding ends at the first character that is none, so the Base64 must not end in a
padding character. Both hold because every character of a Base64 text is one of sixty-four, and
neither the dot nor the padding is among them.

That the Base64 itself is undone is arithmetic on groups of at most three bytes, and that the JSON
is undone is known already, for every object that the reader has room for.

## Main definitions

* `Structured.segment`: The segment that an object is written as, with padding.

## Theorems

* `decode?_encode`: The Base64 of bytes is read as these bytes.
* `trimPadding_encode`: Padding is taken off, and nothing else.
* `segments_append`: A dot ends a segment.
* `ofName?_name`: An algorithm is found by its name.
* `decodeSegment?_segment`: The segment of an object is read as this object.
* `parse?_encoded`: A token that was put together is taken apart again.
-/

namespace ForwardAuth

namespace Base64Url

theorem value?_char {n : Nat} (h : n < 64) : value? (char n) = some n := by
  have hall : ∀ n < 64, value? (char n) = some n := by decide +kernel
  exact hall n h

theorem char_ne {n : Nat} (h : n < 64) : char n ≠ '.' ∧ char n ≠ '=' := by
  have hall : ∀ n < 64, char n ≠ '.' ∧ char n ≠ '=' := by decide +kernel
  exact hall n h

theorem ofNat_eq_of_eq_toNat {n : Nat} {b : UInt8} (h : n = b.toNat) : UInt8.ofNat n = b := by
  rw [h, UInt8.ofNat_toNat]

/-- The Base64 of bytes is read as these bytes. -/
theorem decode?_encode (bytes : List UInt8) : decode? (encode bytes) = some bytes := by
  -- By groups. In each of them the digits in base 64 make up the number that they were taken from,
  -- and this has the bytes as its digits in base 256.
  induction bytes using encode.induct with
  | case1 => rfl
  | case2 a =>
      have ha := a.toNat_lt
      simp only [encode, decode?]
      rw [value?_char (by omega), value?_char (by omega)]
      simp only [Option.bind_eq_bind, Option.bind_some]
      rw [(Option.guard_eq_some' ()).mpr (by omega), ofNat_eq_of_eq_toNat (b := a) (by omega)]
      rfl
  | case3 a b =>
      have ha := a.toNat_lt
      have hb := b.toNat_lt
      simp only [encode, decode?]
      rw [value?_char (by omega), value?_char (by omega), value?_char (by omega)]
      simp only [Option.bind_eq_bind, Option.bind_some]
      rw [(Option.guard_eq_some' ()).mpr (by omega), ofNat_eq_of_eq_toNat (b := a) (by omega),
        ofNat_eq_of_eq_toNat (b := b) (by omega)]
      rfl
  | case4 a b c rest ih =>
      have ha := a.toNat_lt
      have hb := b.toNat_lt
      have hc := c.toNat_lt
      simp only [encode, decode?]
      rw [value?_char (by omega), value?_char (by omega), value?_char (by omega),
        value?_char (by omega), ih]
      simp only [Option.bind_eq_bind, Option.bind_some]
      rw [ofNat_eq_of_eq_toNat (b := a) (by omega), ofNat_eq_of_eq_toNat (b := b) (by omega),
        ofNat_eq_of_eq_toNat (b := c) (by omega)]
      rfl

theorem exists_char_of_mem_encode {bytes : List UInt8} {c : Char} (h : c ∈ encode bytes) :
    ∃ n < 64, c = char n := by
  induction bytes using encode.induct with
  | case1 => exact absurd h List.not_mem_nil
  | case2 a =>
      have ha := a.toNat_lt
      simp only [encode, List.mem_cons, List.not_mem_nil, or_false] at h
      rcases h with rfl | rfl
      · exact ⟨_, by omega, rfl⟩
      · exact ⟨_, by omega, rfl⟩
  | case3 a b =>
      have ha := a.toNat_lt
      have hb := b.toNat_lt
      simp only [encode, List.mem_cons, List.not_mem_nil, or_false] at h
      rcases h with rfl | rfl | rfl
      · exact ⟨_, by omega, rfl⟩
      · exact ⟨_, by omega, rfl⟩
      · exact ⟨_, by omega, rfl⟩
  | case4 a b c rest ih =>
      have ha := a.toNat_lt
      have hb := b.toNat_lt
      have hc := c.toNat_lt
      simp only [encode, List.mem_cons] at h
      rcases h with rfl | rfl | rfl | rfl | h
      · exact ⟨_, by omega, rfl⟩
      · exact ⟨_, by omega, rfl⟩
      · exact ⟨_, by omega, rfl⟩
      · exact ⟨_, by omega, rfl⟩
      · exact ih h

theorem dot_notMem_encode (bytes : List UInt8) : '.' ∉ encode bytes := by
  intro h
  rcases exists_char_of_mem_encode h with ⟨n, hn, hc⟩
  exact (char_ne hn).1 hc.symm

/-- Padding is taken off, and nothing else. -/
theorem trimPadding_encode (bytes : List UInt8) (padding : Nat) :
    trimPadding (encode bytes ++ List.replicate padding '=') = encode bytes := by
  have hpadding : ∀ c ∈ List.replicate padding '=', decide (c = '=') = true := fun c hc =>
    decide_eq_true (List.eq_of_mem_replicate hc)
  -- Seen from its end, the text begins with a character that is no padding, if it is not empty.
  have hkept : (encode bytes).reverse.dropWhile (fun c => decide (c = '='))
      = (encode bytes).reverse := by
    rw [List.dropWhile_eq_self_iff]
    intro hlength
    rcases exists_char_of_mem_encode (List.mem_reverse.mp (List.getElem_mem hlength)) with
      ⟨n, hn, hc⟩
    rw [hc, decide_eq_true_iff]
    exact (char_ne hn).2
  rw [trimPadding, List.reverse_append, List.reverse_replicate,
    List.dropWhile_append_of_pos hpadding, hkept, List.reverse_reverse]

end Base64Url

namespace Token

/-- An algorithm is found by its name. -/
theorem Algorithm.ofName?_name (a : Algorithm) : ofName? a.name = some a := by
  cases a with
  | hmac d => cases d <;> rfl
  | rsa d => cases d <;> rfl
  | ecdsa d => cases d <;> rfl
  | rsaPss d => cases d <;> rfl
  | edDsa => rfl
  | unsigned => rfl

/-- A dot ends a segment. -/
theorem segments_append {part : List Char} (h : '.' ∉ part) (rest : List Char) :
    segments (part ++ '.' :: rest) = part :: segments rest := by
  induction part with
  | nil => rw [List.nil_append, segments, if_pos rfl]
  | cons c part ih =>
      rw [List.mem_cons, not_or] at h
      rw [List.cons_append, segments, if_neg (Ne.symm h.1), ih h.2]

theorem segments_of_notMem {part : List Char} (h : '.' ∉ part) : segments part = [part] := by
  induction part with
  | nil => rfl
  | cons c part ih =>
      rw [List.mem_cons, not_or] at h
      rw [segments, if_neg (Ne.symm h.1), ih h.2]

namespace Structured

/-- The segment that an object is written as, followed by so much padding. -/
def segment (members : Json.Members) (padding : Nat) : String :=
  String.ofList (Base64Url.encode (Json.encode (.object members)) ++ List.replicate padding '=')

theorem dot_notMem_segment (members : Json.Members) (padding : Nat) :
    '.' ∉ (segment members padding).toList := by
  rw [segment, String.toList_ofList, List.mem_append, not_or]
  refine ⟨Base64Url.dot_notMem_encode _, fun h => ?_⟩
  exact absurd (List.eq_of_mem_replicate h) (by decide)

/-- The segment of an object is read as this object. -/
theorem decodeSegment?_segment {members : Json.Members}
    (h : Json.Fits Json.maxDepth (.object members)) (padding : Nat) :
    decodeSegment? (segment members padding).toList = some members := by
  rw [decodeSegment?, segment, String.toList_ofList, Base64Url.trimPadding_encode,
    Base64Url.decode?_encode]
  simp only [Option.bind_eq_bind, Option.bind_some]
  rw [Json.parse?_encode h]
  rfl

/-- A token that was put together is taken apart again. The header names a known algorithm, header
    and claims are objects that the reader has room for, each followed by any amount of padding, and
    the signature is any text without a dot. What is signed is kept as it was received, with the
    padding. -/
theorem parse?_encoded {header claims : Json.Members} {a : Algorithm}
    (hheader : Json.Fits 127 (.object header)) (hclaims : Json.Fits 127 (.object claims))
    (halgorithm : header.get? "alg" = some (.string a.name)) (padding padding' : Nat)
    {signature : String} (hsignature : '.' ∉ signature.toList) :
    parse? (segment header padding ++ "." ++ segment claims padding' ++ "." ++ signature) = some {
      algorithm := a
      header
      claims
      signingInput := segment header padding ++ "." ++ segment claims padding'
      signature } := by
  have htext : (segment header padding ++ "." ++ segment claims padding' ++ "." ++ signature).toList
      = (segment header padding).toList ++ '.' :: ((segment claims padding').toList
        ++ '.' :: signature.toList) := by
    simp only [String.toList_append, List.append_assoc]
    rfl
  -- No dot cuts a segment, so the three parts are found as they were put together.
  have hsegments := segments_append (dot_notMem_segment header padding)
    ((segment claims padding').toList ++ '.' :: signature.toList)
  rw [segments_append (dot_notMem_segment claims padding'), segments_of_notMem hsignature]
    at hsegments
  rw [parse?, htext, hsegments]
  simp only [decodeSegment?_segment hheader, decodeSegment?_segment hclaims, algorithm?, halgorithm,
    Option.bind_eq_bind, Option.bind_some, Json.string?, Algorithm.ofName?_name]
  -- What is kept of the text is a text again.
  have hinput : String.ofList ((segment header padding).toList
      ++ '.' :: (segment claims padding').toList)
        = segment header padding ++ "." ++ segment claims padding' := by
    apply String.toList_injective
    simp only [String.toList_append, String.toList_ofList, List.append_assoc]
    rfl
  rw [hinput, String.ofList_toList]
  rfl

/-- Escapes, nesting, a negative number, and padding on both sides of a dot. -/
theorem parse?_padded_token :
    let header := "eyJ0eXAiOiJKV1QiLCJhbGciOiJFUzI1NiJ9="
    let claims := "eyJzdWIiOiJcIsOpXG4iLCJncm91cHMiOlsiYSIse31dLCJleHAiOi0xfQ==="
    parse? (header ++ "." ++ claims ++ "." ++ "c2ln") = some {
      algorithm := .ecdsa .sha256
      header := [("typ", .string "JWT"), ("alg", .string "ES256")]
      claims := [("sub", .string "\"é\n"), ("groups", .array [.string "a", .object []]),
        ("exp", .number (.int (-1)))]
      signingInput := header ++ "." ++ claims
      signature := "c2ln" } := by
  intro header claims
  have hheader : Json.Fits 127 (.object [("typ", .string "JWT"), ("alg", .string "ES256")]) := by
    refine .object (by decide) ?_
    simp only [List.forall_mem_cons]
    exact ⟨.string _ _, .string _ _, fun m hm => absurd hm List.not_mem_nil⟩
  have hclaims : Json.Fits 127 (.object [("sub", .string "\"é\n"),
      ("groups", .array [.string "a", .object []]), ("exp", .number (.int (-1)))]) := by
    have hgroups : Json.Fits 126 (.array [.string "a", .object []]) := by
      refine .array ?_
      simp only [List.forall_mem_cons]
      exact ⟨.string _ _, .object (by decide) fun m hm => absurd hm List.not_mem_nil,
        fun v hv => absurd hv List.not_mem_nil⟩
    refine .object (by decide) ?_
    simp only [List.forall_mem_cons]
    exact ⟨.string _ _, hgroups, .int _ (by decide) (by decide),
      fun m hm => absurd hm List.not_mem_nil⟩
  have hparts : header = segment [("typ", .string "JWT"), ("alg", .string "ES256")] 1
      ∧ claims = segment [("sub", .string "\"é\n"), ("groups", .array [.string "a", .object []]),
          ("exp", .number (.int (-1)))] 3 := by
    decide +kernel
  have hparsed := parse?_encoded (a := .ecdsa .sha256) hheader hclaims rfl 1 3
    (show '.' ∉ "c2ln".toList by decide)
  rw [← hparts.1, ← hparts.2] at hparsed
  exact hparsed

end Structured

end Token

end ForwardAuth
