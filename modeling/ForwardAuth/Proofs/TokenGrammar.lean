import ForwardAuth.Proofs.Base64Grammar
import ForwardAuth.Proofs.JsonTexts
import Mathlib.Data.List.DropRight

/-!
# The grammar of structured tokens

A token is cut at its dots, padding is taken off the first two parts, what is left is decoded, and
the bytes are read as JSON. Each of these steps is known to be the inverse of a way to write things
down, so together they accept what can be written in this way and nothing else. `IsToken` says how,
from the outside in, and refers to no step of the reading.

Two things follow from the shape of a token alone. Whatever is read, the text can be put together
again from what is kept of it, for the signing input is the text in front of the last dot. And the
signature has no part in the reading but to hold no dot.

## Main definitions

* `Holds`: A segment that is the Base64 of a text, with any padding.
* `knownNames`: The names of the known algorithms.
* `IsToken`: A token as it is written, with what it says.
* `Structured.content`: What is read from a token, apart from its text.
* `Structured.pad`: A segment with more padding.

## Theorems

* `exists_padding`, `trimPadding_append`: What is taken off a segment.
* `segments_eq_cons`, `segments_eq_three`: The first of the parts of a text, and all three of them.
* `Holds.unique`: A text is held in one way, up to padding.
* `decodeSegment?_eq_some_iff`: The object of a segment.
* `algorithm?_eq_some_iff`: The algorithm that a header names.
* `parse?_eq_some_iff`: A token is read if it is one.
* `content_congr`: What is read depends on the objects in the segments alone.
* `parse?_resigned`: A token with another signature.
* `parse?_exact`: The tokens that are read, and that nothing of them is lost.
-/

namespace ForwardAuth

namespace Base64Url

/-- Padding is taken off, however much of it there is. -/
theorem trimPadding_append (text : List Char) (padding : Nat) :
    trimPadding (text ++ List.replicate padding '=') = trimPadding text := by
  have hpadding : ∀ c ∈ List.replicate padding '=', decide (c = '=') = true := fun c hc =>
    decide_eq_true (List.eq_of_mem_replicate hc)
  rw [trimPadding, trimPadding, List.reverse_append, List.reverse_replicate,
    List.dropWhile_append_of_pos hpadding]

/-- Nothing but padding is taken off. -/
theorem exists_padding (text : List Char) :
    ∃ padding, text = trimPadding text ++ List.replicate padding '=' := by
  have hpadding : text.rtakeWhile (fun c => decide (c = '='))
      = List.replicate (text.rtakeWhile fun c => decide (c = '=')).length '=' :=
    List.eq_replicate_of_mem fun c hc => of_decide_eq_true
      (List.mem_rtakeWhile_imp (p := fun c => decide (c = '=')) hc)
  refine ⟨(text.rtakeWhile fun c => decide (c = '=')).length, ?_⟩
  rw [← hpadding]
  exact List.rdropWhile_append_rtakeWhile.symm

theorem Encodes.trimPadding_append {text : List Char} {bytes : List UInt8} (h : Encodes text bytes)
    (padding : Nat) : trimPadding (text ++ List.replicate padding '=') = text := by
  rw [h.eq_encode, trimPadding_encode]

end Base64Url

namespace Token

open Base64Url (Encodes trimPadding)

/-- The segment is the Base64 of the text, followed by any amount of padding. -/
def Holds (segment : List Char) (text : String) : Prop :=
  ∃ encoded padding, segment = encoded ++ List.replicate padding '=' ∧
    Encodes encoded text.toUTF8.toList

/-- The names of the known algorithms. -/
def knownNames : List String :=
  ["HS256", "HS384", "HS512", "RS256", "RS384", "RS512", "ES256", "ES384", "ES512", "PS256",
    "PS384", "PS512", "EdDSA", "none"]

/-- The token is written as `t` says, with these texts for its header and its claims. -/
structure IsToken (token headerText claimsText : String) (t : Structured) : Prop where
  /-- There are two dots, and what stands before the last of them is kept as it is. -/
  dots : ∃ header payload : String, '.' ∉ header.toList ∧ '.' ∉ payload.toList ∧
    '.' ∉ t.signature.toList ∧ token = header ++ "." ++ payload ++ "." ++ t.signature ∧
    t.signingInput = header ++ "." ++ payload ∧
    Holds header.toList headerText ∧ Holds payload.toList claimsText
  /-- The texts are those of objects. -/
  header : Json.IsText headerText (.object t.header)
  claims : Json.IsText claimsText (.object t.claims)
  /-- The header names a known algorithm. -/
  algorithm : ∃ name ∈ knownNames, t.header.get? "alg" = some (.string name) ∧
    t.algorithm.name = name

namespace Structured

/-- What is read from a token, apart from the text that its signature signs. -/
def content (t : Structured) : Algorithm × Json.Members × Json.Members × String :=
  (t.algorithm, t.header, t.claims, t.signature)

/-- A segment with more padding. -/
def pad (segment : String) (padding : Nat) : String :=
  segment ++ String.ofList (List.replicate padding '=')

end Structured

/-! ## Segments -/

theorem segments_ne_nil (text : List Char) : segments text ≠ [] := by
  cases text with
  | nil => exact List.cons_ne_nil _ _
  | cons c text =>
      rw [segments]
      split
      · exact List.cons_ne_nil _ _
      · split
        · exact List.cons_ne_nil _ _
        · exact List.cons_ne_nil _ _

/-- The first part of a text ends with the text or with a dot, and then the others follow. -/
theorem segments_eq_cons {text part : List Char} {parts : List (List Char)}
    (h : segments text = part :: parts) : '.' ∉ part ∧
      (text = part ∧ parts = [] ∨ ∃ rest, text = part ++ '.' :: rest ∧ segments rest = parts) := by
  by_cases hdot : '.' ∈ text
  · rcases List.eq_append_cons_of_mem hdot with ⟨before, rest, rfl, hbefore⟩
    rw [segments_append hbefore] at h
    rcases List.cons.inj h with ⟨rfl, rfl⟩
    exact ⟨hbefore, .inr ⟨rest, rfl, rfl⟩⟩
  · rw [segments_of_notMem hdot] at h
    rcases List.cons.inj h with ⟨rfl, rfl⟩
    exact ⟨hdot, .inl ⟨rfl, rfl⟩⟩

/-- A text has three parts exactly if it has two dots, with the parts around them. -/
theorem segments_eq_three {text header payload signature : List Char} :
    segments text = [header, payload, signature] ↔
      ('.' ∉ header ∧ '.' ∉ payload ∧ '.' ∉ signature) ∧
        text = header ++ '.' :: (payload ++ '.' :: signature) := by
  constructor
  · intro h
    rcases segments_eq_cons h with ⟨hheader, ⟨-, hnil⟩ | ⟨rest, rfl, hrest⟩⟩
    · cases hnil
    rcases segments_eq_cons hrest with ⟨hpayload, ⟨-, hnil⟩ | ⟨last, rfl, hlast⟩⟩
    · cases hnil
    rcases segments_eq_cons hlast with ⟨hsignature, ⟨rfl, -⟩ | ⟨rest, -, hnil⟩⟩
    · exact ⟨⟨hheader, hpayload, hsignature⟩, rfl⟩
    · exact absurd hnil (segments_ne_nil rest)
  · rintro ⟨⟨hheader, hpayload, hsignature⟩, rfl⟩
    rw [segments_append hheader, segments_append hpayload, segments_of_notMem hsignature]

/-- A text is held in one way, up to padding. -/
theorem Holds.unique {segment segment' : List Char} {text : String} (h : Holds segment text)
    (h' : Holds segment' text) : trimPadding segment = trimPadding segment' := by
  rcases h with ⟨encoded, padding, rfl, hencoded⟩
  rcases h' with ⟨encoded', padding', rfl, hencoded'⟩
  rw [hencoded.trimPadding_append, hencoded'.trimPadding_append]
  exact (hencoded.unique hencoded').mpr rfl

/-- The names of the algorithms are the known ones. -/
theorem name_mem (a : Algorithm) : a.name ∈ knownNames := by
  cases a with
  | hmac d => cases d <;> decide
  | rsa d => cases d <;> decide
  | ecdsa d => cases d <;> decide
  | rsaPss d => cases d <;> decide
  | edDsa => decide
  | unsigned => decide

namespace Structured

/-- The object of a segment is that of the text that the segment holds. -/
theorem decodeSegment?_eq_some_iff {segment : List Char} {members : Json.Members} :
    decodeSegment? segment = some members ↔
      ∃ text, Holds segment text ∧ Json.IsText text (.object members) := by
  rw [decodeSegment?, Option.bind_eq_bind, Option.bind_eq_some_iff]
  constructor
  · rintro ⟨bytes, hbytes, h⟩
    rcases Option.bind_eq_some_iff.mp h with ⟨v, hv, hobject⟩
    rcases Json.parse?_eq_some_iff.mp hv with ⟨text, rfl, htext⟩
    rcases Base64Url.exists_padding segment with ⟨padding, hpadding⟩
    rw [Json.object?_eq_some_iff.mp hobject] at htext
    exact ⟨text, ⟨_, padding, hpadding, Base64Url.decode?_eq_some_iff.mp hbytes⟩, htext⟩
  · rintro ⟨text, ⟨encoded, padding, rfl, hencoded⟩, htext⟩
    rw [hencoded.trimPadding_append]
    refine ⟨_, Base64Url.decode?_eq_some_iff.mpr hencoded, ?_⟩
    exact Option.bind_eq_some_iff.mpr ⟨_, Json.parse?_eq_some_iff.mpr ⟨text, rfl, htext⟩, rfl⟩

/-- The algorithm that a header names is one of the known ones. -/
theorem algorithm?_eq_some_iff {header : Json.Members} {a : Algorithm} :
    algorithm? header = some a ↔
      ∃ name ∈ knownNames, header.get? "alg" = some (.string name) ∧ a.name = name := by
  rw [algorithm?, Option.bind_eq_bind, Option.bind_eq_some_iff]
  constructor
  · rintro ⟨v, hv, h⟩
    rcases Option.bind_eq_some_iff.mp h with ⟨name, hname, ha⟩
    rw [Algorithm.ofName?] at ha
    have hfound := List.find?_some ha
    rw [Json.string?_eq_some_iff.mp hname, ← eq_of_beq hfound] at hv
    exact ⟨a.name, name_mem a, hv, rfl⟩
  · rintro ⟨name, -, hv, rfl⟩
    exact ⟨_, hv, Option.bind_eq_some_iff.mpr ⟨_, rfl, Algorithm.ofName?_name a⟩⟩

theorem toList_dotted (header payload signature : String) :
    (header ++ "." ++ payload ++ "." ++ signature).toList
      = header.toList ++ '.' :: (payload.toList ++ '.' :: signature.toList) := by
  simp only [String.toList_append, List.append_assoc]
  rfl

theorem ofList_dotted (header payload : List Char) :
    String.ofList (header ++ '.' :: payload)
      = String.ofList header ++ "." ++ String.ofList payload := by
  apply String.toList_injective
  simp only [String.toList_append, String.toList_ofList, List.append_assoc]
  rfl

/-- A token is read if it is one, and as what it says. -/
theorem parse?_eq_some_iff {token : String} {t : Structured} :
    parse? token = some t ↔ ∃ headerText claimsText, IsToken token headerText claimsText t := by
  rw [parse?]
  constructor
  · intro h
    split at h
    · next header payload signature hsegments =>
      rcases segments_eq_three.mp hsegments with ⟨⟨hheader, hpayload, hsignature⟩, htoken⟩
      rcases Option.bind_eq_some_iff.mp h with ⟨members, hmembers, h⟩
      rcases Option.bind_eq_some_iff.mp h with ⟨a, ha, h⟩
      rcases Option.bind_eq_some_iff.mp h with ⟨claims, hclaims, h⟩
      cases h
      rcases decodeSegment?_eq_some_iff.mp hmembers with ⟨headerText, hholds, htext⟩
      rcases decodeSegment?_eq_some_iff.mp hclaims with ⟨claimsText, hholds', htext'⟩
      refine ⟨headerText, claimsText, ⟨String.ofList header, String.ofList payload, ?_⟩, htext,
        htext', algorithm?_eq_some_iff.mp ha⟩
      simp only [String.toList_ofList]
      refine ⟨hheader, hpayload, hsignature, ?_, ofList_dotted header payload, hholds, hholds'⟩
      apply String.toList_injective
      rw [toList_dotted, htoken]
      simp only [String.toList_ofList]
    · cases h
  · rintro ⟨headerText, claimsText, ⟨header, payload, hheader, hpayload, hsignature, rfl, hinput,
      hholds, hholds'⟩, htext, htext', halgorithm⟩
    rw [toList_dotted, segments_eq_three.mpr ⟨⟨hheader, hpayload, hsignature⟩, rfl⟩]
    simp only [decodeSegment?_eq_some_iff.mpr ⟨headerText, hholds, htext⟩,
      decodeSegment?_eq_some_iff.mpr ⟨claimsText, hholds', htext'⟩,
      algorithm?_eq_some_iff.mpr halgorithm, Option.bind_eq_bind, Option.bind_some]
    rw [ofList_dotted, String.ofList_toList, String.ofList_toList, String.ofList_toList, ← hinput]
    rfl

/-! ## Padding -/

/-- What is read depends on the first two segments through their objects alone. -/
theorem content_congr {header header' payload payload' : String} (hdot : '.' ∉ header.toList)
    (hdot' : '.' ∉ header'.toList) (hdots : '.' ∉ payload.toList) (hdots' : '.' ∉ payload'.toList)
    (hheader : decodeSegment? header.toList = decodeSegment? header'.toList)
    (hpayload : decodeSegment? payload.toList = decodeSegment? payload'.toList) (rest : String) :
    (parse? (header ++ "." ++ payload ++ "." ++ rest)).map content
      = (parse? (header' ++ "." ++ payload' ++ "." ++ rest)).map content := by
  rw [parse?, parse?, toList_dotted, toList_dotted, segments_append hdot, segments_append hdots,
    segments_append hdot', segments_append hdots']
  -- What follows the second dot is the signature, or there are more dots in it.
  rcases segments rest.toList with _ | ⟨signature, _ | ⟨part, parts⟩⟩
  · rfl
  · simp only [hheader, hpayload, Option.bind_eq_bind, Option.map_bind, Function.comp_def]
    rfl
  · rfl

theorem decodeSegment?_pad (segment : String) (padding : Nat) :
    decodeSegment? (pad segment padding).toList = decodeSegment? segment.toList := by
  rw [decodeSegment?, decodeSegment?, pad, String.toList_append, String.toList_ofList,
    Base64Url.trimPadding_append]

theorem dot_notMem_pad {segment : String} (h : '.' ∉ segment.toList) (padding : Nat) :
    '.' ∉ (pad segment padding).toList := by
  rw [pad, String.toList_append, String.toList_ofList, List.mem_append, not_or]
  exact ⟨h, fun hmem => absurd (List.eq_of_mem_replicate hmem) (by decide)⟩

/-! ## Tokens -/

theorem segments_of_isToken {token headerText claimsText : String} {t : Structured}
    (h : IsToken token headerText claimsText t) : ∃ header payload, Holds header headerText ∧
      Holds payload claimsText ∧ segments token.toList = [header, payload, t.signature.toList] := by
  rcases h.dots with ⟨header, payload, hheader, hpayload, hsignature, rfl, -, hholds, hholds'⟩
  refine ⟨_, _, hholds, hholds', ?_⟩
  rw [toList_dotted]
  exact segments_eq_three.mpr ⟨⟨hheader, hpayload, hsignature⟩, rfl⟩

theorem count_dots {header payload signature : List Char} (hheader : '.' ∉ header)
    (hpayload : '.' ∉ payload) (hsignature : '.' ∉ signature) :
    (header ++ '.' :: (payload ++ '.' :: signature)).count '.' = 2 := by
  rw [List.count_append, List.count_cons_self, List.count_append, List.count_cons_self,
    List.count_eq_zero_of_not_mem hheader, List.count_eq_zero_of_not_mem hpayload,
    List.count_eq_zero_of_not_mem hsignature]

-- The text is put together again, also with another signature.
theorem parse?_resigned {token headerText claimsText : String} {t : Structured}
    (h : IsToken token headerText claimsText t) {signature : String}
    (hsignature : '.' ∉ signature.toList) :
    parse? (t.signingInput ++ "." ++ signature) = some { t with signature } := by
  rcases h.dots with ⟨header, payload, hheader, hpayload, -, -, hinput, hholds, hholds'⟩
  exact parse?_eq_some_iff.mpr ⟨headerText, claimsText,
    ⟨header, payload, hheader, hpayload, hsignature, by rw [hinput], hinput, hholds, hholds'⟩,
    h.header, h.claims, h.algorithm⟩

/-- A text is read as a token exactly if it is one: it has two dots, what is in front of each is the
    Base64 of a JSON text of an object with any padding, and the first of these objects names a
    known algorithm. The text can be put together again from what is kept, so two tokens that are
    read alike are the same. No signature without a dot makes a difference to the rest, and no
    padding of the first two segments makes a difference to anything but the signing input. Up to
    this padding, a token is known from the two texts in it and its signature. -/
theorem parse?_exact (token : String) :
    (∀ t, parse? token = some t ↔
      ∃ headerText claimsText, IsToken token headerText claimsText t) ∧
    (∀ t, parse? token = some t → token.toList.count '.' = 2 ∧
      t.signingInput ++ "." ++ t.signature = token ∧ '.' ∉ t.signature.toList ∧
      t.header.get? "alg" = some (.string t.algorithm.name) ∧
      (∀ signature : String, '.' ∉ signature.toList →
        parse? (t.signingInput ++ "." ++ signature) = some { t with signature }) ∧
      ∀ token', parse? token' = some t → token' = token) ∧
    (∀ (header payload rest : String) (padding padding' : Nat), '.' ∉ header.toList →
      '.' ∉ payload.toList → token = header ++ "." ++ payload ++ "." ++ rest →
      (parse? (pad header padding ++ "." ++ pad payload padding' ++ "." ++ rest)).map content
        = (parse? token).map content) ∧
    ∀ (token' headerText claimsText : String) (t t' : Structured),
      IsToken token headerText claimsText t → IsToken token' headerText claimsText t' →
      t.signature = t'.signature →
      (segments token.toList).map trimPadding = (segments token'.toList).map trimPadding := by
  have htoken : ∀ {token : String} {t : Structured}, parse? token = some t →
      token = t.signingInput ++ "." ++ t.signature := by
    intro token t h
    rcases parse?_eq_some_iff.mp h with ⟨headerText, claimsText, his⟩
    rcases his.dots with ⟨header, payload, -, -, -, hdotted, hinput, -, -⟩
    rw [hinput]
    exact hdotted
  refine ⟨fun t => parse?_eq_some_iff, fun t h => ?_, ?_, ?_⟩
  · rcases parse?_eq_some_iff.mp h with ⟨headerText, claimsText, his⟩
    rcases his.dots with ⟨header, payload, hheader, hpayload, hsignature, hdotted, -, -, -⟩
    rcases his.algorithm with ⟨name, -, hname, ha⟩
    refine ⟨?_, (htoken h).symm, hsignature, ha ▸ hname, fun _ => parse?_resigned his,
      fun token' h' => (htoken h').trans (htoken h).symm⟩
    rw [hdotted, toList_dotted]
    exact count_dots hheader hpayload hsignature
  · rintro header payload rest padding padding' hheader hpayload rfl
    exact content_congr (dot_notMem_pad hheader padding) hheader (dot_notMem_pad hpayload padding')
      hpayload (decodeSegment?_pad header padding) (decodeSegment?_pad payload padding') rest
  · intro token' headerText claimsText t t' his his' hsignature
    rcases segments_of_isToken his with ⟨header, payload, hheader, hpayload, hsegments⟩
    rcases segments_of_isToken his' with ⟨header', payload', hheader', hpayload', hsegments'⟩
    rw [hsegments, hsegments', hsignature]
    simp only [List.map_cons, hheader.unique hheader', hpayload.unique hpayload']

/-- A token that is not signed, without padding and with some, and then signed. -/
theorem parse?_unsigned_token :
    (∃ headerText claimsText, IsToken "eyJhbGciOiJub25lIn0.e30." headerText claimsText {
        algorithm := .unsigned
        header := [("alg", .string "none")]
        claims := []
        signingInput := "eyJhbGciOiJub25lIn0.e30"
        signature := "" }) ∧
      (parse? "eyJhbGciOiJub25lIn0=.e30===.").map content
        = some (.unsigned, [("alg", .string "none")], [], "") ∧
      parse? ("eyJhbGciOiJub25lIn0.e30" ++ "." ++ "c2ln") = some {
        algorithm := .unsigned
        header := [("alg", .string "none")]
        claims := []
        signingInput := "eyJhbGciOiJub25lIn0.e30"
        signature := "c2ln" } := by
  have hparsed : parse? "eyJhbGciOiJub25lIn0.e30." = some {
      algorithm := .unsigned
      header := [("alg", .string "none")]
      claims := []
      signingInput := "eyJhbGciOiJub25lIn0.e30"
      signature := "" } := rfl
  rcases parse?_exact "eyJhbGciOiJub25lIn0.e30." with ⟨hiff, hkept, hpadding, -⟩
  have hpadded := hpadding "eyJhbGciOiJub25lIn0" "e30" "" 1 3 (by decide) (by decide) rfl
  rw [hparsed] at hpadded
  exact ⟨(hiff _).mp hparsed, hpadded, (hkept _ hparsed).2.2.2.2.1 "c2ln" (by decide)⟩

end Structured

end Token

end ForwardAuth
