import ForwardAuth.Http.Headers
import ForwardAuth.Proofs.Blank
import ForwardAuth.Proofs.Encoding

/-!
# What a header value says

A header value is a list of bytes, and programs decide on its text. The two say the same whenever
the value has a text at all: its bytes are then the bytes of the text, one for each character. So a
statement about the text of a value can be read as one about the bytes that were received.

Among the characters that such a text may hold only the space and the tab are blank. Whatever else
the property `White_Space` covers is of no account in a header.

## Theorems

* `text?_eq_some_iff`: The text of a value is the one with its bytes.
* `isTextByte_iff`: The bytes of a text are visible ASCII characters, spaces and tabs.
* `isBlank_iff_of_text?`: Of the characters of a value only spaces and tabs are blank.
-/

namespace ForwardAuth.Http

theorem isTextByte_iff (b : UInt8) : isTextByte b = true ↔ b = 0x09 ∨ (0x20 ≤ b ∧ b < 0x7F) := by
  unfold isTextByte
  rw [Bool.or_eq_true, beq_iff_eq, Bool.and_eq_true, decide_eq_true_eq, decide_eq_true_eq]

theorem lt_of_isTextByte {b : UInt8} (h : isTextByte b = true) : b < 0x80 := by
  rcases (isTextByte_iff b).mp h with rfl | ⟨-, h⟩
  · decide
  · exact UInt8.lt_trans h (by decide)

namespace HeaderValue

-- The characters that stand for the bytes of a text are encoded as these bytes.
theorem toUTF8_of_isTextByte {bytes : List UInt8} (h : ∀ b ∈ bytes, isTextByte b = true) :
    (String.ofList (bytes.map fun b => Char.ofNat b.toNat)).toUTF8.toList = bytes := by
  rw [toList_toUTF8, String.toList_ofList]
  induction bytes with
  | nil => rfl
  | cons b bytes ih =>
      have hb := utf8EncodeChar_of_lt (lt_of_isTextByte (h b List.mem_cons_self))
      rw [List.map_cons, List.flatMap_cons, hb, ih fun b hb => h b (List.mem_cons_of_mem _ hb),
        List.singleton_append]

/-- The text of a value is the one with its bytes, if these are bytes of a text. -/
theorem text?_eq_some_iff (v : HeaderValue) (s : String) :
    v.text? = some s ↔ (∀ b ∈ v.bytes, isTextByte b = true) ∧ s.toUTF8.toList = v.bytes := by
  unfold text?
  by_cases htext : v.bytes.all isTextByte = true
  · have hall := List.all_eq_true.mp htext
    rw [if_pos htext, Option.some.injEq]
    constructor
    · rintro rfl
      exact ⟨hall, toUTF8_of_isTextByte hall⟩
    · rintro ⟨-, hs⟩
      exact eq_of_toUTF8_eq ((toUTF8_of_isTextByte hall).trans hs.symm)
  · rw [if_neg htext]
    constructor
    · intro h
      cases h
    · rintro ⟨hall, -⟩
      exact absurd (List.all_eq_true.mpr hall) htext

theorem isBlank_iff_of_text? {v : HeaderValue} {s : String} (h : v.text? = some s) {c : Char}
    (hc : c ∈ s.toList) : Text.isBlank c = true ↔ c = ' ' ∨ c = '\t' := by
  rcases (text?_eq_some_iff v s).mp h with ⟨hall, hs⟩
  have hchars : s = String.ofList (v.bytes.map fun b => Char.ofNat b.toNat) :=
    eq_of_toUTF8_eq (hs.trans (toUTF8_of_isTextByte hall).symm)
  rw [hchars, String.toList_ofList, List.mem_map] at hc
  rcases hc with ⟨b, hb, rfl⟩
  -- There are so few visible characters that each of them can be asked.
  have hblank : ∀ n < 0x80, Text.isBlank (Char.ofNat n) = true → isTextByte (UInt8.ofNat n) = true →
      Char.ofNat n = ' ' ∨ Char.ofNat n = '\t' := by decide +kernel
  constructor
  · intro h
    refine hblank b.toNat (UInt8.lt_iff_toNat_lt.mp (lt_of_isTextByte (hall b hb))) h ?_
    rw [UInt8.ofNat_toNat]
    exact hall b hb
  · rintro (h | h)
    · rw [h]
      rfl
    · rw [h]
      rfl

end HeaderValue

end ForwardAuth.Http
