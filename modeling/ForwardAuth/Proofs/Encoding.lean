import ForwardAuth.Review.Wire

/-!
# Bodies that cannot be confused

Two texts with the same bytes are the same text, so a body that was sent is known by what was
rendered. A question about a token and one about an access differ in the version they begin with,
whatever names follow it, and neither is ever taken for the other.

## Theorems

* `toList_eq_data`: The bytes of an array as a list.
* `toList_toUTF8`: The bytes of a text are those of its characters, in order.
* `utf8EncodeChar_of_lt`: A character below 0x80 is one byte.
* `ofList_eq_of_toUTF8_eq`, `eq_of_toUTF8_eq`: Two texts with the same bytes are the same.
* `render_eq_of_encode_eq`: Two values with the same bytes are rendered alike.
* `render_envelope`: How the rendering of a review begins.
* `encode_token_ne_access`: A question about a token is not one about an access.
-/

namespace ForwardAuth

theorem toList_loop_eq_data (bytes : ByteArray) (i : Nat) (before : List UInt8) :
    ByteArray.toList.loop bytes i before = before.reverse ++ bytes.data.toList.drop i := by
  fun_induction ByteArray.toList.loop bytes i before with
  | case1 i before hlt ih =>
      have hi : i < bytes.data.toList.length := hlt
      have hbyte : bytes.get! i = bytes.data.toList[i] := getElem!_pos bytes.data i hlt
      rw [ih, List.drop_eq_getElem_cons hi, List.reverse_cons, List.append_assoc,
        List.singleton_append, hbyte]
  | case2 i before hge =>
      have hi : bytes.data.toList.length ≤ i := Nat.le_of_not_lt hge
      rw [List.drop_eq_nil_of_le hi, List.append_nil]

theorem toList_eq_data (bytes : ByteArray) : bytes.toList = bytes.data.toList := by
  rw [ByteArray.toList, toList_loop_eq_data, List.drop_zero]
  rfl

/-- The bytes of a text are those of its characters, in order. -/
theorem toList_toUTF8 (s : String) : s.toUTF8.toList = s.toList.flatMap String.utf8EncodeChar := by
  rw [toList_eq_data, String.toUTF8_eq_toByteArray, ← String.utf8Encode_toList]
  exact List.toList_data_toByteArray

/-- A character below 0x80 is one byte. -/
theorem utf8EncodeChar_of_lt {b : UInt8} (h : b < 0x80) :
    String.utf8EncodeChar (Char.ofNat b.toNat) = [b] := by
  have hall : ∀ n < 0x80, String.utf8EncodeChar (Char.ofNat n) = [UInt8.ofNat n] := by
    decide +kernel
  rw [hall b.toNat (UInt8.lt_iff_toNat_lt.mp h), UInt8.ofNat_toNat]

/-- Two lists of characters with the same bytes are the same. -/
theorem ofList_eq_of_toUTF8_eq {cs cs' : List Char}
    (h : (String.ofList cs).toUTF8.toList = (String.ofList cs').toUTF8.toList) : cs = cs' := by
  rw [toList_eq_data, toList_eq_data] at h
  have hbytes : (String.ofList cs).toByteArray = (String.ofList cs').toByteArray :=
    ByteArray.ext (Array.toList_inj.mp h)
  exact String.ofList_injective (String.toByteArray_inj.mp hbytes)

theorem eq_of_toUTF8_eq {s t : String} (h : s.toUTF8.toList = t.toUTF8.toList) : s = t := by
  rw [← String.ofList_toList (s := s), ← String.ofList_toList (s := t)] at h
  exact String.toList_injective (ofList_eq_of_toUTF8_eq h)

namespace Json

theorem render_eq_of_encode_eq {v w : Json} (h : encode v = encode w) : render v = render w :=
  ofList_eq_of_toUTF8_eq h

end Json

namespace Review

/-- What a review is rendered to begins with its version. -/
theorem render_envelope (version kind : String) (spec : Json) :
    ∃ later, Json.render (envelope version kind spec)
      = '\x7b' :: (Json.quote "apiVersion" ++ ':' :: Json.quote version) ++ ',' :: later := by
  refine ⟨Json.commaSeparated (Json.renderMembers [("kind", .string kind), ("spec", spec)])
    ++ ['\x7d'], ?_⟩
  unfold envelope
  simp only [Json.render, Json.renderMembers, Json.commaSeparated, List.cons_append,
    List.append_assoc]

/-- A question about a token is not one about an access. Both versions are longer than what they
    have in common. -/
theorem encode_token_ne_access (t : TokenQuery) (a : AccessQuery) :
    Json.encode t.body ≠ Json.encode a.body := by
  intro h
  have hrender := Json.render_eq_of_encode_eq h
  unfold TokenQuery.body AccessQuery.body at hrender
  rcases render_envelope "authentication.k8s.io/v1" "TokenReview"
    (.object [("token", .string t.token)]) with ⟨later, htoken⟩
  rcases render_envelope "authorization.k8s.io/v1" "SubjectAccessReview" (.object [
    ("resourceAttributes", .object [("verb", .string a.verb),
      ("resource", .string a.resource.name), ("name", .string a.name)]),
    ("user", .string a.actingUser),
    ("groups", .array (a.actingGroups.map .string))]) with ⟨later', haccess⟩
  rw [htoken, haccess] at hrender
  -- Both begin alike up to the versions, which differ within the first characters.
  have hstart := congrArg (List.take 21) hrender
  rw [List.take_append_of_le_length (by decide +kernel),
    List.take_append_of_le_length (by decide +kernel)] at hstart
  exact absurd hstart (by decide +kernel)

end Review

end ForwardAuth
