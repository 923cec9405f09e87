import ForwardAuth.Proofs.TokenRoundtrip

/-!
# The Base64 of bytes

Base64 is written and read by groups, and at the end by what is left of a group. Said of the bits
there are no groups: each character stands for six of them, and together they are the bits of the
bytes and fewer than six zeros. This fixes everything that is refused. A single character more than
the groups has six bits and no byte to put them in, and a bit at the end that is not zero belongs to
no byte.

So a list of bytes has one text and no other, the one that is written for it. That its bits are the
right ones is shown group by group, as `bits_add` cuts a number into its digits in any base that is
a power of two; then nothing is left to be read but this text.

## Main definitions

* `bits`: The last bits of a number.
* `alphabet`: The characters, in the order of what they stand for.
* `Encodes`: The text that is the Base64 of bytes.

## Theorems

* `bits_add`, `bits_mod`, `bits_injective`: The bits of a number.
* `encodes_encode`: What is written for bytes is their Base64.
* `Encodes.eq_encode`: Bytes have no other Base64.
* `decode?_eq_some_iff`: A text is read as the bytes whose Base64 it is.
* `Encodes.unique`: Bytes have one Base64, and are known from it.
-/

namespace ForwardAuth.Base64Url

/-- The last bits of a number, so many of them, the greatest first. -/
def bits : Nat → Nat → List Bool
  | 0, _ => []
  | width + 1, n => bits width (n / 2) ++ [n % 2 == 1]

/-- The characters, in the order of the numbers that they stand for. -/
def alphabet : List Char :=
  "ABCDEFGHIJKLMNOPQRSTUVWXYZabcdefghijklmnopqrstuvwxyz0123456789-_".toList

/-- The text is the Base64 of the bytes: its characters are of the alphabet, and the bits that they
    stand for, six each, are those of the bytes and then fewer than six zeros. -/
def Encodes (text : List Char) (bytes : List UInt8) : Prop :=
  (∀ c ∈ text, c ∈ alphabet) ∧ ∃ spare < 6,
    text.flatMap (fun c => bits 6 (alphabet.idxOf c))
      = bytes.flatMap (fun b => bits 8 b.toNat) ++ List.replicate spare false

/-! ## Bits -/

theorem length_bits (width n : Nat) : (bits width n).length = width := by
  induction width generalizing n with
  | zero => rfl
  | succ width ih => rw [bits, List.length_append, ih, List.length_singleton]

/-- The last bits of a number are those of its quotient by a power of two, and then as many more. -/
theorem bits_add (width more n : Nat) :
    bits (width + more) n = bits width (n / Nat.pow 2 more) ++ bits more n := by
  induction more generalizing n with
  | zero => exact (congrArg (bits width) (Nat.div_one n).symm).trans (List.append_nil _).symm
  | succ more ih =>
      have hpower : n / 2 / Nat.pow 2 more = n / Nat.pow 2 (more + 1) := by
        rw [Nat.div_div_eq_div_mul, Nat.mul_comm]
        rfl
      rw [bits, ← Nat.add_assoc, bits, ih, hpower, List.append_assoc]

theorem bits_mod (width n : Nat) : bits width (n % Nat.pow 2 width) = bits width n := by
  induction width generalizing n with
  | zero => rfl
  | succ width ih =>
      have hpower : Nat.pow 2 (width + 1) = 2 * Nat.pow 2 width := Nat.mul_comm _ _
      rw [bits, bits, hpower, Nat.mod_mul_right_div_self, Nat.mod_mul_right_mod, ih]

theorem bits_zero (width : Nat) : bits width 0 = List.replicate width false := by
  induction width with
  | zero => rfl
  | succ width ih => rw [bits, List.replicate_succ', ih]; rfl

/-- A number of no more bits is known from them. -/
theorem bits_injective {width n m : Nat} (hn : n < Nat.pow 2 width) (hm : m < Nat.pow 2 width)
    (h : bits width n = bits width m) : n = m := by
  induction width generalizing n m with
  | zero => exact (Nat.lt_one_iff.mp hn).trans (Nat.lt_one_iff.mp hm).symm
  | succ width ih =>
      have hpower : Nat.pow 2 (width + 1) = Nat.pow 2 width * 2 := rfl
      rcases List.append_inj' h rfl with ⟨hbefore, hlast⟩
      have hhalf : n / 2 = m / 2 := ih (by omega) (by omega) hbefore
      have hodd : (n % 2 == 1) = (m % 2 == 1) := (List.cons.inj hlast).1
      rw [Bool.eq_iff_iff, beq_iff_eq, beq_iff_eq] at hodd
      omega

/-! ## The Base64 that is written -/

theorem eq_of_bits_eq {text text' : List Char} (h : ∀ c ∈ text, c ∈ alphabet)
    (h' : ∀ c ∈ text', c ∈ alphabet)
    (hbits : text.flatMap (fun c => bits 6 (alphabet.idxOf c))
      = text'.flatMap (fun c => bits 6 (alphabet.idxOf c))) : text = text' := by
  have hindex : ∀ c ∈ alphabet, alphabet.idxOf c < Nat.pow 2 6 := fun c hc =>
    List.idxOf_lt_length_of_mem hc
  induction text generalizing text' with
  | nil =>
      cases text' with
      | nil => rfl
      | cons c' text' => cases congrArg List.length hbits
  | cons c text ih =>
      cases text' with
      | nil => cases congrArg List.length hbits
      | cons c' text' =>
          rw [List.forall_mem_cons] at h h'
          rw [List.flatMap_cons, List.flatMap_cons] at hbits
          rcases List.append_inj hbits ((length_bits 6 _).trans (length_bits 6 _).symm) with
            ⟨hfirst, hlater⟩
          have hchar := bits_injective (hindex c h.1) (hindex c' h'.1) hfirst
          rw [(List.idxOf_inj h.1).mp hchar, ih h.2 h'.2 hlater]

theorem char_mem {n : Nat} (h : n < 64) : char n ∈ alphabet ∧ alphabet.idxOf (char n) = n := by
  have hall : ∀ n < 64, char n ∈ alphabet ∧ alphabet.idxOf (char n) = n := by decide +kernel
  exact hall n h

-- The digits in base 64 of a number of 24, 18 or 12 bits.
theorem bits_sixes (n : Nat) :
    bits 24 n = bits 6 (n / 262144) ++ (bits 6 (n / 4096 % 64) ++ (bits 6 (n / 64 % 64) ++
      bits 6 (n % 64))) ∧
    bits 18 n = bits 6 (n / 4096) ++ (bits 6 (n / 64 % 64) ++ bits 6 (n % 64)) ∧
    bits 12 n = bits 6 (n / 64) ++ bits 6 (n % 64) := by
  have hmod : ∀ m, bits 6 (m % 64) = bits 6 m := bits_mod 6
  have h12 : bits 12 n = bits 6 (n / 64) ++ bits 6 n := bits_add 6 6 n
  have h18 : bits 18 n = bits 6 (n / 4096) ++ bits 12 n := bits_add 6 12 n
  have h24 : bits 24 n = bits 6 (n / 262144) ++ bits 18 n := bits_add 6 18 n
  rw [h24, h18, h12, hmod, hmod, hmod]
  exact ⟨rfl, rfl, rfl⟩

theorem bits_byte (width n : Nat) (b : UInt8) :
    bits (width + 8) (n * 256 + b.toNat) = bits width n ++ bits 8 b.toNat := by
  have hb := b.toNat_lt
  have hadd : bits (width + 8) (n * 256 + b.toNat)
      = bits width ((n * 256 + b.toNat) / 256) ++ bits 8 (n * 256 + b.toNat) := bits_add width 8 _
  have hmod : bits 8 ((n * 256 + b.toNat) % 256) = bits 8 (n * 256 + b.toNat) := bits_mod 8 _
  rw [hadd, ← hmod, show (n * 256 + b.toNat) / 256 = n by omega,
    show (n * 256 + b.toNat) % 256 = b.toNat by omega]

/-- What is written for bytes is their Base64. -/
theorem encodes_encode (bytes : List UInt8) : Encodes (encode bytes) bytes := by
  refine ⟨fun c hc => ?_, ?_⟩
  · rcases exists_char_of_mem_encode hc with ⟨n, hn, rfl⟩
    exact (char_mem hn).1
  -- By groups. The last of them is filled up with zeros.
  have hfill : ∀ (width spare n : Nat), bits (width + spare) (n * Nat.pow 2 spare)
      = bits width n ++ List.replicate spare false := by
    intro width spare n
    have hpositive : 0 < Nat.pow 2 spare := Nat.pow_pos (by decide)
    rw [bits_add, Nat.mul_div_cancel _ hpositive, ← bits_mod spare, Nat.mul_mod_left, bits_zero]
  induction bytes using encode.induct with
  | case1 => exact ⟨0, by decide, rfl⟩
  | case2 a =>
      have ha := a.toNat_lt
      have hzeros : bits 12 (a.toNat * 16) = bits 8 a.toNat ++ List.replicate 4 false := hfill 8 4 _
      refine ⟨4, by decide, ?_⟩
      simp only [encode, List.flatMap_cons, List.flatMap_nil, List.append_nil]
      rw [(char_mem (by omega)).2, (char_mem (by omega)).2, ← (bits_sixes _).2.2, hzeros]
  | case3 a b =>
      have ha := a.toNat_lt
      have hb := b.toNat_lt
      have hzeros : bits 18 ((a.toNat * 256 + b.toNat) * 4)
          = bits 16 (a.toNat * 256 + b.toNat) ++ List.replicate 2 false := hfill 16 2 _
      refine ⟨2, by decide, ?_⟩
      simp only [encode, List.flatMap_cons, List.flatMap_nil, List.append_nil]
      rw [(char_mem (by omega)).2, (char_mem (by omega)).2, (char_mem (by omega)).2,
        ← (bits_sixes _).2.1, hzeros, bits_byte 8]
  | case4 a b c rest ih =>
      have ha := a.toNat_lt
      have hb := b.toNat_lt
      have hc := c.toNat_lt
      rcases ih with ⟨spare, hspare, hrest⟩
      have hgroup : bits 24 ((a.toNat * 256 + b.toNat) * 256 + c.toNat)
          = bits 8 a.toNat ++ bits 8 b.toNat ++ bits 8 c.toNat :=
        (bits_byte 16 _ c).trans (congrArg (· ++ bits 8 c.toNat) (bits_byte 8 a.toNat b))
      rw [(bits_sixes _).1] at hgroup
      refine ⟨spare, hspare, ?_⟩
      simp only [encode, List.flatMap_cons]
      rw [(char_mem (by omega)).2, (char_mem (by omega)).2, (char_mem (by omega)).2,
        (char_mem (by omega)).2, hrest]
      simpa only [List.append_assoc] using congrArg
        (· ++ (rest.flatMap (fun b => bits 8 b.toNat) ++ List.replicate spare false)) hgroup

/-- Bytes have no other Base64 than what is written for them. -/
theorem Encodes.eq_encode {text : List Char} {bytes : List UInt8} (h : Encodes text bytes) :
    text = encode bytes := by
  rcases h with ⟨hmem, spare, hspare, hbits⟩
  rcases encodes_encode bytes with ⟨hmem', spare', hspare', hbits'⟩
  have hlength : ∀ cs : List Char,
      (cs.flatMap fun c => bits 6 (alphabet.idxOf c)).length = cs.length * 6 := by
    intro cs
    induction cs with
    | nil => rfl
    | cons c cs ih =>
        rw [List.flatMap_cons, List.length_append, length_bits, ih, List.length_cons]
        omega
  -- Both texts have the bits of the bytes, so the zeros are as many in one as in the other.
  have hcount := congrArg List.length hbits
  have hcount' := congrArg List.length hbits'
  rw [hlength, List.length_append, List.length_replicate] at hcount hcount'
  have hspares : spare = spare' := by omega
  rw [hspares, ← hbits'] at hbits
  exact eq_of_bits_eq hmem hmem' hbits

/-! ## The Base64 that is read -/

theorem value?_eq_some {c : Char} {n : Nat} (h : value? c = some n) : n < 64 ∧ c = char n := by
  have hascii : c.toNat < 128 := by
    have hle : ∀ d : Char, c ≤ d → c.toNat ≤ d.toNat := fun d hd => hd
    unfold value? at h
    split_ifs at h with hupper hlower hdigit hminus hunderscore
    · exact Nat.lt_of_le_of_lt (hle 'Z' hupper.2) (by decide)
    · exact Nat.lt_of_le_of_lt (hle 'z' hlower.2) (by decide)
    · exact Nat.lt_of_le_of_lt (hle '9' hdigit.2) (by decide)
    · rw [hminus]
      decide
    · rw [hunderscore]
      decide
  have hall : ∀ k < 128, ∀ n ∈ value? (Char.ofNat k), n < 64 ∧ Char.ofNat k = char n := by
    decide +kernel
  have hc := hall c.toNat hascii n
  rw [Char.ofNat_toNat] at hc
  exact hc h

/-- What is written for the bytes that are read is the text. -/
theorem encode_of_decode? {text : List Char} {bytes : List UInt8} (h : decode? text = some bytes) :
    encode bytes = text := by
  have hbyte : ∀ {n : Nat}, n < 256 → (UInt8.ofNat n).toNat = n := fun h =>
    UInt8.toNat_ofNat_of_lt' h
  -- By groups, as in the other direction: the digits of the number in base 256 make it up again.
  induction text using decode?.induct generalizing bytes with
  | case1 =>
      cases h
      rfl
  | case2 c => cases h
  | case3 a b =>
      rw [decode?] at h
      rcases Option.bind_eq_some_iff.mp h with ⟨x, hx, h⟩
      rcases Option.bind_eq_some_iff.mp h with ⟨y, hy, h⟩
      rcases Option.bind_eq_some_iff.mp h with ⟨_, hzeros, h⟩
      cases h
      rcases value?_eq_some hx with ⟨hx, rfl⟩
      rcases value?_eq_some hy with ⟨hy, rfl⟩
      have hspare := (Option.guard_eq_some' ()).mp hzeros
      have hnumber : (x * 64 + y) / 16 * 16 = x * 64 + y := by omega
      simp only [encode]
      rw [hbyte (by omega), hnumber, show (x * 64 + y) / 64 = x by omega,
        show (x * 64 + y) % 64 = y by omega]
  | case4 a b c =>
      rw [decode?] at h
      rcases Option.bind_eq_some_iff.mp h with ⟨x, hx, h⟩
      rcases Option.bind_eq_some_iff.mp h with ⟨y, hy, h⟩
      rcases Option.bind_eq_some_iff.mp h with ⟨z, hz, h⟩
      rcases Option.bind_eq_some_iff.mp h with ⟨_, hzeros, h⟩
      cases h
      rcases value?_eq_some hx with ⟨hx, rfl⟩
      rcases value?_eq_some hy with ⟨hy, rfl⟩
      rcases value?_eq_some hz with ⟨hz, rfl⟩
      have hspare := (Option.guard_eq_some' ()).mp hzeros
      have hnumber : (((x * 64 + y) * 64 + z) / 1024 * 256 + ((x * 64 + y) * 64 + z) / 4 % 256) * 4
          = (x * 64 + y) * 64 + z := by omega
      simp only [encode]
      rw [hbyte (by omega), hbyte (by omega), hnumber,
        show ((x * 64 + y) * 64 + z) / 4096 = x by omega,
        show ((x * 64 + y) * 64 + z) / 64 % 64 = y by omega,
        show ((x * 64 + y) * 64 + z) % 64 = z by omega]
  | case5 a b c d rest ih =>
      rw [decode?] at h
      rcases Option.bind_eq_some_iff.mp h with ⟨x, hx, h⟩
      rcases Option.bind_eq_some_iff.mp h with ⟨y, hy, h⟩
      rcases Option.bind_eq_some_iff.mp h with ⟨z, hz, h⟩
      rcases Option.bind_eq_some_iff.mp h with ⟨w, hw, h⟩
      rcases Option.bind_eq_some_iff.mp h with ⟨bytes', hbytes', h⟩
      cases h
      rcases value?_eq_some hx with ⟨hx, rfl⟩
      rcases value?_eq_some hy with ⟨hy, rfl⟩
      rcases value?_eq_some hz with ⟨hz, rfl⟩
      rcases value?_eq_some hw with ⟨hw, rfl⟩
      -- The number of the group, which both its digits in base 64 and its bytes make up.
      generalize hn : ((x * 64 + y) * 64 + z) * 64 + w = n
      have hnumber : (n / 65536 * 256 + n / 256 % 256) * 256 + n % 256 = n := by omega
      simp only [encode]
      rw [hbyte (by omega), hbyte (by omega), hbyte (by omega), ih hbytes', hnumber,
        show n / 262144 = x by omega, show n / 4096 % 64 = y by omega,
        show n / 64 % 64 = z by omega, show n % 64 = w by omega]

/-- A text is read as the bytes whose Base64 it is. -/
theorem decode?_eq_some_iff {text : List Char} {bytes : List UInt8} :
    decode? text = some bytes ↔ Encodes text bytes := by
  constructor
  · intro h
    rw [← encode_of_decode? h]
    exact encodes_encode bytes
  · intro h
    rw [h.eq_encode]
    exact decode?_encode bytes

/-- Bytes have one Base64, and are known from it. -/
theorem Encodes.unique {text text' : List Char} {bytes bytes' : List UInt8} (h : Encodes text bytes)
    (h' : Encodes text' bytes') : text = text' ↔ bytes = bytes' := by
  constructor
  · rintro rfl
    exact Option.some.inj ((decode?_eq_some_iff.mpr h).symm.trans (decode?_eq_some_iff.mpr h'))
  · rintro rfl
    exact h.eq_encode.trans h'.eq_encode.symm

end ForwardAuth.Base64Url
