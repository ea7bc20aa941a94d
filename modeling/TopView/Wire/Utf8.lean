import Mathlib.Tactic.Common

namespace topview.wire

/-- A byte inside a character. -/
def IsTrail (byte : UInt8) : Prop := 0x80 ≤ byte.toNat ∧ byte.toNat < 0xC0

/-- The bytes of one character, by the ranges of its bytes. Surrogates and
    longer forms are left out by the range of the second byte. -/
inductive IsUtf8Char : List UInt8 → Prop
  | one {first : UInt8} (hfirst : first.toNat < 0x80) : IsUtf8Char [first]
  | two {first second : UInt8} (hlow : 0xC2 ≤ first.toNat) (hhigh : first.toNat < 0xE0)
      (hsecond : IsTrail second) : IsUtf8Char [first, second]
  | three {first second third : UInt8} (hlow : 0xE0 ≤ first.toNat) (hhigh : first.toNat < 0xF0)
      (hsecond : IsTrail second) (hlong : first.toNat = 0xE0 → 0xA0 ≤ second.toNat)
      (hsurrogate : first.toNat = 0xED → second.toNat < 0xA0) (hthird : IsTrail third) :
    IsUtf8Char [first, second, third]
  | four {first second third fourth : UInt8} (hlow : 0xF0 ≤ first.toNat) (hhigh : first.toNat < 0xF5)
      (hsecond : IsTrail second) (hlong : first.toNat = 0xF0 → 0x90 ≤ second.toNat)
      (hlimit : first.toNat = 0xF4 → second.toNat < 0x90) (hthird : IsTrail third)
      (hfourth : IsTrail fourth) : IsUtf8Char [first, second, third, fourth]

/-- The bytes of a sequence of characters. -/
inductive IsUtf8 : List UInt8 → Prop
  | nil : IsUtf8 []
  | cons {char rest : List UInt8} (hchar : IsUtf8Char char) (hrest : IsUtf8 rest) : IsUtf8 (char ++ rest)

/-- The ranges are those of the encoding of a character. -/
theorem isUtf8Char_encode (char : Char) : IsUtf8Char (String.utf8EncodeChar char) := by
  have hvalid := char.valid
  unfold UInt32.isValidChar Nat.isValidChar at hvalid
  unfold String.utf8EncodeChar
  dsimp only
  split
  · next hone =>
    apply IsUtf8Char.one
    rw [UInt8.toNat_ofNat']
    omega
  · split
    · next hone htwo =>
      apply IsUtf8Char.two <;> simp only [IsTrail, UInt8.toNat_ofNat'] <;> omega
    · split
      · next hone htwo hthree =>
        apply IsUtf8Char.three <;> simp only [IsTrail, UInt8.toNat_ofNat'] <;> omega
      · next hone htwo hthree =>
        apply IsUtf8Char.four <;> simp only [IsTrail, UInt8.toNat_ofNat'] <;> omega

/-- A character with a given code. -/
def charOf (code : Nat) (hvalid : code.isValidChar) : Char := Char.ofNatAux code hvalid

theorem toNat_charOf {code : Nat} (hvalid : code.isValidChar) : (charOf code hvalid).val.toNat = code := by
  rfl

theorem ofNat_eq {byte : UInt8} {value : Nat} (heq : value = byte.toNat) : UInt8.ofNat value = byte := by
  rw [heq, UInt8.ofNat_toNat]

/-- Bytes in the ranges are the encoding of a character. -/
theorem IsUtf8Char.exists_char {bytes : List UInt8} (hchar : IsUtf8Char bytes) :
    ∃ char, String.utf8EncodeChar char = bytes := by
  cases hchar with
  | @one first hfirst =>
    have hvalid : first.toNat.isValidChar := Or.inl (by omega)
    refine ⟨charOf first.toNat hvalid, ?_⟩
    rw [String.utf8EncodeChar, toNat_charOf, if_pos (by omega), ofNat_eq rfl]
  | @two first second hlow hhigh hsecond =>
    unfold IsTrail at hsecond
    have hvalid : (first.toNat % 32 * 64 + second.toNat % 64).isValidChar := Or.inl (by omega)
    refine ⟨charOf _ hvalid, ?_⟩
    rw [String.utf8EncodeChar, toNat_charOf, if_neg (by omega), if_pos (by omega),
      @ofNat_eq first _ (by omega), @ofNat_eq second _ (by omega)]
  | @three first second third hlow hhigh hsecond hlong hsurrogate hthird =>
    unfold IsTrail at hsecond hthird
    have hvalid : (first.toNat % 16 * 4096 + second.toNat % 64 * 64 + third.toNat % 64).isValidChar := by
      unfold Nat.isValidChar
      omega
    refine ⟨charOf _ hvalid, ?_⟩
    rw [String.utf8EncodeChar, toNat_charOf, if_neg (by omega), if_neg (by omega), if_pos (by omega),
      @ofNat_eq first _ (by omega), @ofNat_eq second _ (by omega), @ofNat_eq third _ (by omega)]
  | @four first second third fourth hlow hhigh hsecond hlong hlimit hthird hfourth =>
    unfold IsTrail at hsecond hthird hfourth
    have hvalid : (first.toNat % 8 * 262144 + second.toNat % 64 * 4096 + third.toNat % 64 * 64 +
        fourth.toNat % 64).isValidChar := by
      unfold Nat.isValidChar
      omega
    refine ⟨charOf _ hvalid, ?_⟩
    rw [String.utf8EncodeChar, toNat_charOf, if_neg (by omega), if_neg (by omega), if_neg (by omega),
      @ofNat_eq first _ (by omega), @ofNat_eq second _ (by omega), @ofNat_eq third _ (by omega),
      @ofNat_eq fourth _ (by omega)]

/-- The bytes by their ranges are exactly the encodings of sequences of
    characters. -/
theorem isUtf8_iff {bytes : List UInt8} :
    IsUtf8 bytes ↔ ∃ chars : List Char, bytes = chars.flatMap String.utf8EncodeChar := by
  constructor
  · intro hbytes
    induction hbytes with
    | nil => exact ⟨[], rfl⟩
    | cons hchar _ ih =>
      obtain ⟨char, rfl⟩ := hchar.exists_char
      obtain ⟨chars, rfl⟩ := ih
      exact ⟨char :: chars, rfl⟩
  · rintro ⟨chars, rfl⟩
    induction chars with
    | nil => exact .nil
    | cons char chars ih => exact .cons (isUtf8Char_encode char) ih

theorem IsUtf8.append {first second : List UInt8} (hfirst : IsUtf8 first) (hsecond : IsUtf8 second) :
    IsUtf8 (first ++ second) := by
  induction hfirst with
  | nil => exact hsecond
  | cons hchar _ ih =>
    rw [List.append_assoc]
    exact .cons hchar ih

end topview.wire
