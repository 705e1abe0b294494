/-! The byte sequences of UTF-8, as a grammar of bytes. They are those that characters are encoded
to. -/
namespace TypedRecords.Utf8

def Continues (b : UInt8) : Prop := 0x80 ≤ b.toNat ∧ b.toNat ≤ 0xBF

/-- The bytes of one character. No character has more bytes than it needs, none is a surrogate, and
none lies beyond the last code point. -/
inductive Sequence : List UInt8 → Prop
  | one {a : UInt8} (ascii : a.toNat ≤ 0x7F) : Sequence [a]
  | two {a b : UInt8} (lead : 0xC2 ≤ a.toNat ∧ a.toNat ≤ 0xDF) (second : Continues b) :
      Sequence [a, b]
  | three {a b c : UInt8} (lead : 0xE0 ≤ a.toNat ∧ a.toNat ≤ 0xEF) (second : Continues b)
      (third : Continues c) (shortest : a.toNat = 0xE0 → 0xA0 ≤ b.toNat)
      (noSurrogate : a.toNat = 0xED → b.toNat ≤ 0x9F) : Sequence [a, b, c]
  | four {a b c d : UInt8} (lead : 0xF0 ≤ a.toNat ∧ a.toNat ≤ 0xF4) (second : Continues b)
      (third : Continues c) (fourth : Continues d) (shortest : a.toNat = 0xF0 → 0x90 ≤ b.toNat)
      (noneBeyond : a.toNat = 0xF4 → b.toNat ≤ 0x8F) : Sequence [a, b, c, d]

inductive WellFormed : List UInt8 → Prop
  | nil : WellFormed []
  | append {first rest : List UInt8} (sequence : Sequence first) (wellFormed : WellFormed rest) :
      WellFormed (first ++ rest)

theorem sequence_utf8EncodeChar (c : Char) : Sequence (String.utf8EncodeChar c) := by
  have valid : c.val.toNat < 0xD800 ∨ 0xDFFF < c.val.toNat ∧ c.val.toNat < 0x110000 := c.valid
  unfold String.utf8EncodeChar
  generalize c.val.toNat = v at valid
  dsimp only
  split
  · apply Sequence.one
    rw [UInt8.toNat_ofNat']
    omega
  · split
    · apply Sequence.two <;> simp only [Continues, UInt8.toNat_ofNat'] <;> omega
    · split
      · apply Sequence.three <;> simp only [Continues, UInt8.toNat_ofNat'] <;> omega
      · apply Sequence.four <;> simp only [Continues, UInt8.toNat_ofNat'] <;> omega

/-- Every code point that is no surrogate is a character. -/
theorem exists_char {v : Nat} (valid : v < 0xD800 ∨ 0xDFFF < v ∧ v < 0x110000) :
    ∃ c : Char, c.val.toNat = v := by
  have fits : (UInt32.ofNat v).toNat = v := UInt32.toNat_ofNat_of_lt' (show v < 2 ^ 32 by omega)
  exact ⟨⟨UInt32.ofNat v, by rwa [UInt32.isValidChar, fits]⟩, fits⟩

theorem ofNat_eq {n : Nat} {b : UInt8} (same : n = b.toNat) : UInt8.ofNat n = b := by
  rw [same, UInt8.ofNat_toNat]

theorem exists_char_of_sequence {bytes : List UInt8} (sequence : Sequence bytes) :
    ∃ c, String.utf8EncodeChar c = bytes := by
  cases sequence with
  | @one a ascii =>
    obtain ⟨c, isChar⟩ := exists_char (v := a.toNat) (by omega)
    refine ⟨c, ?_⟩
    simp only [String.utf8EncodeChar, isChar, if_pos ascii, UInt8.ofNat_toNat]
  | @two a b lead second =>
    unfold Continues at second
    obtain ⟨c, isChar⟩ :=
      exists_char (v := (a.toNat - 0xC0) * 64 + (b.toNat - 0x80)) (by omega)
    refine ⟨c, ?_⟩
    simp only [String.utf8EncodeChar, isChar]
    rw [if_neg (by omega), if_pos (by omega), ofNat_eq (b := a) (by omega),
      ofNat_eq (b := b) (by omega)]
  | @three a b c lead second third shortest noSurrogate =>
    unfold Continues at second third
    obtain ⟨char, isChar⟩ := exists_char
      (v := (a.toNat - 0xE0) * 4096 + (b.toNat - 0x80) * 64 + (c.toNat - 0x80)) (by omega)
    refine ⟨char, ?_⟩
    simp only [String.utf8EncodeChar, isChar]
    rw [if_neg (by omega), if_neg (by omega), if_pos (by omega), ofNat_eq (b := a) (by omega),
      ofNat_eq (b := b) (by omega), ofNat_eq (b := c) (by omega)]
  | @four a b c d lead second third fourth shortest noneBeyond =>
    unfold Continues at second third fourth
    obtain ⟨char, isChar⟩ := exists_char
      (v := (a.toNat - 0xF0) * 262144 + (b.toNat - 0x80) * 4096 + (c.toNat - 0x80) * 64 +
        (d.toNat - 0x80)) (by omega)
    refine ⟨char, ?_⟩
    simp only [String.utf8EncodeChar, isChar]
    rw [if_neg (by omega), if_neg (by omega), if_neg (by omega), ofNat_eq (b := a) (by omega),
      ofNat_eq (b := b) (by omega), ofNat_eq (b := c) (by omega), ofNat_eq (b := d) (by omega)]

theorem wellFormed_encode (text : List Char) :
    WellFormed (text.flatMap String.utf8EncodeChar) := by
  induction text with
  | nil => exact .nil
  | cons c text ih => exact .append (sequence_utf8EncodeChar c) ih

theorem exists_text_of_wellFormed {bytes : List UInt8} (wellFormed : WellFormed bytes) :
    ∃ text : List Char, text.flatMap String.utf8EncodeChar = bytes := by
  induction wellFormed with
  | nil => exact ⟨[], rfl⟩
  | append sequence _ ih =>
    obtain ⟨c, first⟩ := exists_char_of_sequence sequence
    obtain ⟨text, rest⟩ := ih
    exact ⟨c :: text, by rw [List.flatMap_cons, first, rest]⟩

/-- The bytes that a text is encoded to are those of the grammar. -/
theorem isValidUTF8_iff {data : ByteArray} : data.IsValidUTF8 ↔ WellFormed data.data.toList := by
  constructor
  · rintro ⟨text, rfl⟩
    rw [List.utf8Encode, List.toList_data_toByteArray]
    exact wellFormed_encode text
  · intro wellFormed
    obtain ⟨text, encoded⟩ := exists_text_of_wellFormed wellFormed
    refine ⟨text, ?_⟩
    apply ByteArray.ext
    rw [List.utf8Encode, ← Array.toList_inj, List.toList_data_toByteArray, encoded]

end TypedRecords.Utf8
