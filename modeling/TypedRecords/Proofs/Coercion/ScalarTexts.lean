import TypedRecords.Proofs.Coercion.IntegerTexts
import TypedRecords.Proofs.Text.Utf8

/-! Values that are written as strings or bytes and read back. Integers and truth values have one
text, which reads as themselves; strings and their UTF-8 bytes are each other's form. -/
namespace TypedRecords

/-- The text of an integer is one of its spellings. -/
theorem Numeral.spells_intText (n : Int) : Spells (intText n).toList n := by
  refine ⟨decide (n < 0), Nat.toDigits 10 n.natAbs, Nat.toDigits_ne_nil,
    fun c member => Nat.isDigit_of_mem_toDigits (by decide) (by decide) member, ?_, ?_⟩
  · simp [intText, signed]
  · rw [Nat.ofDigitChars_ten_toDigits]
    by_cases negative : n < 0
    · rw [if_pos (decide_eq_true negative)]
      omega
    · rw [if_neg (by simpa using negative)]
      omega

/-- Bytes are the bytes of the string that they are read as. -/
theorem fromUTF8?_eq_some_iff {data : ByteArray} {text : String} :
    String.fromUTF8? data = some text ↔ text.toUTF8 = data := by
  constructor
  · intro read
    unfold String.fromUTF8? at read
    split at read
    · next valid =>
      obtain rfl := Option.some.inj read
      rfl
    · cases read
  · rintro rfl
    exact dif_pos text.isValidUTF8

theorem isSome_fromUTF8?_iff {data : ByteArray} :
    (String.fromUTF8? data).isSome ↔ Utf8.WellFormed data.data.toList := by
  rw [← Utf8.isValidUTF8_iff]
  unfold String.fromUTF8?
  split
  · next valid => simp [valid]
  · next invalid => simp [invalid]

namespace Coercion

/-- Between these characters the text of the value is coerced to the value again. -/
def ReadsBack (v : Value) (target : Representation) (before after : List Char) : Prop :=
  ∃ text : String, standard v .string = some (.value (.string text)) ∧
    standard (.string (String.ofList (before ++ text.toList ++ after))) target = some (.value v)

section Integers

variable {before after : List Char} (blankBefore : ∀ c ∈ before, isBlank c = true)
  (blankAfter : ∀ c ∈ after, isBlank c = true)

include blankBefore blankAfter

theorem narrowsTo_intText (n : Int64) :
    NarrowsTo (.string (String.ofList (before ++ (intText n.toInt).toList ++ after)))
      (some n.toInt) := by
  have lower := n.le_toInt
  have upper := n.toInt_lt
  have reads := Number.read?_spells (Numeral.spells_intText n.toInt) blankBefore blankAfter
  rw [if_pos (by omega), Int64.ofInt_toInt] at reads
  exact narrowsTo_of_integer (v := .string _) reads

theorem readsBack_long (n : Int64) : ReadsBack (.long n) .long before after := by
  have lower := n.le_toInt
  have upper := n.toInt_lt
  refine ⟨intText n.toInt, rfl, (narrowsTo_intText blankBefore blankAfter n).long.trans ?_⟩
  rw [Option.bind_some, if_pos (by omega), Int64.ofInt_toInt]

theorem readsBack_int (n : Int32) : ReadsBack (.int n) .int before after := by
  have lower := n.le_toInt
  have upper := n.toInt_lt
  have same : n.toInt64.toInt = n.toInt := n.toInt_toInt64
  refine ⟨intText n.toInt, rfl, ?_⟩
  rw [← same, (narrowsTo_intText blankBefore blankAfter n.toInt64).int, Option.bind_some, same,
    if_pos (by omega), Int32.ofInt_toInt]

end Integers

/-- Integers are read back from their texts, also between blanks, and truth values from theirs. A
string is read back from its bytes. Bytes are read as a string exactly if they are well formed, and
are read back from this string. -/
theorem scalar_texts_read_back :
    (∀ before after : List Char, (∀ c ∈ before, isBlank c = true) →
      (∀ c ∈ after, isBlank c = true) →
      (∀ n : Int32, ReadsBack (.int n) .int before after) ∧
      ∀ n : Int64, ReadsBack (.long n) .long before after) ∧
    (∀ b : Bool, ReadsBack (.boolean b) .boolean [] []) ∧
    (∀ text : String, ∃ data, standard (.string text) .bytes = some (.value (.bytes data)) ∧
      standard (.bytes data) .string = some (.value (.string text))) ∧
    ∀ data : ByteArray,
      ((standard (.bytes data) .string).isSome ↔ Utf8.WellFormed data.data.toList) ∧
      ∀ text, standard (.bytes data) .string = some (.value (.string text)) →
        standard (.string text) .bytes = some (.value (.bytes data)) := by
  have ofBytes (data : ByteArray) (text : String) :
      standard (.bytes data) .string = some (.value (.string text)) ↔
        String.fromUTF8? data = some text := by
    simp [standard, text?]
  have ofText (text : String) :
      standard (.string text) .bytes = some (.value (.bytes text.toUTF8)) := rfl
  refine ⟨fun before after blankBefore blankAfter => ⟨?_, ?_⟩, ?_, fun text => ?_,
    fun data => ⟨?_, ?_⟩⟩
  · exact readsBack_int blankBefore blankAfter
  · exact readsBack_long blankBefore blankAfter
  · rintro (_ | _)
    · exact ⟨"false", rfl, rfl⟩
    · exact ⟨"true", rfl, rfl⟩
  · exact ⟨text.toUTF8, ofText text, (ofBytes _ _).mpr (fromUTF8?_eq_some_iff.mpr rfl)⟩
  · simp only [standard, text?, Option.isSome_map, isSome_fromUTF8?_iff]
  · intro text isText
    rw [ofText, fromUTF8?_eq_some_iff.mp ((ofBytes data text).mp isText)]

/-- The least integer between blanks, a string with a character of three bytes, and bytes that would
be a surrogate. -/
theorem scalar_texts_read_back_least :
    standard (.string "\u3000-9223372036854775808\n") .long =
        some (.value (.long Int64.minValue)) ∧
      standard (.bytes "a\u20ac".toUTF8) .string = some (.value (.string "a\u20ac")) ∧
      ¬ Utf8.WellFormed [0xED, 0xA0, 0x80] := by
  obtain ⟨numbers, -, strings, bytes⟩ := scalar_texts_read_back
  obtain ⟨-, longs⟩ := numbers ['\u3000'] ['\n'] (List.all_eq_true.mp rfl) (List.all_eq_true.mp rfl)
  obtain ⟨text, written, read⟩ := longs Int64.minValue
  obtain ⟨data, encoded, decoded⟩ := strings "a\u20ac"
  have isText : standard (.long Int64.minValue) .string =
      some (.value (.string "-9223372036854775808")) := rfl
  refine ⟨?_, ?_, ?_⟩
  · cases isText.symm.trans written
    exact read
  · cases encoded
    exact decoded
  · intro wellFormed
    have accepted := (bytes ⟨#[0xED, 0xA0, 0x80]⟩).1.mpr wellFormed
    revert accepted
    decide +kernel

end Coercion

end TypedRecords
