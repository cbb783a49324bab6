import SymbolRules.Cli.CodePoint
import SymbolRules.Proofs.Numerals.Faults

/-!
# Reading code points

A code point is read from the numeral behind one mark, or from a numeral without a mark, and from
nothing else. Any other text is quoted, with the one fault that its numeral has
(`Cli.readCodePoint_agrees_with_grammar`).
-/

namespace SymbolRules

/-- How a code point that is not a scalar value is named. -/
theorem InvalidCodePoint.message_natCast (n : Nat) :
    InvalidCodePoint.message ⟨n⟩ = "invalid code point U+" ++ String.ofList (Hex.padded 4 n) := by
  have notNegative : ¬ (n : Int) < 0 := by omega
  unfold message
  rw [if_neg notNegative, Int.toNat_natCast]

namespace Cli

/-- The marks that may stand before a code point. -/
def codePointMarks : List (List Char) := [['U', '+'], ['u', '+'], ['0', 'x'], ['0', 'X']]

/-- What is left of a text without the mark that it begins with, or the text itself if it begins
    with none. -/
def IsUnmarked (text digits : List Char) : Prop :=
  (∃ mark ∈ codePointMarks, text = mark ++ digits) ∨
    digits = text ∧ ∀ mark ∈ codePointMarks, ¬ mark <+: text

theorem withoutMark_append {mark : List Char} (isMark : mark ∈ codePointMarks)
    (digits : List Char) : withoutMark (mark ++ digits) = digits := by
  simp only [codePointMarks, List.mem_cons, List.not_mem_nil, or_false] at isMark
  obtain rfl | rfl | rfl | rfl := isMark <;> rfl

theorem withoutMark_of_no_mark {text : List Char}
    (noMark : ∀ mark ∈ codePointMarks, ¬ mark <+: text) : withoutMark text = text := by
  unfold withoutMark
  split
  · exact absurd (List.prefix_append ['U', '+'] _) (noMark _ (by decide))
  · exact absurd (List.prefix_append ['u', '+'] _) (noMark _ (by decide))
  · exact absurd (List.prefix_append ['0', 'x'] _) (noMark _ (by decide))
  · exact absurd (List.prefix_append ['0', 'X'] _) (noMark _ (by decide))
  · rfl

/-- There is exactly one way to take a mark away. -/
theorem isUnmarked_iff {text digits : List Char} :
    IsUnmarked text digits ↔ digits = withoutMark text := by
  constructor
  · rintro (⟨mark, isMark, rfl⟩ | ⟨rfl, noMark⟩)
    · exact (withoutMark_append isMark digits).symm
    · exact (withoutMark_of_no_mark noMark).symm
  · rintro rfl
    by_cases marked : ∃ mark ∈ codePointMarks, mark <+: text
    · obtain ⟨mark, isMark, rest, rfl⟩ := marked
      rw [withoutMark_append isMark]
      exact .inl ⟨mark, isMark, rfl⟩
    · have noMark : ∀ mark ∈ codePointMarks, ¬ mark <+: text :=
        fun mark isMark begins => marked ⟨mark, isMark, begins⟩
      exact .inr ⟨withoutMark_of_no_mark noMark, noMark⟩

theorem readCodePoint_eq_ok_iff {text : String} {codePoint : CodePoint} :
    readCodePoint text = .ok codePoint ↔
      Hex.IsNumeral (withoutMark text.toList) codePoint.toNat := by
  rw [← Hex.word32_eq_ok_iff, readCodePoint]
  cases Hex.word32 (withoutMark text.toList) <;> simp

theorem readCodePoint_eq_error_iff {text : String} {fault : UnreadableCodePoint} :
    readCodePoint text = .error fault ↔
      fault.text = text ∧ Hex.HasFault (withoutMark text.toList) fault.cause := by
  rw [← Hex.word32_eq_error_iff, readCodePoint]
  obtain ⟨given, cause⟩ := fault
  cases Hex.word32 (withoutMark text.toList) <;> simp [eq_comm]

/-- The way in which an invalid code point is named is read back as that code point. -/
theorem readCodePoint_padded (codePoint : CodePoint) :
    readCodePoint ("U+" ++ String.ofList (Hex.padded 4 codePoint.toNat)) = .ok codePoint := by
  rw [readCodePoint_eq_ok_iff, String.toList_append]
  show Hex.IsNumeral (withoutMark ('U' :: '+' :: (String.ofList _).toList)) _
  rw [withoutMark, String.toList_ofList]
  exact Hex.isNumeral_padded 4 codePoint.toNat

/-- Every text has exactly one reading without a mark. The text is read as a code point exactly if
    that is the numeral of a value below 2 ^ 32, and then as this value, whatever the case of its
    digits and however many zeros it begins with. Otherwise the whole text is quoted, with the
    cause that the numeral gives. The text that names an invalid code point is read back as that
    code point. -/
theorem readCodePoint_agrees_with_grammar :
    (∀ text : String, ∃ digits, (∀ other, IsUnmarked text.toList other ↔ other = digits) ∧
      ((∃ codePoint, readCodePoint text = .ok codePoint) ↔ Hex.IsWord32 digits) ∧
      (∀ codePoint, readCodePoint text = .ok codePoint ↔
        Hex.IsNumeral digits codePoint.toNat) ∧
      (∀ fault, readCodePoint text = .error fault ↔
        fault.text = text ∧ Hex.HasFault digits fault.cause) ∧
      ∀ fault, readCodePoint text = .error fault →
        fault.message = "invalid code point `" ++ text ++ "`") ∧
    ∀ codePoint : CodePoint, ∃ written,
      written = "U+" ++ String.ofList (Hex.padded 4 codePoint.toNat) ∧
      InvalidCodePoint.message ⟨codePoint.toNat⟩ = "invalid code point " ++ written ∧
      readCodePoint written = .ok codePoint := by
  refine ⟨fun text => ?_, fun codePoint => ?_⟩
  · refine ⟨withoutMark text.toList, fun _ => isUnmarked_iff, ?_, fun _ => readCodePoint_eq_ok_iff,
      fun _ => readCodePoint_eq_error_iff, ?_⟩
    · rw [← Hex.exists_word32_iff]
      exact exists_congr fun _ => readCodePoint_eq_ok_iff.trans Hex.word32_eq_ok_iff.symm
    · intro fault failed
      obtain ⟨rfl, -⟩ := readCodePoint_eq_error_iff.1 failed
      rfl
  · refine ⟨_, rfl, ?_, readCodePoint_padded codePoint⟩
    rw [InvalidCodePoint.message_natCast, ← String.append_assoc]
    rfl

/-- The numeral is too large before its last character is met, and leading zeros do not count. -/
example : readCodePoint "0x+000100000000g" = .error ⟨"0x+000100000000g", .tooLarge⟩ := by
  rfl

end Cli

end SymbolRules
