import SymbolRules.Proofs.Generator.Step

/-!
# The text of a symbol

The text of a record is made of the escaped units of its code points, and the code points are read
back from it (`Record.scalars?_of_escaped`). So records with different code points have different
texts, and no command or literal rule of one has the text of the other
(`Record.escaped_faithful`).
-/

namespace SymbolRules

namespace Escape

theorem pair_eq_flatMap_unit (p : Pair) : pair p = p.units.flatMap unit := by
  unfold pair Pair.units
  split <;> simp

/-- Reads the scalar values that an escaped text stands for. -/
def scalars? (text : String) : Option (List Nat) := (units? text.toList).bind Utf16.decode?

end Escape

/-- The text of the symbol that a command rule or a literal rule stands for. -/
def Rule.symbolText? : Rule → Option String
  | command _ text _ => some text
  | literal text _ => some text
  | range _ _ => none

namespace Record

/-- A record that can be written is written unit by unit. -/
theorem toList_of_escaped {record : Record} {text : String} (written : record.escaped = .ok text) :
    text.toList = (record.codePoints.flatMap fun codePoint =>
      (Pair.ofNat codePoint.toNat).units).flatMap Escape.unit := by
  obtain ⟨pairs, encoded, rfl⟩ := map_eq_ok_iff.1 written
  rw [String.toList_ofList]
  have related := mapM_eq_ok_iff.1 encoded
  clear written encoded
  generalize record.codePoints = codePoints at related
  induction related with
  | nil => rfl
  | cons first _ ih =>
      obtain ⟨-, rfl⟩ := Pair.encode_eq_ok_iff.1 first
      simp [Escape.pair_eq_flatMap_unit, ih]

/-- The code points of a record are read back from its text. -/
theorem scalars?_of_escaped {record : Record} {text : String}
    (written : record.escaped = .ok text) :
    Escape.scalars? text = some (record.codePoints.map UInt32.toNat) := by
  have areScalars := exists_escaped_iff.1 ⟨text, written⟩
  have decoded : Utf16.decode? (record.codePoints.flatMap fun codePoint =>
      (Pair.ofNat codePoint.toNat).units) = some (record.codePoints.map UInt32.toNat) := by
    rw [← List.flatMap_map UInt32.toNat fun scalar => (Pair.ofNat scalar).units]
    apply Utf16.decode?_flatMap_units
    simpa using areScalars
  rw [Escape.scalars?, toList_of_escaped written, Escape.units?_flatMap_unit]
  exact decoded

/-- Records with the same text have the same code points. -/
theorem codePoints_eq_of_escaped {first second : Record} {text : String}
    (isFirst : first.escaped = .ok text) (isSecond : second.escaped = .ok text) :
    first.codePoints = second.codePoints := by
  have same := scalars?_of_escaped isFirst
  rw [scalars?_of_escaped isSecond] at same
  exact (List.map_inj_right fun _ _ => UInt32.toNat_inj.1).1 (Option.some.inj same).symm

/-- The text of code points that follow others is their own behind that of the others, unless one
    of the two cannot be written. -/
theorem escaped_of_append {whole front back : Record}
    (joined : whole.codePoints = front.codePoints ++ back.codePoints) :
    whole.escaped = do return (← front.escaped) ++ (← back.escaped) := by
  have pairs : whole.pairs = do return (← front.pairs) ++ (← back.pairs) := by
    rw [Record.pairs, joined, List.mapM_append]
    rfl
  rw [escaped, escaped, escaped, pairs]
  cases front.pairs with
  | error fault => rfl
  | ok first =>
      cases back.pairs with
      | error fault => rfl
      | ok second => simp [bind, Except.bind, pure, Except.pure, Except.map]

end Record

namespace Generator

/-- The rules that are given at once for a record all have the text of the record. -/
theorem escaped_of_symbolText? {generator : Generator} {record : Record} {rules : List Rule}
    {rule : Rule} {text : String} (updated : (generator.update record).1 = .ok rules)
    (member : rule ∈ rules) (isText : rule.symbolText? = some text) :
    record.escaped = .ok text := by
  cases written : record.escaped with
  | error fault =>
      rw [generator.update_of_not_escaped written] at updated
      cases updated
  | ok own =>
      rw [generator.update_of_escaped written] at updated
      obtain rfl := Except.ok.inj updated
      obtain ⟨other, token, isOwn, -, made⟩ := Config.mem_rulesOf.1 member
      obtain rfl := Except.ok.inj (written.symm.trans isOwn)
      rcases made with ⟨name, -, rfl⟩ | ⟨-, rfl⟩
      · exact congrArg _ (Option.some.inj isText)
      · exact congrArg _ (Option.some.inj isText)

end Generator

namespace Record

/-- Exactly a record whose code points are all scalar values can be written, and for any other the
    first that is not is reported. The code points are read back from the text, and no others have
    that text. Code points that are joined from two lists have the texts of the two joined. A
    command rule or literal rule of one record never has the text of a record with other code
    points, whichever generators the two rules come from. -/
theorem escaped_faithful (record : Record) :
    ((∃ text, record.escaped = .ok text) ↔
        ∀ codePoint ∈ record.codePoints, IsScalar codePoint.toNat) ∧
      (∀ fault, record.escaped = .error fault ↔
        ∃ codePoint, record.IsFirstInvalid codePoint ∧ fault = ⟨codePoint.toNat⟩) ∧
      (∀ text, record.escaped = .ok text →
        Escape.scalars? text = some (record.codePoints.map UInt32.toNat) ∧
        ∀ other : Record, other.escaped = .ok text → other.codePoints = record.codePoints) ∧
      (∀ front back : Record, record.codePoints = front.codePoints ++ back.codePoints →
        record.escaped = do return (← front.escaped) ++ (← back.escaped)) ∧
      ∀ (other : Record) (first second : Generator) (rules others : List Rule),
        (first.update record).1 = .ok rules → (second.update other).1 = .ok others →
        ∀ rule ∈ rules, ∀ made ∈ others, ∀ text, rule.symbolText? = some text →
          made.symbolText? = some text → other.codePoints = record.codePoints := by
  refine ⟨exists_escaped_iff, ?_, ?_, fun front back => escaped_of_append, ?_⟩
  · intro fault
    simp only [escaped_eq_error_iff, firstInvalid?_eq_some_iff]
  · intro text written
    refine ⟨scalars?_of_escaped written, ?_⟩
    intro other isOther
    exact codePoints_eq_of_escaped isOther written
  · intro other first second rules others updated updatedToo rule isRule made isMade text isText
      hasText
    apply codePoints_eq_of_escaped
    · exact Generator.escaped_of_symbolText? updatedToo isMade hasText
    · exact Generator.escaped_of_symbolText? updated isRule isText

end Record

end SymbolRules
