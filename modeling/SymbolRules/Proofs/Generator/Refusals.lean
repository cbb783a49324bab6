import SymbolRules.Proofs.Generator.Listings

/-!
# Refused records

A generator refuses a record exactly if one of its code points is not a scalar value. It reports
the first such code point and stays as it was, so that a request to take the record can be left
out (`Generator.update_atomic`). Nothing can fail behind that point: the symbol that is handed to
a compressor is a scalar value by then.
-/

namespace SymbolRules

namespace Generator

theorem exists_error_update_iff {generator : Generator} {record : Record} :
    (∃ error, (generator.update record).1 = .error error) ↔
      ∃ codePoint ∈ record.codePoints, ¬ IsScalar codePoint.toNat := by
  cases written : record.escaped with
  | ok text =>
      have scalars := Record.exists_escaped_iff.1 ⟨text, written⟩
      rw [generator.update_of_escaped written]
      simpa using scalars
  | error fault =>
      obtain ⟨codePoint, found, -⟩ := Record.escaped_eq_error_iff.1 written
      obtain ⟨front, back, cut, -, invalid⟩ := Record.firstInvalid?_eq_some_iff.1 found
      rw [generator.update_of_not_escaped written]
      apply iff_of_true
      · exact ⟨_, rfl⟩
      · exact ⟨codePoint, by simp [cut], invalid⟩

/-- A refused record is reported with its line and its first invalid code point, and leaves no
    trace. -/
theorem update_of_error {generator : Generator} {record : Record} {error : GenerateError}
    (refused : (generator.update record).1 = .error error) :
    (∃ codePoint, record.IsFirstInvalid codePoint ∧
        error = .invalidCodePoint record.line ⟨codePoint.toNat⟩) ∧
      (generator.update record).2 = generator := by
  cases written : record.escaped with
  | ok text =>
      rw [generator.update_of_escaped written] at refused
      cases refused
  | error fault =>
      obtain ⟨codePoint, found, rfl⟩ := Record.escaped_eq_error_iff.1 written
      rw [generator.update_of_not_escaped written] at refused ⊢
      obtain rfl := Except.error.inj refused
      exact ⟨⟨codePoint, Record.firstInvalid?_eq_some_iff.1 found, rfl⟩, rfl⟩

theorem reached_append (config : Config) (before later : List Request) :
    reached config (before ++ later) = (reached config before).after later := by
  rw [reached, after, List.foldl_append]
  rfl

/-- Taking a record fails exactly if it has a code point that is not a scalar value. The error
    then names the line and the first such code point, and the generator is the same as before: to
    all later requests it answers and becomes what it would without the failed one. Where a symbol
    is handed to the compressor of its token, it is taken. -/
theorem update_atomic (config : Config) (before : List Request) (record : Record) :
    let generator := reached config before
    ((∃ error, (generator.update record).1 = .error error) ↔
        ∃ codePoint ∈ record.codePoints, ¬ IsScalar codePoint.toNat) ∧
      (∀ error, (generator.update record).1 = .error error →
        (∃ codePoint, record.IsFirstInvalid codePoint ∧
          error = .invalidCodePoint record.line ⟨codePoint.toNat⟩) ∧
        (generator.update record).2 = generator ∧
        ∀ later, (generator.update record).2.transcript later = generator.transcript later ∧
          reached config (before ++ .update record :: later) = reached config (before ++ later)) ∧
      ∀ text token codePoint, record.escaped = .ok text →
        generator.config.recordToken? record = some token → record.single? = some codePoint →
        generator.config.isRangeExcluded codePoint = false →
        (Collection.add token codePoint.toNat generator.collected).1 = .ok () := by
  intro generator
  refine ⟨exists_error_update_iff, ?_, ?_⟩
  · intro error refused
    obtain ⟨reported, unchanged⟩ := update_of_error refused
    refine ⟨reported, unchanged, ?_⟩
    intro later
    have next : ((reached config before).answer (.update record)).2 = reached config before :=
      unchanged
    constructor
    · rw [unchanged]
    · rw [reached_append, reached_append, after, List.foldl_cons, next, after]
  · intro text token codePoint written _ isSingle _
    exact Collection.fst_add_of_isScalar token (Record.isScalar_of_single? written isSingle) _

end Generator

end SymbolRules
