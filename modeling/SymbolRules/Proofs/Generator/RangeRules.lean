import SymbolRules.Proofs.Generator.Collected

/-!
# What range rules match

A token has a range rule exactly if a table has a symbol that it collects, and then no other.
The rule matches the encodings of the symbols collected and nothing else, so no excluded
symbol and no half of a surrogate pair.
-/

namespace SymbolRules

namespace Rule

/-- The pattern of a rule, if it is a range rule of the token. -/
def patternFor? (token : String) : Rule → Option String
  | range pattern name => if name == token then some pattern else none
  | _ => none

/-- The patterns of all range rules of a token. -/
def patternsFor (token : String) (rules : List Rule) : List String :=
  rules.filterMap (patternFor? token)

end Rule

namespace Config

/-- Whether a token collects a symbol of a table: a scalar value that is not excluded and
    has a record of its own, whose effective math class is the token. -/
structure Collects (config : Config) (table : String) (token : String) (symbol : CodePoint) :
    Prop where
  isScalar : IsScalar symbol.toNat
  included : symbol ∉ config.rangeExclusions
  isToken : config.tokenFor? token = some token
  hasRecord : ∃ record, .ok record ∈ Table.entries table ∧ record.codePoints = [symbol] ∧
    config.effectiveMathClass record = token

theorem mem_symbolsOf_iff {config : Config} {table token : String} {symbol : CodePoint} :
    (token, symbol) ∈ config.symbolsOf table ↔ config.Collects table token symbol := by
  simp only [symbolsOf, List.mem_filterMap, symbolOf?_eq_some_iff, recordToken?_eq_some_iff,
    Table.mem_records]
  have isIncluded : config.isRangeExcluded symbol = false ↔ symbol ∉ config.rangeExclusions := by
    simp [isRangeExcluded]
  constructor
  · rintro ⟨record, isEntry, isOnly, isScalar, ⟨sameClass, isToken⟩, included⟩
    exact ⟨isScalar, isIncluded.1 included, isToken, record, isEntry, isOnly, sameClass⟩
  · rintro ⟨isScalar, included, isToken, record, isEntry, isOnly, sameClass⟩
    exact ⟨record, isEntry, isOnly, isScalar, ⟨sameClass, isToken⟩, isIncluded.2 included⟩

theorem patternFor?_of_mem_rulesOf {config : Config} {record : Record} {rule : Rule}
    (member : rule ∈ config.rulesOf record) (token : String) :
    rule.patternFor? token = none := by
  obtain ⟨_, _, -, -, ⟨_, -, rfl⟩ | ⟨-, rfl⟩⟩ := mem_rulesOf.1 member
  · rfl
  · rfl

/-- The pattern that a token gets for the symbols of a table. -/
def patternOf (config : Config) (table token : String) : String :=
  (Compressor.run (Collection.additions (Keyed.under token (config.symbolsOf table)))).pattern

/-- A token with symbols has one range rule, and a token without has none. -/
theorem patternsFor_rangeRules (config : Config) (table token : String) :
    Rule.patternsFor token (config.rangeRules table) =
      if token ∈ (config.symbolsOf table).map Prod.fst then [config.patternOf table token]
      else [] := by
  have only := Keyed.filterMap_beq_of_nodup
    (Keyed.nodup_eraseDups ((config.symbolsOf table).map Prod.fst)) (config.patternOf table) token
  simp only [List.mem_eraseDups] at only
  rw [← only, Rule.patternsFor, rangeRules, List.filterMap_map]
  rfl

theorem matches_patternOf_iff (config : Config) (table token : String) (units : List CodeUnit) :
    Pattern.Matches (config.patternOf table token).toList units ↔
      ∃ symbol : CodePoint, Utf16.decode? units = some [symbol.toNat] ∧
        config.Collects table token symbol := by
  have scalars : ∀ symbol ∈ Keyed.under token (config.symbolsOf table),
      IsScalar symbol.toNat := by
    intro symbol member
    exact (mem_symbolsOf_iff.1 (Keyed.mem_under.1 member)).isScalar
  rw [patternOf, Compressor.matches_pattern_run_iff, Collection.accepted_additions scalars]
  constructor
  · rintro ⟨scalar, member, rfl⟩
    obtain ⟨symbol, isOwn, rfl⟩ := List.mem_map.1 member
    exact ⟨symbol, Utf16.decode?_eq_singleton_iff.2 ⟨scalars symbol isOwn, rfl⟩,
      mem_symbolsOf_iff.1 (Keyed.mem_under.1 isOwn)⟩
  · rintro ⟨symbol, read, collected⟩
    have isOwn := Keyed.mem_under.2 (mem_symbolsOf_iff.2 collected)
    exact ⟨symbol.toNat, List.mem_map_of_mem isOwn, (Utf16.decode?_eq_singleton_iff.1 read).2⟩

end Config

namespace Generator

/-- A token that collects no symbol of a table gets no range rule, and any other token gets
    one. Its pattern matches the encodings of the symbols collected and nothing else, so it
    matches no excluded symbol and no part of a surrogate pair. -/
theorem patternsFor_generate {config : Config} {policy : Policy} {table : String}
    {rules : List Rule} (generated : (Generator.mk config []).generate policy table = .ok rules)
    (token : String) :
    ((∀ symbol, ¬ config.Collects table token symbol) ∧ Rule.patternsFor token rules = []) ∨
      ((∃ symbol, config.Collects table token symbol) ∧
        ∃ pattern, Rule.patternsFor token rules = [pattern] ∧
          ∀ units,
            (Pattern.Matches pattern.toList units ↔
              ∃ symbol : CodePoint, Utf16.decode? units = some [symbol.toNat] ∧
                config.Collects table token symbol) ∧
            (Pattern.Matches pattern.toList units →
              (∀ symbol ∈ config.rangeExclusions, Utf16.decode? units ≠ some [symbol.toNat]) ∧
                Utf16.SplitsNoPair units)) := by
  have immediate : Rule.patternsFor token ((Table.records table).flatMap config.rulesOf) = [] := by
    rw [Rule.patternsFor, List.filterMap_eq_nil_iff]
    intro rule member
    obtain ⟨record, -, isRule⟩ := List.mem_flatMap.1 member
    exact Config.patternFor?_of_mem_rulesOf isRule token
  have patterns : Rule.patternsFor token rules =
      if token ∈ (config.symbolsOf table).map Prod.fst then [config.patternOf table token]
      else [] := by
    rw [rules_of_generate generated, Rule.patternsFor, List.filterMap_append,
      ← Rule.patternsFor, immediate, List.nil_append]
    exact config.patternsFor_rangeRules table token
  by_cases used : token ∈ (config.symbolsOf table).map Prod.fst
  · rw [if_pos used] at patterns
    obtain ⟨⟨name, symbol⟩, member, rfl⟩ := List.mem_map.1 used
    refine .inr ⟨⟨symbol, Config.mem_symbolsOf_iff.1 member⟩, _, patterns, fun units => ?_⟩
    have isMatch := config.matches_patternOf_iff table name units
    refine ⟨isMatch, fun matched => ?_⟩
    obtain ⟨found, read, collected⟩ := isMatch.1 matched
    refine ⟨?_, Utf16.splitsNoPair_of_decode? read⟩
    intro excluded isExcluded readExcluded
    have same : found.toNat = excluded.toNat := by
      simpa [read] using readExcluded
    exact collected.included (UInt32.toNat_inj.1 same ▸ isExcluded)
  · rw [if_neg used] at patterns
    refine .inl ⟨fun symbol collected => ?_, patterns⟩
    exact used (List.mem_map_of_mem (Config.mem_symbolsOf_iff.2 collected))

theorem patternsFor_generate_digits :
    let table := "U00041 A\nU1D7CE NUM\nU0002E A\nU1D7CF NUM"
    let rules : List Rule := [.range "\\u0041" "A", .range "\\uD835[\\uDFCE\\uDFCF]" "NUM"]
    (Generator.mk {} []).generate .abort table = .ok rules ∧
      ∀ units, Pattern.Matches "\\uD835[\\uDFCE\\uDFCF]".toList units ↔
        ∃ symbol : CodePoint, Utf16.decode? units = some [symbol.toNat] ∧
          Config.Collects {} table "NUM" symbol := by
  intro table rules
  have generated : (Generator.mk {} []).generate .abort table = .ok rules := by
    decide +kernel
  refine ⟨generated, fun units => ?_⟩
  have digits : Rule.patternsFor "NUM" rules = ["\\uD835[\\uDFCE\\uDFCF]"] := by
    decide
  rcases patternsFor_generate generated "NUM" with ⟨-, unused⟩ | ⟨-, pattern, used, covered⟩
  · rw [digits] at unused
    cases unused
  · rw [digits] at used
    obtain ⟨rfl, -⟩ := List.cons.inj used
    exact (covered units).1

end Generator

end SymbolRules
