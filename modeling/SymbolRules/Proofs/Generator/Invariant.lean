import SymbolRules.Proofs.CharClass.Invariant
import SymbolRules.Proofs.Generator.Held

/-!
# The state of a generator is sound

Every compressor of a generator has the history of one token: at least one symbol was taken, none
of them excluded, and its intervals may have been closed anywhere in between (`Config.Traces`),
since these are the symbols that the generator holds. So no generator that requests lead to has an
empty compressor or covers an excluded symbol (`Generator.isSound_reached`).
-/

namespace SymbolRules

open History (accepted)

/-- Whether a compressor has taken a symbol, and none that is excluded. -/
def Config.Traces (config : Config) (compressor : Compressor) : Prop :=
  ∃ history, compressor = Compressor.run history ∧ accepted history ≠ [] ∧
    ∀ symbol ∈ config.rangeExclusions, symbol.toNat ∉ accepted history

/-- One row for each token of a configuration, each traced back to the symbols of the token. -/
structure Collection.IsTraced (config : Config) (collection : Collection) : Prop where
  distinct : (collection.map Prod.fst).Nodup
  tokens : ∀ row ∈ collection, config.tokenFor? row.1 = some row.1
  histories : ∀ row ∈ collection, config.Traces row.2

/-- The tokens of a generator are different and tokens of its configuration. Their compressors are
    sound, none is empty, and none covers an excluded symbol. -/
structure Generator.IsSound (generator : Generator) : Prop where
  distinct : (generator.collected.map Prod.fst).Nodup
  tokens : ∀ row ∈ generator.collected, generator.config.tokenFor? row.1 = some row.1
  compressors : ∀ row ∈ generator.collected, row.2.IsSound
  filled : ∀ row ∈ generator.collected, row.2.isEmpty = false
  included : ∀ row ∈ generator.collected, ∀ symbol ∈ generator.config.rangeExclusions,
    ¬ row.2.Covers symbol.toNat

namespace Config.Traces

variable {config : Config} {compressor : Compressor}

theorem isSound (traces : config.Traces compressor) : compressor.IsSound := by
  obtain ⟨history, rfl, -, -⟩ := traces
  exact Compressor.isSound_run history

theorem isEmpty_eq_false (traces : config.Traces compressor) : compressor.isEmpty = false := by
  obtain ⟨history, rfl, used, -⟩ := traces
  rw [← Bool.not_eq_true, Compressor.isEmpty_run_iff]
  exact used

theorem pattern_ne_empty (traces : config.Traces compressor) : compressor.pattern ≠ "" := by
  obtain ⟨history, rfl, used, -⟩ := traces
  rw [ne_eq, Compressor.pattern_run_eq_empty_iff]
  exact used

theorem not_covers (traces : config.Traces compressor) {symbol : CodePoint}
    (excluded : symbol ∈ config.rangeExclusions) : ¬ compressor.Covers symbol.toNat := by
  obtain ⟨history, rfl, -, included⟩ := traces
  rw [Compressor.covers_run_iff]
  exact included symbol excluded

end Config.Traces

namespace Collection

variable {config : Config} {collection : Collection}

/-- A collection traces back to the symbols that it holds. -/
theorem Holds.isTraced {symbols : List (String × CodePoint)} (holds : collection.Holds symbols)
    (fit : ∀ symbol ∈ symbols, config.MayCollect symbol) : collection.IsTraced config := by
  obtain ⟨compressors, rfl, held⟩ := holds
  refine ⟨?_, ?_, ?_⟩
  · simpa [Function.comp_def] using Keyed.nodup_eraseDups (symbols.map Prod.fst)
  · intro row member
    obtain ⟨token, isKey, rfl⟩ := List.mem_map.1 member
    obtain ⟨symbol, isSymbol, rfl⟩ := List.mem_map.1 (List.mem_eraseDups.1 isKey)
    exact (fit symbol isSymbol).isToken
  · intro row member
    obtain ⟨token, isKey, rfl⟩ := List.mem_map.1 member
    have used := List.mem_eraseDups.1 isKey
    obtain ⟨history, isRun, isAccepted⟩ := held token used
    refine ⟨history, isRun, ?_, ?_⟩
    · rw [isAccepted]
      exact mt List.map_eq_nil_iff.1 (Keyed.under_ne_nil_iff.2 used)
    · intro symbol excluded isTaken
      rw [isAccepted, List.mem_map] at isTaken
      obtain ⟨other, isOwn, same⟩ := isTaken
      obtain rfl := UInt32.toNat_inj.1 same
      exact (fit (token, other) (Keyed.mem_under.1 isOwn)).included excluded

theorem IsTraced.filled_eq (traced : collection.IsTraced config) :
    collection.filled = collection := by
  rw [filled, List.filter_eq_self]
  intro row member
  rw [(traced.histories row member).isEmpty_eq_false]
  rfl

end Collection

namespace Generator

theorem isTraced_reached (config : Config) (requests : List Request) :
    (reached config requests).config = config ∧
      (reached config requests).collected.IsTraced config := by
  refine ⟨config_after _ requests, (holds_reached config requests).isTraced fun symbol member => ?_⟩
  obtain ⟨request, -, adds⟩ := List.mem_flatMap.1 member
  exact Request.mayCollect_of_mem_symbols adds

/-- Whatever a new generator was asked, failed requests among them, its symbols are sound. So no
    token is left out when the generator is finished or lists its symbols, and every pattern has a
    text. -/
theorem isSound_reached (config : Config) (requests : List Request) :
    (reached config requests).config = config ∧ (reached config requests).IsSound ∧
      (reached config requests).finish =
        (reached config requests).collected.map (fun row => .range row.2.pattern row.1) ∧
      (reached config requests).ranges =
        (reached config requests).collected.map
          (fun row => ⟨row.1, row.2.pattern, row.2.closedGroups⟩) ∧
      ∀ row ∈ (reached config requests).collected, row.2.pattern ≠ "" := by
  obtain ⟨sameConfig, traced⟩ := isTraced_reached config requests
  refine ⟨sameConfig, ?_, ?_, ?_, ?_⟩
  · refine ⟨traced.distinct, ?_, ?_, ?_, ?_⟩
    · rw [sameConfig]
      exact traced.tokens
    · exact fun row member => (traced.histories row member).isSound
    · exact fun row member => (traced.histories row member).isEmpty_eq_false
    · rw [sameConfig]
      exact fun row member symbol => (traced.histories row member).not_covers
  · rw [finish, traced.filled_eq]
  · rw [ranges, traced.filled_eq]
  · exact fun row member => (traced.histories row member).pattern_ne_empty

end Generator

end SymbolRules
