import SymbolRules.Proofs.Config.Loading
import SymbolRules.Proofs.Json.Values

/-!
# Writing configurations

A configuration is loaded from the text that it is written as, and from all other texts in which
each of its records is an object or an array of its fields.
-/

namespace SymbolRules

open Json (Value Tree)

/-- Token classes with both lists given. -/
def TokenClasses.given (tokens : TokenClasses) : TokenClasses.Partial :=
  { exact := some tokens.exact, prefixes := some tokens.prefixes }

namespace Config

/-- A configuration with all tables given. -/
def given (config : Config) : Config.Partial :=
  { mathClassOverrides := some config.mathClassOverrides
    extraCommands := some config.extraCommands
    rejectedCommands := some config.rejectedCommands
    rejectedFragments := some config.rejectedFragments
    tokens := some config.tokens.given
    rangeExclusions := some config.rangeExclusions }

theorem complete_given (config : Config) : config.given.complete = config := rfl

end Config

/-! ### What is written -/

theorem MathClassOverride.isTree_toValue (override : MathClassOverride) :
    override.IsTree override.toValue.tree :=
  .inl (Value.isObject_tree (by simp))

theorem ExtraCommand.isTree_toValue (extra : ExtraCommand) : extra.IsTree extra.toValue.tree :=
  .inl (Value.isObject_tree (by simp))

theorem tree_texts (texts : List String) :
    (Value.array (texts.map .string)).tree = .ofTexts texts := by
  rw [Value.tree, Value.trees_eq_map, List.map_map]
  rfl

theorem tree_codePoints (codePoints : List CodePoint) :
    (Value.array (codePoints.map (.number ·.toNat))).tree = .ofCodePoints codePoints := by
  rw [Value.tree, Value.trees_eq_map, List.map_map]
  rfl

theorem TokenClasses.isTree_toValue (tokens : TokenClasses) :
    tokens.given.IsTree tokens.toValue.tree := by
  refine .inl ?_
  rw [TokenClasses.given, Option.map_some, Option.map_some, ← tree_texts, ← tree_texts]
  exact Value.isObject_tree (by simp)

namespace Config

theorem isTree_toValue (config : Config) : config.given.IsTree config.toValue.tree := by
  refine ⟨_, _, _, .some (isList_toValue MathClassOverride.isTree_toValue _),
    .some (isList_toValue ExtraCommand.isTree_toValue _),
    .some (TokenClasses.isTree_toValue config.tokens), .inl ?_⟩
  simp only [given, Option.map_some, ← tree_texts, ← tree_codePoints]
  exact Value.isObject_tree (by simp)

/-- A configuration with any texts and code points is loaded from what it is written as, and from
    every text of it in which each record is in one of the two notations. -/
theorem read_write (config : Config) :
    read config.write = .ok config ∧
      ∀ (tree : Tree) (text : String), config.given.IsTree tree → tree.IsDocument text →
        read text = .ok config := by
  have reads : ∀ (tree : Tree) (text : String), config.given.IsTree tree → tree.IsDocument text →
      read text = .ok config := by
    intro tree text isTree document
    rw [Config.Partial.read_eq isTree document, complete_given]
  exact ⟨reads _ _ config.isTree_toValue config.toValue.isDocument_compact, reads⟩

/-- A configuration in arrays, with an object for its tokens. -/
theorem read_write_arrays :
    read "[[[4294967295,\"\\\"\"]],[],[],[],\x7b\"exact\":[],\"prefixes\":[\"\\\\\"]\x7d,[0]]" =
      .ok ⟨[⟨4294967295, "\""⟩], [], [], [], ⟨[], ["\\"]⟩, [0]⟩ := by
  let config : Config := ⟨[⟨4294967295, "\""⟩], [], [], [], ⟨[], ["\\"]⟩, [0]⟩
  let stored : Value :=
    .array [.array [.array [.number 4294967295, .string "\""]], .array [], .array [], .array [],
      config.tokens.toValue, .array [.number 0]]
  have override : MathClassOverride.IsTree ⟨4294967295, "\""⟩
      (.array [.ofNat 4294967295, .ofText "\""]) :=
    .inr ⟨_, rfl, rfl⟩
  have isTree : config.given.IsTree stored.tree :=
    ⟨some _, some _, some _, .some ⟨[_], rfl, .cons override .nil⟩, .some ⟨[], rfl, .nil⟩,
      .some config.tokens.isTree_toValue, .inr ⟨_, rfl, rfl⟩⟩
  have text : String.ofList stored.compact =
      "[[[4294967295,\"\\\"\"]],[],[],[],\x7b\"exact\":[],\"prefixes\":[\"\\\\\"]\x7d,[0]]" := by
    decide +kernel
  rw [← text]
  exact (read_write config).2 stored.tree _ isTree stored.isDocument_compact

end Config

end SymbolRules
