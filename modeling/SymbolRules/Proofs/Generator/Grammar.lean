import SymbolRules.Proofs.Generator.Collected

/-!
# The grammar of a table

The rules of a table can be read off record by record and token by token, without running a
generator: what stands between two symbols of a token makes no difference to its range rule.
-/

namespace SymbolRules

namespace Config

/-- The rules of one record that can be written and has a token: one for each of its commands,
    and one for itself if it has several code points. -/
def ownRules (config : Config) (record : Record) : List Rule :=
  match record.escaped, config.recordToken? record with
  | .ok text, some token =>
      (config.commandsFor record).map (.command · text token) ++
        if 2 ≤ record.codePoints.length then [.literal text token] else []
  | _, _ => []

/-- The rules of a table: those of its records in order, and then one range rule for each token
    that has collected a symbol. -/
def grammar (config : Config) (table : String) : List Rule :=
  (Table.records table).flatMap config.ownRules ++ config.rangeRules table

theorem rulesOf_eq_ownRules (config : Config) {record : Record}
    (nonempty : record.codePoints ≠ []) : config.rulesOf record = config.ownRules record := by
  have several : record.isSingle = true ↔ ¬ 2 ≤ record.codePoints.length := by
    unfold Record.isSingle Record.single?
    cases points : record.codePoints with
    | nil => exact absurd points nonempty
    | cons first rest =>
        cases rest with
        | nil => simp
        | cons second rest => simp
  unfold rulesOf ownRules
  cases record.escaped with
  | error fault => rfl
  | ok text =>
      cases config.recordToken? record with
      | none => rfl
      | some token =>
          dsimp only
          by_cases single : record.isSingle = true
          · rw [if_pos single, if_neg (several.1 single)]
          · rw [if_neg single, if_pos (Decidable.not_not.1 (mt several.2 single))]

end Config

namespace Generator

/-- A new generator gives the grammar of the table: records, clusters, excluded symbols and
    blank lines of other tokens leave the range rule of a token as it is. -/
theorem generate_eq_grammar {config : Config} {policy : Policy} {table : String}
    {rules : List Rule}
    (generated : (Generator.mk config []).generate policy table = .ok rules) :
    rules = config.grammar table := by
  rw [rules_of_generate generated, Config.grammar]
  congr 1
  apply List.flatMap_congr
  intro record member
  exact config.rulesOf_eq_ownRules (Table.codePoints_ne_nil_of_mem_records member)

theorem generate_eq_grammar_interleaved :
    let table := "U00041 A \\alpha\nU00031 NUM\n\nU0002E A\nU02268-0FE00 OPS\nbogus\nU00042 A"
    let rules : List Rule :=
      [.command "\\\\alpha" "\\u0041" "A", .literal "\\u2268\\uFE00" "OPS",
        .range "[\\u0041\\u0042]" "A", .range "\\u0031" "NUM"]
    (Generator.mk {} []).generate .skip table = .ok rules ∧ rules = Config.grammar {} table := by
  intro table rules
  have generated : (Generator.mk {} []).generate .skip table = .ok rules := by
    decide +kernel
  exact ⟨generated, generate_eq_grammar generated⟩

end Generator

end SymbolRules
