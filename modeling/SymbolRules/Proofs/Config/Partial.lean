import SymbolRules.Proofs.Config.Loading
import SymbolRules.Proofs.Json.Repeats
import SymbolRules.Proofs.Json.Values

/-!
# Partial configurations

A stored configuration changes the tables that it names and no others, in whatever way it is
written. It must not name a table, or a member of an entry, more than once.
-/

namespace SymbolRules

open Json (Value Tree)

namespace Config

/-- Any choice of tables can be stored in any way, with any other members between their names:
    exactly these tables are loaded, and the default for the others, a list of the tokens that is
    missing included. If some object in the text names a known member twice, it is a mismatch. -/
theorem read_partial :
    (∀ (given : Config.Partial) (tree : Tree) (text : String), given.IsTree tree →
      tree.IsDocument text → read text = .ok given.complete) ∧
    ∀ (tree : Tree) (text : String), Tree.Fits shape tree → Tree.Repeats shape tree →
      tree.IsDocument text → read text = .error .mismatch := by
  refine ⟨fun given tree text isTree document => ?_, fun tree text fits repeats document => ?_⟩
  · exact Config.Partial.read_eq isTree document
  · rw [read, Json.read_isDocument document, Tree.read_of_repeats fits repeats]
    rfl

/-- An entry of one table and a list of the tokens are named, with a note at every level; then a
    table is named twice, the second time with something that is no table. -/
theorem read_partial_noted :
    read ("\x7b\"note\":[[]],\"tokens\":\x7b\"note\":\"\",\"prefixes\":[\"Q\"]\x7d," ++
        "\"mathclass_overrides\":[\x7b\"mathclass\":\"A\",\"note\":0,\"code_point\":65\x7d]\x7d") =
      .ok { mathClassOverrides := [⟨65, "A"⟩], tokens := { prefixes := ["Q"] } } ∧
    read "\x7b\"range_exclusions\":[],\"note\":0,\"range_exclusions\":\"A\"\x7d" =
      .error .mismatch := by
  let noted : Value :=
    .object [("note", .array [.array []]),
      ("tokens", .object [("note", .string ""), ("prefixes", .array [.string "Q"])]),
      ("mathclass_overrides", .array
        [.object [("mathclass", .string "A"), ("note", .number 0), ("code_point", .number 65)]])]
  let given : Config.Partial :=
    { mathClassOverrides := some [⟨65, "A"⟩], tokens := some { prefixes := some ["Q"] } }
  let twice : Value :=
    .object [("range_exclusions", .array []), ("note", .number 0),
      ("range_exclusions", .string "A")]
  have isTree : given.IsTree noted.tree := by
    have tokens : TokenClasses.Partial.IsTree { prefixes := some ["Q"] }
        (.ofMembers [("note", .ofText ""), ("prefixes", .ofTexts ["Q"])]) :=
      .inl ⟨_, rfl, by simp [Keyed.under]⟩
    have override : MathClassOverride.IsTree ⟨65, "A"⟩ (.ofMembers
        [("mathclass", .ofText "A"), ("note", .ofNat 0), ("code_point", .ofNat 65)]) :=
      .inl ⟨_, rfl, by simp [Keyed.under]⟩
    refine ⟨some _, none, some _, .some ⟨[_], rfl, .cons override .nil⟩, .none, .some tokens,
      .inl ⟨[("note", .array [.array []]), ("tokens", _), ("mathclass_overrides", _)], rfl, ?_⟩⟩
    simp [Keyed.under, given, Value.tree, Value.trees, Value.memberTrees, Tree.ofTexts]
  have fits : Tree.Fits shape twice.tree := by
    have empty : Tree.Fits (.list .number) (.array []) := .list (by simp)
    refine .object fun name value isFirst member known => ?_
    have isNamed := Keyed.mem_under.1 (List.mem_of_mem_head? isFirst)
    obtain rfl | rfl : name = "range_exclusions" ∨ name = "note" := by
      simp only [Value.memberTrees, List.mem_cons, Prod.mk.injEq, List.not_mem_nil,
        or_false] at isNamed
      tauto
    · obtain rfl := Option.some.inj isFirst
      obtain rfl := Option.some.inj known
      exact empty
    · cases known
  have repeats : Tree.Repeats shape twice.tree := by
    refine .here "range_exclusions" rfl ?_
    simp [Keyed.under, Value.memberTrees]
  have notedText : String.ofList noted.compact =
      "\x7b\"note\":[[]],\"tokens\":\x7b\"note\":\"\",\"prefixes\":[\"Q\"]\x7d," ++
        "\"mathclass_overrides\":[\x7b\"mathclass\":\"A\",\"note\":0,\"code_point\":65\x7d]\x7d" := by
    decide +kernel
  have twiceText : String.ofList twice.compact =
      "\x7b\"range_exclusions\":[],\"note\":0,\"range_exclusions\":\"A\"\x7d" := by
    decide +kernel
  rw [← notedText, ← twiceText]
  constructor
  · exact read_partial.1 given noted.tree _ isTree noted.isDocument_compact
  · exact read_partial.2 twice.tree _ fits repeats twice.isDocument_compact

end Config

end SymbolRules
