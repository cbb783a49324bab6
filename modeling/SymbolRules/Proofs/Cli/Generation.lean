import SymbolRules.Proofs.Cli.Commands
import SymbolRules.Proofs.Cli.Directory

/-!
# Writing rules, all or none

The command that writes rules goes through four steps: it reads the table, then the
configuration, then it generates the rules, and then it creates its output. If all of them
succeed, exactly the rules are written, even over a file that has just been read. Otherwise
nothing has changed, and the first step that failed is reported. This holds in any surroundings
(`Cli.generate_writes_or_changes_nothing`), and so in a directory
(`Cli.generate_all_or_nothing`).
-/

namespace SymbolRules

namespace Cli

section Surroundings

variable {σ : Type} [Host (StateM σ)] [Surroundings σ]

/-- Whether every step of the command that writes rules succeeds, and with which rules. -/
def Yields (state : σ) (input output config : Option String) (policy : Policy)
    (rules : List Rule) : Prop :=
  ∃ table settings, Holds state input table ∧ Configures state config settings ∧
    Generator.generate { config := settings } policy table = .ok rules ∧
    ∀ path ∈ output, ∃ file, Surroundings.creation state path = .ok file

/-- How the first step that does not succeed is reported. -/
inductive FirstFailure (state : σ) (input output config : Option String) (policy : Policy) :
    Failure → Prop
  | table {fault : AccessFault} (refused : Refuses state input fault) :
      FirstFailure state input output config policy (tableFailure input fault)
  | configFile {table path : String} {fault : AccessFault} (readable : Holds state input table)
      (given : path ∈ config) (refused : Refuses state (some path) fault) :
      FirstFailure state input output config policy (.unreadableConfig path fault)
  | configText {table path text : String} {fault : Json.Fault}
      (readable : Holds state input table) (given : path ∈ config)
      (holds : Holds state (some path) text) (invalid : Config.read text = .error fault) :
      FirstFailure state input output config policy (.invalidConfig fault)
  | generation {table : String} {settings : Config} {error : GenerateError}
      (readable : Holds state input table) (configured : Configures state config settings)
      (failed : Generator.generate { config := settings } policy table = .error error) :
      FirstFailure state input output config policy (.generation error)
  | creation {table path : String} {settings : Config} {rules : List Rule} {fault : AccessFault}
      (readable : Holds state input table) (configured : Configures state config settings)
      (generated : Generator.generate { config := settings } policy table = .ok rules)
      (given : path ∈ output) (refused : Surroundings.creation state path = .error fault) :
      FirstFailure state input output config policy (.uncreatableFile path fault)

variable {state : σ} {args : List String} {input output config : Option String}
  {policy : Policy} {failure : Failure}

/-- The first failure as what the steps come to: the reading, the generation or the creation. -/
theorem FirstFailure.steps (failing : FirstFailure state input output config policy failure) :
    sourcesOf state input config = .error failure ∨
    ∃ table settings, sourcesOf state input config = .ok (table, settings) ∧
      ((∃ error, Generator.generate { config := settings } policy table = .error error ∧
          failure = .generation error) ∨
        ∃ rules path fault, Generator.generate { config := settings } policy table = .ok rules ∧
          output = some path ∧ Surroundings.creation state path = .error fault ∧
          failure = .uncreatableFile path fault) := by
  cases failing with
  | table refused => exact .inl (sourcesOf_eq_error_iff.2 (.inl ⟨_, refused, rfl⟩))
  | configFile readable given refused =>
      have failed := configOf_eq_error_iff.2 ⟨_, given, .inl ⟨_, refused, rfl⟩⟩
      exact .inl (sourcesOf_eq_error_iff.2 (.inr ⟨_, readable, failed⟩))
  | configText readable given holds invalid =>
      have failed := configOf_eq_error_iff.2 ⟨_, given, .inr ⟨_, _, holds, invalid, rfl⟩⟩
      exact .inl (sourcesOf_eq_error_iff.2 (.inr ⟨_, readable, failed⟩))
  | generation readable configured failed =>
      have sources := sourcesOf_eq_ok_iff.2 ⟨readable, configured⟩
      exact .inr ⟨_, _, sources, .inl ⟨_, failed, rfl⟩⟩
  | creation readable configured generated given refused =>
      have sources := sourcesOf_eq_ok_iff.2 ⟨readable, configured⟩
      exact .inr ⟨_, _, sources, .inr ⟨_, _, _, generated, given, refused, rfl⟩⟩

/-- The first step that fails is reported, and nothing has changed. -/
theorem runIn_generate_of_firstFailure
    (failing : FirstFailure state input output config policy failure) :
    runIn state (perform (.generate input output config policy)) = (.error failure, state) := by
  rw [runIn_perform_generate]
  rcases failing.steps with failed | ⟨table, settings, sources, ⟨error, failed, rfl⟩ |
    ⟨rules, path, fault, generated, rfl, refused, rfl⟩⟩
  · rw [failed]
  · simp only [sources, failed]
  · simp only [sources, generated, runIn_writeOutput_some, refused]

/-- If all steps succeed, the command leaves the rules as its output and nothing else. -/
theorem runIn_generate_of_yields {rules : List Rule}
    (yields : Yields state input output config policy rules) :
    ∃ left, runIn state (perform (.generate input output config policy)) = (.ok (), left) ∧
      LeavesOutput state left (Rule.render rules) output := by
  obtain ⟨table, settings, readable, configured, generated, creates⟩ := yields
  obtain ⟨left, written, leaves⟩ := exists_runIn_writeOutput state creates (Rule.render rules)
  refine ⟨left, ?_, leaves⟩
  have sources := sourcesOf_eq_ok_iff.2 ⟨readable, configured⟩
  simp only [runIn_perform_generate, sources, generated, written]

variable (state input output config policy) in
theorem yields_or_firstFailure :
    (∃ rules, Yields state input output config policy rules) ∨
      ∃ failure, FirstFailure state input output config policy failure := by
  cases isTable : tableOf state input with
  | error failure =>
      obtain ⟨fault, refused, -⟩ := tableOf_eq_error_iff.1 isTable
      exact .inr ⟨_, .table refused⟩
  | ok table =>
      have readable := tableOf_eq_ok_iff.1 isTable
      cases isConfig : configOf state config with
      | error failure =>
          obtain ⟨path, given, ⟨fault, refused, -⟩ | ⟨text, fault, holds, invalid, -⟩⟩ :=
            configOf_eq_error_iff.1 isConfig
          · exact .inr ⟨_, .configFile readable given refused⟩
          · exact .inr ⟨_, .configText readable given holds invalid⟩
      | ok settings =>
          have configured := configOf_eq_ok_iff.1 isConfig
          cases generated : Generator.generate { config := settings } policy table with
          | error error => exact .inr ⟨_, .generation readable configured generated⟩
          | ok rules =>
              by_cases creates : ∀ path ∈ output, ∃ file, Surroundings.creation state path = .ok file
              · exact .inl ⟨rules, table, settings, readable, configured, generated, creates⟩
              · push Not at creates
                obtain ⟨path, given, refused⟩ := creates
                cases created : Surroundings.creation state path with
                | error fault =>
                    exact .inr ⟨_, .creation readable configured generated given created⟩
                | ok file => exact absurd created (refused file)

theorem runFrom_of_yields
    (parsed : Command.parse args = some (.generate input output config policy)) {rules : List Rule}
    (yields : Yields state input output config policy rules) :
    ∃ left, runFrom state args = (.success, left) ∧
      LeavesOutput state left (Rule.render rules) output := by
  obtain ⟨left, ran, leaves⟩ := runIn_generate_of_yields yields
  exact ⟨left, by rw [runFrom_of_parse parsed, ran], leaves⟩

theorem runFrom_of_firstFailure
    (parsed : Command.parse args = some (.generate input output config policy))
    (failing : FirstFailure state input output config policy failure) :
    runFrom state args = (.failure failure, state) := by
  rw [runFrom_of_parse parsed, runIn_generate_of_firstFailure failing]

/-- In any surroundings the command that writes the rules of a table succeeds exactly if each of
    its steps does, and then it leaves exactly the rules as its output. Otherwise it changes
    nothing and reports the first step that failed. -/
theorem generate_writes_or_changes_nothing
    (parsed : Command.parse args = some (.generate input output config policy)) (state : σ) :
    ((runFrom state args).1.exitCode = 0 ↔
      ∃ rules, Yields state input output config policy rules) ∧
    (∀ rules, Yields state input output config policy rules →
      LeavesOutput state (runFrom state args).2 (Rule.render rules) output) ∧
    ((runFrom state args).1.exitCode ≠ 0 →
      (runFrom state args).1.exitCode = 1 ∧ (runFrom state args).2 = state) ∧
    ∀ failure, (runFrom state args).1 = .failure failure ↔
      FirstFailure state input output config policy failure := by
  have leaves : ∀ rules, Yields state input output config policy rules →
      LeavesOutput state (runFrom state args).2 (Rule.render rules) output := by
    intro rules yields
    obtain ⟨left, ran, leaves⟩ := runFrom_of_yields parsed yields
    rw [ran]
    exact leaves
  rcases yields_or_firstFailure state input output config policy with
    ⟨rules, yields⟩ | ⟨first, failing⟩
  · obtain ⟨left, ran, -⟩ := runFrom_of_yields parsed yields
    refine ⟨iff_of_true (by rw [ran]; rfl) ⟨rules, yields⟩, leaves, ?_, ?_⟩
    · intro failed
      rw [ran] at failed
      exact absurd rfl failed
    · intro failure
      refine iff_of_false (by simp [ran]) fun other => ?_
      have reported := runFrom_of_firstFailure parsed other
      rw [ran] at reported
      cases reported
  · have ran := runFrom_of_firstFailure parsed failing
    refine ⟨iff_of_false ?_ ?_, leaves, fun _ => by rw [ran]; exact ⟨rfl, rfl⟩, ?_⟩
    · rw [ran]
      exact Nat.one_ne_zero
    · rintro ⟨rules, yields⟩
      obtain ⟨left, succeeded, -⟩ := runFrom_of_yields parsed yields
      rw [ran] at succeeded
      cases succeeded
    · intro failure
      constructor
      · intro reported
        rw [ran] at reported
        obtain rfl := Outcome.failure.inj reported
        exact failing
      · intro other
        rw [runFrom_of_firstFailure parsed other]

end Surroundings

variable {args : List String} {input output config : Option String} {policy : Policy}

/-- In a directory the command that writes the rules of a table succeeds exactly if each of its
    steps does: the table can be read, the configuration can be read, rules are generated, and the
    output can be created. Then exactly the rules are written, even over a file that has been read.
    Otherwise the directory is as it was, and the first step that failed is reported. -/
theorem generate_all_or_nothing
    (parsed : Command.parse args = some (.generate input output config policy))
    (directory : Directory) :
    ((runFrom directory args).1.exitCode = 0 ↔
      ∃ rules, Yields directory input output config policy rules) ∧
    (∀ rules, Yields directory input output config policy rules →
      LeavesOutput directory (runFrom directory args).2 (Rule.render rules) output) ∧
    ((runFrom directory args).1.exitCode ≠ 0 →
      (runFrom directory args).1.exitCode = 1 ∧ (runFrom directory args).2 = directory) ∧
    ∀ failure, (runFrom directory args).1 = .failure failure ↔
      FirstFailure directory input output config policy failure :=
  generate_writes_or_changes_nothing parsed directory

/-- The rules of a table are written over the table, which is found by another path. Without
    skipping its bad line the table stays. -/
theorem generate_all_or_nothing_in_place :
    let table := "U00041 A \\alpha\nU0D800 A\nU1D400 A\n"
    let directory : Directory := { files := [("table", table.toUTF8), ("notes", "-".toUTF8)] }
    let skipping := ["generate", "--skip-invalid", "table", "./table"]
    let aborting := ["generate", "table", "./table"]
    let rules : List Rule :=
      [.command "\\\\alpha" "\\u0041" "A", .range "\\u0041|\\uD835\\uDC00" "A"]
    Command.parse skipping = some (.generate (some "table") (some "./table") none .skip) ∧
      Yields directory (some "table") (some "./table") none .skip rules ∧
      (runFrom directory skipping).1.exitCode = 0 ∧
      LeavesOutput directory (runFrom directory skipping).2 (Rule.render rules) (some "./table") ∧
      (runFrom directory skipping).2.read "./table" =
        .ok ("\"\\\\alpha\" \x7b yytext = \"\\u0041\"; return \"A\"; \x7d\n" ++
          "\\u0041|\\uD835\\uDC00 return \"A\";\n").toUTF8 ∧
      (runFrom directory skipping).2.find? "notes" = some "-".toUTF8 ∧
      Command.parse aborting = some (.generate (some "table") (some "./table") none .abort) ∧
      FirstFailure directory (some "table") (some "./table") none .abort
        (.generation (.invalidCodePoint 2 ⟨0xD800⟩)) ∧
      (runFrom directory aborting).1 = .failure (.generation (.invalidCodePoint 2 ⟨0xD800⟩)) ∧
      (runFrom directory aborting).1.exitCode = 1 ∧ (runFrom directory aborting).2 = directory := by
  intro table directory skipping aborting rules
  have parsed : Command.parse skipping =
      some (.generate (some "table") (some "./table") none .skip) := by
    decide +kernel
  have parsedToo : Command.parse aborting =
      some (.generate (some "table") (some "./table") none .abort) := by
    decide +kernel
  have readable : Holds directory (some "table") table := rfl
  have generated : Generator.generate {} .skip table = .ok rules := by
    decide +kernel
  have failed : Generator.generate {} .abort table = .error (.invalidCodePoint 2 ⟨0xD800⟩) := by
    decide +kernel
  have rendered : Rule.render rules =
      "\"\\\\alpha\" \x7b yytext = \"\\u0041\"; return \"A\"; \x7d\n" ++
        "\\u0041|\\uD835\\uDC00 return \"A\";\n" := by
    decide +kernel
  have yields : Yields directory (some "table") (some "./table") none .skip rules := by
    refine ⟨table, {}, readable, rfl, generated, ?_⟩
    intro path given
    obtain rfl := Option.some.inj given
    exact ⟨"table", rfl⟩
  have failing : FirstFailure directory (some "table") (some "./table") none .abort
      (.generation (.invalidCodePoint 2 ⟨0xD800⟩)) := .generation readable rfl failed
  obtain ⟨succeeds, leaves, -, -⟩ := generate_all_or_nothing parsed directory
  obtain ⟨-, -, changes, reports⟩ := generate_all_or_nothing parsedToo directory
  have reported := (reports _).2 failing
  have code : (runFrom directory aborting).1.exitCode = 1 := by rw [reported]; rfl
  obtain ⟨file, created, isRead, -, others, -⟩ := leaves rules yields
  obtain rfl : "table" = file := Except.ok.inj created
  rw [rendered] at isRead
  have different : "notes" ≠ "table" := by decide
  have fails : (runFrom directory aborting).1.exitCode ≠ 0 := by rw [code]; decide
  exact ⟨parsed, yields, succeeds.2 ⟨rules, yields⟩, leaves rules yields, isRead,
    others "notes" different, parsedToo, failing, reported, code, (changes fails).2⟩

end Cli

end SymbolRules
