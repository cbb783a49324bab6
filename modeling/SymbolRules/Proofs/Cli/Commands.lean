import SymbolRules.Proofs.Cli.Surroundings

/-!
# Commands

What a command on a table does is a function of the table and the configuration that it finds in
its surroundings: nothing is written before both are read and the table is worked on
(`runIn_perform_generate`, `runIn_perform_ranges`).
-/

namespace SymbolRules

namespace Cli

section Run

variable {σ α β : Type}

/-- What a part of a command comes to in its surroundings, and what it leaves of them. -/
def runIn (state : σ) (part : ExceptT Failure (StateM σ) α) : Except Failure α × σ :=
  part.run.run state

theorem runIn_bind (state : σ) (first : ExceptT Failure (StateM σ) α)
    (next : α → ExceptT Failure (StateM σ) β) :
    runIn state (first >>= next) =
      match runIn state first with
      | (.ok value, left) => runIn left (next value)
      | (.error failure, left) => (.error failure, left) := by
  rw [runIn, ExceptT.run_bind, StateT.run_bind, ← runIn]
  rcases runIn state first with ⟨failure | value, left⟩
  · rfl
  · rfl

theorem runIn_lift {source : StateM σ α} {state left : σ} {value : α}
    (given : source.run state = (value, left)) :
    runIn state (liftM source) = (.ok value, left) := by
  show (Except.ok <$> source).run state = (.ok value, left)
  rw [StateT.run_map, given]
  rfl

theorem runIn_readText {state : σ} {source : StateM σ (Except AccessFault ByteArray)}
    {bytes : Except AccessFault ByteArray} (given : source.run state = (bytes, state))
    (failed : AccessFault → Failure) :
    runIn state (readText source failed) = (textOf bytes failed, state) := by
  unfold readText
  rw [runIn_bind, runIn_lift given, textOf]
  dsimp only
  cases bytes.bind decodeText with
  | ok text => rfl
  | error fault => rfl

/-- Runs the program. -/
def runFrom [Host (StateM σ)] (state : σ) (args : List String) : Outcome × σ :=
  (run (m := StateM σ) args).run state

theorem runFrom_of_parse [Host (StateM σ)] {state : σ} {args : List String} {command : Command}
    (parsed : Command.parse args = some command) :
    runFrom state args =
      match runIn state (perform command) with
      | (.ok (), left) => (.success, left)
      | (.error failure, left) => (.failure failure, left) := by
  rw [runFrom, run, parsed]
  dsimp only
  rw [StateT.run_bind, ← runIn]
  rcases runIn state (perform command) with ⟨failure | done, left⟩
  · rfl
  · rfl

end Run

/-- An output gets the lines of all rules behind what it has already. -/
theorem addLines_eq (text : String) (rules : List Rule) :
    addLines text rules = text ++ Rule.render rules := by
  induction rules generalizing text with
  | nil => rw [addLines, Rule.render, List.map_nil, String.join_nil, String.append_empty]
  | cons rule rules ih =>
      rw [addLines, ih, Rule.render, Rule.render, List.map_cons, String.join_cons,
        String.append_assoc, String.append_assoc, String.append_assoc]

section Surroundings

variable {σ : Type} [Host (StateM σ)] [Surroundings σ] (state : σ)

theorem runIn_readTable (input : Option String) :
    runIn state (readTable (m := StateM σ) input) = (tableOf state input, state) := by
  cases input with
  | none => exact runIn_readText (Surroundings.run_readInput state) _
  | some path => exact runIn_readText (Surroundings.run_readFile state path) _

theorem runIn_readConfig (config : Option String) :
    runIn state (readConfig (m := StateM σ) config) = (configOf state config, state) := by
  cases config with
  | none => rfl
  | some path =>
      have text : runIn state (readText (Host.readFile path) (.unreadableConfig path)) =
          (textOf (bytesOf state (some path)) (.unreadableConfig path), state) :=
        runIn_readText (Surroundings.run_readFile state path) _
      unfold readConfig
      rw [runIn_bind, text, configOf]
      cases textOf (bytesOf state (some path)) (.unreadableConfig path) with
      | error failure => rfl
      | ok text =>
          show _ = ((Config.read text).mapError Failure.invalidConfig, state)
          dsimp only
          cases Config.read text with
          | ok config => rfl
          | error fault => rfl

/-- A command that reads a table and a configuration fails without a trace, or goes on with them. -/
theorem runIn_sources {α : Type} (input config : Option String)
    (next : String → Config → ExceptT Failure (StateM σ) α) :
    runIn state (readTable input >>= fun table => readConfig config >>= next table) =
      match sourcesOf state input config with
      | .ok (table, settings) => runIn state (next table settings)
      | .error failure => (.error failure, state) := by
  rw [runIn_bind, runIn_readTable, sourcesOf]
  cases tableOf state input with
  | error failure => rfl
  | ok table =>
      dsimp only
      rw [runIn_bind, runIn_readConfig]
      cases configOf state config with
      | error failure => rfl
      | ok settings => rfl

theorem runIn_writeOutput_none (text : String) :
    runIn state (writeOutput text none) = (.ok (), Surroundings.printed state text) :=
  runIn_lift (Surroundings.run_print state text)

theorem runIn_writeOutput_some (text path : String) :
    runIn state (writeOutput text (some path)) =
      match Surroundings.creation state path with
      | .ok file => (.ok (), Surroundings.put state file text.toUTF8)
      | .error fault => (.error (.uncreatableFile path fault), state) := by
  have written := Surroundings.run_writeFile state path text
  unfold writeOutput
  rw [runIn_bind]
  cases created : Surroundings.creation state path with
  | ok file =>
      rw [created] at written
      have lifted : runIn state (ExceptT.lift (Host.writeFile path text)) =
          (.ok (.ok ()), Surroundings.put state file text.toUTF8) := runIn_lift written
      rw [lifted]
      rfl
  | error fault =>
      rw [created] at written
      have lifted : runIn state (ExceptT.lift (Host.writeFile path text)) =
          (.ok (.error fault), state) := runIn_lift written
      rw [lifted]
      rfl

/-- A text for which an output can be created is left there, and nothing else has changed. -/
theorem exists_runIn_writeOutput {output : Option String}
    (creates : ∀ path ∈ output, ∃ file, Surroundings.creation state path = .ok file)
    (text : String) :
    ∃ left, runIn state (writeOutput text output) = (.ok (), left) ∧
      LeavesOutput state left text output := by
  cases output with
  | none => exact ⟨_, runIn_writeOutput_none state text, leavesOutput_printed state text⟩
  | some path =>
      obtain ⟨file, created⟩ := creates path rfl
      refine ⟨_, ?_, leavesOutput_put created text⟩
      rw [runIn_writeOutput_some, created]

theorem runIn_perform_generate (input output config : Option String) (policy : Policy) :
    runIn state (perform (.generate input output config policy)) =
      match sourcesOf state input config with
      | .error failure => (.error failure, state)
      | .ok (table, settings) =>
          match Generator.generate { config := settings } policy table with
          | .error error => (.error (.generation error), state)
          | .ok rules => runIn state (writeOutput (Rule.render rules) output) := by
  rw [perform, runIn_sources]
  rcases sourcesOf state input config with failure | ⟨table, settings⟩
  · rfl
  · dsimp only
    cases Generator.generate { config := settings } policy table with
    | error error => rfl
    | ok rules =>
        dsimp only
        rw [addLines_eq, String.empty_append]

theorem runIn_perform_ranges (input config : Option String) (policy : Policy) :
    runIn state (perform (.ranges input config policy)) =
      match sourcesOf state input config with
      | .error failure => (.error failure, state)
      | .ok (table, settings) =>
          match Generator.feed { config := settings } policy table with
          | (.error error, _) => (.error (.generation error), state)
          | (.ok _, generator) =>
              (.ok (), Surroundings.printed state (rangesText generator.ranges)) := by
  rw [perform, runIn_sources]
  rcases sourcesOf state input config with failure | ⟨table, settings⟩
  · rfl
  · dsimp only
    rcases Generator.feed { config := settings } policy table with ⟨error | rules, generator⟩
    · rfl
    · exact runIn_writeOutput_none state _

end Surroundings

end Cli

end SymbolRules
