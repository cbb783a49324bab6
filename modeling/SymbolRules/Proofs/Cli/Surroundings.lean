import SymbolRules.Cli.Run
import SymbolRules.Proofs.Except

/-!
# Surroundings

The program can run in any surroundings that are a value. Reading is answered from the value and
leaves it as it is; creating a file and printing lead to another one, in which nothing else has
changed (`Cli.Surroundings`). What a command reads and what it leaves behind is said here for all
of them.
-/

namespace SymbolRules

namespace Cli

/-- Surroundings that are a value, and the laws of what is done in them. A file may be found by
    many paths, and files are told apart by something else. -/
class Surroundings (σ : Type) [Host (StateM σ)] where
  /-- What tells files apart. -/
  File : Type
  /-- What a file holds, if there is one. -/
  content : σ → File → Option ByteArray
  /-- What standard input gives. -/
  input : σ → Except AccessFault ByteArray
  /-- What has been written to standard output. -/
  output : σ → String
  /-- What a path is read as. -/
  read : σ → String → Except AccessFault ByteArray
  /-- The file that a path creates or replaces, or why it does not. -/
  creation : σ → String → Except AccessFault File
  /-- What is left when a file has been given a content. -/
  put : σ → File → ByteArray → σ
  /-- What is left when a text has been printed. -/
  printed : σ → String → σ
  run_readFile (state : σ) (path : String) :
    (Host.readFile path : StateM σ (Except AccessFault ByteArray)).run state =
      (read state path, state)
  run_readInput (state : σ) :
    (Host.readInput : StateM σ (Except AccessFault ByteArray)).run state = (input state, state)
  run_writeFile (state : σ) (path text : String) :
    (Host.writeFile path text : StateM σ (Except AccessFault Unit)).run state =
      match creation state path with
      | .ok file => (.ok (), put state file text.toUTF8)
      | .error fault => (.error fault, state)
  run_print (state : σ) (text : String) :
    (Host.print text : StateM σ Unit).run state = ((), printed state text)
  /-- A file is read by the path that created it. -/
  read_put (state : σ) {path : String} {file : File} (created : creation state path = .ok file)
    (bytes : ByteArray) : read (put state file bytes) path = .ok bytes
  content_put_self (state : σ) (file : File) (bytes : ByteArray) :
    content (put state file bytes) file = some bytes
  content_put_of_ne (state : σ) (bytes : ByteArray) {file other : File} (different : other ≠ file) :
    content (put state file bytes) other = content state other
  input_put (state : σ) (file : File) (bytes : ByteArray) :
    input (put state file bytes) = input state
  output_put (state : σ) (file : File) (bytes : ByteArray) :
    output (put state file bytes) = output state
  content_printed (state : σ) (text : String) (file : File) :
    content (printed state text) file = content state file
  input_printed (state : σ) (text : String) : input (printed state text) = input state
  output_printed (state : σ) (text : String) :
    output (printed state text) = output state ++ text

theorem decodeText_eq_ok_iff {content : ByteArray} {text : String} :
    decodeText content = .ok text ↔ content = text.toUTF8 := by
  unfold decodeText String.fromUTF8?
  by_cases valid : content.IsValidUTF8
  · rw [dif_pos valid]
    simp [← String.toByteArray_inj, String.fromUTF8, String.toUTF8]
  · rw [dif_neg valid]
    simp only [reduceCtorEq, false_iff]
    rintro rfl
    exact valid text.isValidUTF8

theorem decodeText_eq_error_iff {content : ByteArray} {fault : AccessFault} :
    decodeText content = .error fault ↔
      (∀ text : String, content ≠ text.toUTF8) ∧ fault = .notText := by
  simp only [ne_eq, ← decodeText_eq_ok_iff]
  unfold decodeText
  cases String.fromUTF8? content <;> simp [eq_comm]

/-- The text that some bytes stand for. -/
def textOf (bytes : Except AccessFault ByteArray) (failed : AccessFault → Failure) :
    Except Failure String :=
  (bytes.bind decodeText).mapError failed

/-- How it is reported that there is no table. -/
def tableFailure : Option String → AccessFault → Failure
  | none => .unreadableInput
  | some path => .unreadableFile path

section Reading

variable {σ : Type} [Host (StateM σ)] [Surroundings σ]

/-- The bytes of a file, or of standard input. -/
def bytesOf (state : σ) : Option String → Except AccessFault ByteArray
  | none => Surroundings.input state
  | some path => Surroundings.read state path

/-- Whether a file, or standard input, holds a text. -/
def Holds (state : σ) (source : Option String) (text : String) : Prop :=
  bytesOf state source = .ok text.toUTF8

/-- Why a file, or standard input, gives no text: it cannot be read, or its bytes are not those
    of a text. -/
def Refuses (state : σ) (source : Option String) (fault : AccessFault) : Prop :=
  bytesOf state source = .error fault ∨
    ∃ content, bytesOf state source = .ok content ∧
      (∀ text : String, content ≠ text.toUTF8) ∧ fault = .notText

/-- Whether a command that is given this configuration file works with this configuration. -/
def Configures (state : σ) : Option String → Config → Prop
  | none, config => config = {}
  | some path, config => ∃ text, Holds state (some path) text ∧ Config.read text = .ok config

/-- The table that a command works on. -/
def tableOf (state : σ) (input : Option String) : Except Failure String :=
  textOf (bytesOf state input) (tableFailure input)

/-- The configuration that a command works with. -/
def configOf (state : σ) : Option String → Except Failure Config
  | none => .ok {}
  | some path => do
      let text ← textOf (bytesOf state (some path)) (.unreadableConfig path)
      (Config.read text).mapError .invalidConfig

/-- The table and the configuration, in the order in which they are read. -/
def sourcesOf (state : σ) (input config : Option String) : Except Failure (String × Config) := do
  let table ← tableOf state input
  let settings ← configOf state config
  return (table, settings)

variable {state : σ} {input config : Option String}

theorem textOf_eq_ok_iff {source : Option String} {failed : AccessFault → Failure}
    {text : String} :
    textOf (bytesOf state source) failed = .ok text ↔ Holds state source text := by
  have opened : textOf (bytesOf state source) failed = .ok text ↔
      bytesOf state source >>= decodeText = .ok text := mapError_eq_ok_iff
  rw [opened, bind_eq_ok_iff, Holds]
  simp only [decodeText_eq_ok_iff, exists_eq_right]

theorem textOf_eq_error_iff {source : Option String} {failed : AccessFault → Failure}
    {failure : Failure} :
    textOf (bytesOf state source) failed = .error failure ↔
      ∃ fault, Refuses state source fault ∧ failed fault = failure := by
  have opened : textOf (bytesOf state source) failed = .error failure ↔
      ∃ fault, bytesOf state source >>= decodeText = .error fault ∧ failed fault = failure :=
    mapError_eq_error_iff
  simp only [opened, bind_eq_error_iff, decodeText_eq_error_iff, Refuses]

theorem tableOf_eq_ok_iff {table : String} :
    tableOf state input = .ok table ↔ Holds state input table :=
  textOf_eq_ok_iff

theorem tableOf_eq_error_iff {failure : Failure} :
    tableOf state input = .error failure ↔
      ∃ fault, Refuses state input fault ∧ tableFailure input fault = failure :=
  textOf_eq_error_iff

theorem configOf_eq_ok_iff {settings : Config} :
    configOf state config = .ok settings ↔ Configures state config settings := by
  cases config with
  | none => simp [configOf, Configures, eq_comm]
  | some path =>
      have opened : configOf state (some path) = .ok settings ↔
          ∃ text, textOf (bytesOf state (some path)) (.unreadableConfig path) = .ok text ∧
            (Config.read text).mapError Failure.invalidConfig = .ok settings := bind_eq_ok_iff
      simp only [opened, textOf_eq_ok_iff, mapError_eq_ok_iff, Configures]

theorem configOf_eq_error_iff {failure : Failure} :
    configOf state config = .error failure ↔
      ∃ path ∈ config,
        (∃ fault, Refuses state (some path) fault ∧ .unreadableConfig path fault = failure) ∨
        ∃ text fault, Holds state (some path) text ∧ Config.read text = .error fault ∧
          .invalidConfig fault = failure := by
  cases config with
  | none => simp [configOf]
  | some path =>
      have opened : configOf state (some path) = .error failure ↔
          textOf (bytesOf state (some path)) (.unreadableConfig path) = .error failure ∨
          ∃ text, textOf (bytesOf state (some path)) (.unreadableConfig path) = .ok text ∧
            (Config.read text).mapError Failure.invalidConfig = .error failure :=
        bind_eq_error_iff
      simp [opened, textOf_eq_ok_iff, textOf_eq_error_iff, mapError_eq_error_iff]

/-- Bytes stand for one text at most. -/
theorem Holds.unique {source : Option String} {text other : String}
    (holds : Holds state source text) (holdsToo : Holds state source other) : text = other :=
  String.toByteArray_inj.1 (Except.ok.inj (holds.symm.trans holdsToo))

theorem Configures.unique {settings other : Config} (configures : Configures state config settings)
    (configuresToo : Configures state config other) : settings = other :=
  Except.ok.inj ((configOf_eq_ok_iff.2 configures).symm.trans (configOf_eq_ok_iff.2 configuresToo))

theorem sourcesOf_eq_ok_iff {table : String} {settings : Config} :
    sourcesOf state input config = .ok (table, settings) ↔
      Holds state input table ∧ Configures state config settings := by
  rw [← tableOf_eq_ok_iff, ← configOf_eq_ok_iff, sourcesOf]
  cases tableOf state input with
  | error failure => simp [bind, Except.bind]
  | ok given => cases configOf state config <;> simp [bind, Except.bind, pure, Except.pure]

theorem sourcesOf_eq_error_iff {failure : Failure} :
    sourcesOf state input config = .error failure ↔
      (∃ fault, Refuses state input fault ∧ tableFailure input fault = failure) ∨
        ∃ table, Holds state input table ∧ configOf state config = .error failure := by
  have opened : sourcesOf state input config = .error failure ↔
      tableOf state input = .error failure ∨
        ∃ table, tableOf state input = .ok table ∧
          (configOf state config).map (table, ·) = .error failure := bind_eq_error_iff
  rw [opened, tableOf_eq_error_iff]
  simp only [tableOf_eq_ok_iff]
  cases configOf state config <;> simp [Except.map]

end Reading

section Writing

variable {σ : Type} [Host (StateM σ)] [Surroundings σ]

/-- Whether only the output of a text has changed: it has been added to standard output, or it is
    all that a file holds. -/
def LeavesOutput (state left : σ) (text : String) : Option String → Prop
  | none => left = Surroundings.printed state text ∧
      Surroundings.output left = Surroundings.output state ++ text ∧
      (∀ file, Surroundings.content left file = Surroundings.content state file) ∧
      Surroundings.input left = Surroundings.input state
  | some path => ∃ file, Surroundings.creation state path = .ok file ∧
      Surroundings.read left path = .ok text.toUTF8 ∧
      Surroundings.content left file = some text.toUTF8 ∧
      (∀ other, other ≠ file →
        Surroundings.content left other = Surroundings.content state other) ∧
      Surroundings.input left = Surroundings.input state ∧
      Surroundings.output left = Surroundings.output state

theorem leavesOutput_printed (state : σ) (text : String) :
    LeavesOutput state (Surroundings.printed state text) text none :=
  ⟨rfl, Surroundings.output_printed state text, Surroundings.content_printed state text,
    Surroundings.input_printed state text⟩

theorem leavesOutput_put {state : σ} {path : String} {file : Surroundings.File σ}
    (created : Surroundings.creation state path = .ok file) (text : String) :
    LeavesOutput state (Surroundings.put state file text.toUTF8) text (some path) :=
  ⟨file, created, Surroundings.read_put state created text.toUTF8,
    Surroundings.content_put_self state file text.toUTF8,
    fun _ => Surroundings.content_put_of_ne state text.toUTF8,
    Surroundings.input_put state file text.toUTF8, Surroundings.output_put state file text.toUTF8⟩

end Writing

end Cli

end SymbolRules
