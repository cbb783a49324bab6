import SymbolRules.Cli.CodePoint
import SymbolRules.Cli.Command
import SymbolRules.Cli.Host
import SymbolRules.Config.Stored

/-!
# Running a command

The input is read first, then the configuration; then the table is worked on, and
only then an output is created or printed. So a command that fails on its input
leaves all files as they are. Code points are printed one after another, up to the
first that is wrong.
-/

namespace SymbolRules

namespace Cli

/-- Why a command did not succeed. -/
inductive Failure where
  /-- A file could not be read. -/
  | unreadableFile (path : String) (cause : AccessFault)
  /-- Standard input could not be read. -/
  | unreadableInput (cause : AccessFault)
  /-- A configuration file could not be read. -/
  | unreadableConfig (path : String) (cause : AccessFault)
  /-- A configuration file holds no configuration. -/
  | invalidConfig (fault : Json.Fault)
  /-- A table could not be turned into rules. -/
  | generation (error : GenerateError)
  /-- An output could not be created. -/
  | uncreatableFile (path : String) (cause : AccessFault)
  /-- An argument is not a numeral. -/
  | unreadableCodePoint (fault : UnreadableCodePoint)
  /-- An argument is not a scalar value. -/
  | invalidCodePoint (fault : InvalidCodePoint)
  deriving DecidableEq, Repr

namespace Failure

/-- What went wrong. -/
def message : Failure → String
  | unreadableFile path _ => "failed to read " ++ path
  | unreadableInput _ => "failed to read stdin"
  | unreadableConfig path cause => "failed to read config " ++ path ++ ": " ++ cause.message
  | invalidConfig fault => "invalid config: " ++ fault.message
  | generation error => error.message
  | uncreatableFile path _ => "failed to create " ++ path
  | unreadableCodePoint fault => fault.message
  | invalidCodePoint fault => fault.message

/-- The fault behind it. A line that is not a record and an argument that is not a
    scalar value have none. -/
def cause? : Failure → Option String
  | unreadableFile _ cause => some cause.message
  | unreadableInput cause => some cause.message
  | unreadableConfig _ cause => some cause.message
  | invalidConfig fault => some fault.message
  | generation (.malformed _) => none
  | generation (.invalidCodePoint _ fault) => some fault.message
  | uncreatableFile _ cause => some cause.message
  | unreadableCodePoint fault => some fault.cause.message
  | invalidCodePoint _ => none

/-- The text for standard error. -/
def report (failure : Failure) : String :=
  let head := "Error: " ++ failure.message ++ "\n"
  match failure.cause? with
  | none => head
  | some cause => head ++ "\nCaused by:\n    " ++ cause ++ "\n"

end Failure

/-- How a run of the program ends. -/
inductive Outcome where
  | success
  | failure (failure : Failure)
  /-- The command line was not understood. -/
  | misuse
  deriving DecidableEq, Repr

/-- The exit code of the program. -/
def Outcome.exitCode : Outcome → Nat
  | success => 0
  | failure _ => 1
  | misuse => 2

section

variable {m : Type → Type} [Monad m] [Host m]

/-- Reads a text, and names the fault if there is one. -/
def readText (source : m (Except AccessFault ByteArray)) (failed : AccessFault → Failure) :
    ExceptT Failure m String := do
  let bytes ← source
  match bytes.bind decodeText with
  | .ok text => return text
  | .error fault => throw (failed fault)

/-- Reads a table from a file, or from standard input. -/
def readTable : Option String → ExceptT Failure m String
  | none => readText (m := m) Host.readInput .unreadableInput
  | some path => readText (m := m) (Host.readFile path) (.unreadableFile path)

/-- Reads a configuration; without a file it is the default one. -/
def readConfig : Option String → ExceptT Failure m Config
  | none => return {}
  | some path => do
      let text ← readText (m := m) (Host.readFile path) (.unreadableConfig path)
      match Config.read text with
      | .ok config => return config
      | .error fault => throw (.invalidConfig fault)

/-- Writes a text to a file, or to standard output. -/
def writeOutput (text : String) : Option String → ExceptT Failure m Unit
  | none => ExceptT.lift (Host.print text)
  | some path => do
      let outcome ← ExceptT.lift (Host.writeFile path text)
      match outcome with
      | .ok () => return ()
      | .error fault => throw (.uncreatableFile path fault)

/-- Adds the line of each rule in turn to the text that is kept for an output. -/
def addLines (text : String) : List Rule → String
  | [] => text
  | rule :: rest => addLines (text ++ rule.line ++ "\n") rest

/-- The text that the `ranges` command prints. -/
def rangesText (ranges : List TokenRanges) : String :=
  String.ofList ((Json.Value.array (ranges.map (·.toValue))).pretty 0 ++ ['\n'])

/-- Reads an argument of the `encode` command. -/
def encodeArgument (text : String) : Except Failure Pair :=
  match readCodePoint text with
  | .error fault => .error (.unreadableCodePoint fault)
  | .ok codePoint =>
      match Pair.encode codePoint.toNat with
      | .error fault => .error (.invalidCodePoint fault)
      | .ok pair => .ok pair

/-- Prints the escaped form of each argument on its line. -/
def printEncoded : List String → ExceptT Failure m Unit
  | [] => return ()
  | text :: rest =>
      match encodeArgument text with
      | .error failure => throw failure
      | .ok pair => do
          writeOutput (pair.text ++ "\n") none
          printEncoded rest

/-- Performs a command. -/
def perform : Command → ExceptT Failure m Unit
  | .generate input output config policy => do
      let table ← readTable input
      let config ← readConfig config
      match Generator.generate { config } policy table with
      | .error error => throw (.generation error)
      | .ok rules => writeOutput (addLines "" rules) output
  | .ranges input config policy => do
      let table ← readTable input
      let config ← readConfig config
      match Generator.feed { config } policy table with
      | (.error error, _) => throw (.generation error)
      | (.ok _, generator) => writeOutput (rangesText generator.ranges) none
  | .encode codePoints => printEncoded codePoints

/-- Runs the program on a command line without its own name. -/
def run (args : List String) : m Outcome :=
  match Command.parse args with
  | none => return .misuse
  | some command => do
      match ← (perform (m := m) command).run with
      | .ok () => return .success
      | .error failure => return .failure failure

end

end Cli

end SymbolRules
