import SymbolRules.Generator.Basic

/-!
# Command lines

The program has three commands. Their options may stand anywhere among the
operands, each of them once; behind `--` everything is an operand. Names of
commands and options are never shortened, and names of files are never empty.
-/

namespace SymbolRules

namespace Cli

/-- What the program is asked to do. A missing input is standard input, and a missing
    output is standard output. -/
inductive Command where
  /-- Writes the rules of a table. -/
  | generate (input output config : Option String) (policy : Policy)
  /-- Prints the symbols of each token of a table. -/
  | ranges (input config : Option String) (policy : Policy)
  /-- Prints the escaped form of code points. -/
  | encode (codePoints : List String)
  deriving DecidableEq, Repr

/-- The arguments behind the name of a command. -/
structure Arguments where
  operands : List String := []
  config : Option String := none
  skipInvalid : Bool := false
  deriving DecidableEq, Repr

namespace Arguments

/-- Whether an argument has the form of an option: it begins with a hyphen and is
    longer than that. -/
def isOption (arg : String) : Bool := arg.toList.head? == some '-' && arg != "-"

/-- The value in an argument `--config=value`. -/
def joinedConfig? (arg : String) : Option String :=
  let name := "--config=".toList
  if name.isPrefixOf arg.toList then some (String.ofList (arg.toList.drop name.length))
  else none

/-- Sets the name of the configuration file, which must not be set or empty. -/
def withConfig (arguments : Arguments) (path : String) : Option Arguments :=
  if arguments.config.isSome || path.isEmpty then none
  else some { arguments with config := some path }

/-- Sets that bad lines are skipped, which must not be set. -/
def withSkipInvalid (arguments : Arguments) : Option Arguments :=
  if arguments.skipInvalid then none else some { arguments with skipInvalid := true }

/-- Adds operands. -/
def withOperands (arguments : Arguments) (more : List String) : Arguments :=
  { arguments with operands := arguments.operands ++ more }

/-- Takes further arguments; there is no result if one of them is wrong. -/
def take (arguments : Arguments) : List String → Option Arguments
  | [] => some arguments
  | "--" :: rest => some (arguments.withOperands rest)
  | "--skip-invalid" :: rest => do take (← arguments.withSkipInvalid) rest
  | "--config" :: path :: rest =>
      if isOption path then none else do take (← arguments.withConfig path) rest
  | arg :: rest =>
      match joinedConfig? arg with
      | some path => do take (← arguments.withConfig path) rest
      | none =>
          if isOption arg then none else take (arguments.withOperands [arg]) rest

/-- What is done with bad lines. -/
def policy (arguments : Arguments) : Policy :=
  if arguments.skipInvalid then .skip else .abort

/-- Whether no option is set. -/
def hasNoOptions (arguments : Arguments) : Bool :=
  arguments.config.isNone && !arguments.skipInvalid

end Arguments

namespace Command

/-- Reads a command line without the name of the program; there is no result if it is
    not understood. -/
def parse : List String → Option Command
  | "generate" :: args => do
      let arguments ← Arguments.take {} args
      match arguments.operands with
      | [] => return .generate none none arguments.config arguments.policy
      | [input] =>
          if input.isEmpty then none
          else return .generate (some input) none arguments.config arguments.policy
      | [input, output] =>
          if input.isEmpty || output.isEmpty then none
          else return .generate (some input) (some output) arguments.config arguments.policy
      | _ => none
  | "ranges" :: args => do
      let arguments ← Arguments.take {} args
      match arguments.operands with
      | [] => return .ranges none arguments.config arguments.policy
      | [input] =>
          if input.isEmpty then none
          else return .ranges (some input) arguments.config arguments.policy
      | _ => none
  | "encode" :: args => do
      let arguments ← Arguments.take {} args
      if arguments.hasNoOptions && !arguments.operands.isEmpty then
        return .encode arguments.operands
      else none
  | _ => none

end Command

end Cli

end SymbolRules
