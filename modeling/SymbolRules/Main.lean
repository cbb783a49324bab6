import SymbolRules.Cli.Run

/-!
# The program

Runs commands on the files and streams of the machine.
-/

namespace SymbolRules

namespace Cli

/-- Whether a code is the given error number, which may come with a minus sign. -/
def isErrorNumber (number code : UInt32) : Bool := code == number || code == 0 - number

/-- Tells an error of the machine in the program's words. -/
def accessFault (error : IO.Error) : AccessFault :=
  match error with
  | .noFileOrDirectory .. => .missing
  | .inappropriateType _ code _ =>
      if isErrorNumber 21 code then .isDirectory else .notDirectory
  | .invalidArgument _ code _ =>
      if isErrorNumber 36 code then .nameTooLong else .other (toString error)
  | error => .other (toString error)

/-- Performs an action on the machine. -/
def attempt {α : Type} (action : IO α) : IO (Except AccessFault α) := do
  try
    return .ok (← action)
  catch error =>
    return .error (accessFault error)

instance : Host IO where
  readFile path := attempt (IO.FS.readBinFile path)
  readInput := attempt do (← IO.getStdin).readBinToEnd
  writeFile path text := attempt (IO.FS.writeFile path text)
  print text := IO.print text

/-- What is said about a command line that is not understood. -/
def usage : String :=
  "Usage: generate [INPUT] [OUTPUT] [--config FILE] [--skip-invalid]\n" ++
    "       ranges [INPUT] [--config FILE] [--skip-invalid]\n" ++
    "       encode CODE_POINT...\n"

end Cli

end SymbolRules

/-- Runs the command line, and reports a failure on standard error. -/
def main (args : List String) : IO UInt32 := do
  let outcome ← SymbolRules.Cli.run args
  match outcome with
  | .success => pure ()
  | .failure failure => IO.eprint failure.report
  | .misuse => IO.eprint SymbolRules.Cli.usage
  return outcome.exitCode.toUInt32
