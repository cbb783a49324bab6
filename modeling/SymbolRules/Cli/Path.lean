import SymbolRules.Cli.Host
import SymbolRules.Text.Split

/-!
# Paths

A path is a list of steps from a directory with files and no directories in it, or
from the root. A step may stay, go up, or enter a file, and no step leads on from a
file. Directories above the one with the files are not known any further: every name
in them is missing. A path may end with a slash, which asks for a directory. Names and
whole paths have a greatest length, counted in bytes of UTF-8.
-/

namespace SymbolRules

namespace Cli

/-- A path, step by step. -/
structure Path where
  /-- Whether the path begins at the root. -/
  isAbsolute : Bool
  steps : List (List Char)
  /-- Whether the last step is followed by a slash. -/
  endsWithSlash : Bool
  deriving DecidableEq, Repr

namespace Path

/-- The greatest number of bytes in a path. -/
def maxSize : Nat := 4095

/-- The greatest number of bytes in a name. -/
def maxNameSize : Nat := 255

/-- Reads a path. Repeated slashes count as one. -/
def ofString (text : String) : Path where
  isAbsolute := text.toList.head? == some '/'
  steps := (Text.splitWhen (· == '/') text.toList).filter (!·.isEmpty)
  endsWithSlash := text.toList.getLast? == some '/'

/-- Reads a path that is neither empty nor too long; an empty one leads nowhere. -/
def parse (text : String) : Except AccessFault Path :=
  if text.isEmpty then .error .missing
  else if maxSize < text.utf8ByteSize then .error .nameTooLong
  else .ok (ofString text)

/-- Whether a step leads from a directory to that directory or the one above it. -/
def isDots (step : List Char) : Bool := step == ['.'] || step == ['.', '.']

/-- The name in a step, unless it is too long to be one. -/
def nameOf (step : List Char) : Except AccessFault String :=
  let name := String.ofList step
  if maxNameSize < name.utf8ByteSize then .error .nameTooLong else .ok name

end Path

/-- Where steps can lead to. -/
inductive Location where
  /-- The directory with the files. -/
  | here
  /-- A directory above it. -/
  | above
  | file (name : String)
  deriving DecidableEq, Repr

namespace Location

/-- Takes a step, where `isFile` tells the names of the files. -/
def step (isFile : String → Bool) (location : Location) (step : List Char) :
    Except AccessFault Location :=
  match location with
  | file _ => .error .notDirectory
  | location =>
      if step = ['.'] then .ok location
      else if step = ['.', '.'] then .ok above
      else
        match Path.nameOf step with
        | .error fault => .error fault
        | .ok name =>
            if location = here ∧ isFile name then .ok (file name) else .error .missing

/-- Takes steps in order. -/
def walk (isFile : String → Bool) (path : Path) (steps : List (List Char)) :
    Except AccessFault Location :=
  steps.foldlM (step isFile) (if path.isAbsolute then above else here)

/-- Where an existing file or directory lies. A slash at the end is a step that
    stays, so it leads to no file. -/
def find (isFile : String → Bool) (path : Path) : Except AccessFault Location :=
  walk isFile path (if path.endsWithSlash then path.steps ++ [['.']] else path.steps)

/-- The name under which a path creates or replaces a file. The steps before the
    last must lead to the directory with the files, and the last must be a name
    without a slash behind it. -/
def target (isFile : String → Bool) (path : Path) : Except AccessFault String :=
  match path.steps.getLast? with
  | none => .error .isDirectory
  | some last =>
      match walk isFile path path.steps.dropLast with
      | .error fault => .error fault
      | .ok (file _) => .error .notDirectory
      | .ok location =>
          if Path.isDots last || path.endsWithSlash then .error .isDirectory
          else
            match Path.nameOf last with
            | .error fault => .error fault
            | .ok name => if location = here then .ok name else .error .missing

end Location

end Cli

end SymbolRules
