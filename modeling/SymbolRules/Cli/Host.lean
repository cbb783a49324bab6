/-!
# Files and standard streams

What the program needs of its surroundings. Everything that it does is written
over a `Host`, so that it can run on the files of a machine and just as well on
those of a `Directory`, which is a value.
-/

namespace SymbolRules

namespace Cli

/-- Why a file or stream could not be used. -/
inductive AccessFault where
  | missing
  | isDirectory
  | notDirectory
  | nameTooLong
  | notText
  | other (message : String)
  deriving DecidableEq, Repr

/-- The wording of a fault. -/
def AccessFault.message : AccessFault → String
  | missing => "No such file or directory (os error 2)"
  | isDirectory => "Is a directory (os error 21)"
  | notDirectory => "Not a directory (os error 20)"
  | nameTooLong => "File name too long (os error 36)"
  | notText => "stream did not contain valid UTF-8"
  | other message => message

/-- The surroundings of the program. -/
class Host (m : Type → Type) where
  /-- The content of a file. -/
  readFile (path : String) : m (Except AccessFault ByteArray)
  /-- The content of standard input. -/
  readInput : m (Except AccessFault ByteArray)
  /-- Creates a file, or empties it, and writes a text to it. -/
  writeFile (path text : String) : m (Except AccessFault Unit)
  /-- Writes a text to standard output. -/
  print (text : String) : m Unit

/-- The text in UTF-8 that bytes stand for. -/
def decodeText (bytes : ByteArray) : Except AccessFault String :=
  match String.fromUTF8? bytes with
  | some text => .ok text
  | none => .error .notText

end Cli

end SymbolRules
