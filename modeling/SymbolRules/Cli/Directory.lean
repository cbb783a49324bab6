import SymbolRules.Cli.Path

/-!
# A directory of files

The files of one directory that has no directories in it, with the standard streams
of a program that runs in it.
-/

namespace SymbolRules

namespace Cli

/-- Files by name, with standard input and what has been written to standard
    output. -/
structure Directory where
  files : List (String × ByteArray) := []
  input : ByteArray := ByteArray.empty
  output : String := ""

namespace Directory

/-- The content of the file of a name. -/
def find? (directory : Directory) (name : String) : Option ByteArray :=
  directory.files.lookup name

/-- Replaces the content of a file, or adds the file behind all others. -/
def putFile (name : String) (content : ByteArray) :
    List (String × ByteArray) → List (String × ByteArray)
  | [] => [(name, content)]
  | file :: rest =>
      if file.1 = name then (name, content) :: rest
      else file :: putFile name content rest

/-- Whether there is a file of a name. -/
def hasFile (directory : Directory) (name : String) : Bool := (directory.find? name).isSome

/-- The content of the file that a path leads to. -/
def read (directory : Directory) (path : String) : Except AccessFault ByteArray :=
  match (Path.parse path).bind (Location.find directory.hasFile) with
  | .error fault => .error fault
  | .ok (.file name) =>
      match directory.find? name with
      | some content => .ok content
      | none => .error .missing
  | .ok _ => .error .isDirectory

/-- Writes a text to the file that a path leads to, and creates the file if there is
    none. -/
def write (directory : Directory) (path text : String) : Except AccessFault Unit × Directory :=
  match (Path.parse path).bind (Location.target directory.hasFile) with
  | .error fault => (.error fault, directory)
  | .ok name =>
      (.ok (), { directory with files := putFile name text.toUTF8 directory.files })

instance : Host (StateM Directory) where
  readFile path := do return (← get).read path
  readInput := do return .ok (← get).input
  writeFile path text := fun directory => directory.write path text
  print text := modify fun directory => { directory with output := directory.output ++ text }

end Directory

end Cli

end SymbolRules
