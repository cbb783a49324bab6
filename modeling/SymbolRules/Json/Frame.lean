import SymbolRules.Json.Shape
import SymbolRules.Json.Value
import SymbolRules.Json.Numeral
import SymbolRules.Json.Text

/-!
# Unfinished JSON values

While a text is read, a stack holds the lists and records that have begun and not
yet ended. Each frame of the stack tells what may follow a comma in it and which
bracket ends it, and gives its value there.
-/

namespace SymbolRules

namespace Json

/-- A list or record whose end has not been reached yet. No shape is given for
    what is skipped. -/
inductive Frame where
  /-- The elements of a list, latest first. -/
  | list (element : Option Shape) (items : List Value)
  /-- A record written as an array: the members to come and those read, latest
      first. -/
  | tuple (pending : List (Member Shape)) (read : List (String × Value))
  /-- A record written as an object: its members, those read, latest first, and
      the one whose value is being read, unless that one is skipped. -/
  | object (members : List (Member Shape)) (read : List (String × Value))
      (current : Option String)
  /-- An object that is skipped. -/
  | skipped

/-- What may come next. -/
inductive Phase where
  /-- A value. -/
  | value (shape : Option Shape)
  /-- The first element of an array, or its end. -/
  | first
  /-- What follows a value inside a list or record. -/
  | after
  /-- The first name of an object, or its end. -/
  | firstName
  /-- A further name of an object. -/
  | nextName
  /-- The rest of a name. -/
  | name (scan : TextScan)
  /-- The colon between a name and its value. -/
  | colon (shape : Option Shape)
  /-- The rest of a string. -/
  | string (shape : Option Shape) (scan : TextScan)
  /-- The rest of a number. -/
  | number (shape : Option Shape) (scan : NumeralScan)
  /-- The rest of `null`, `true` or `false`. -/
  | word (shape : Option Shape) (rest : List Char)

namespace Frame

/-- Whether the frame has a member of this name already. -/
def hasRead (read : List (String × Value)) (name : String) : Bool :=
  read.any (·.1 == name)

/-- Puts a value that has been read into its place. -/
def put (value : Value) : Frame → Frame
  | list element items => list element (value :: items)
  | tuple (member :: pending) read => tuple pending ((member.name, value) :: read)
  | tuple [] read => tuple [] read
  | object members read (some name) => object members ((name, value) :: read) none
  | object members read none => object members read none
  | skipped => skipped

/-- The bracket that ends the frame. -/
def closer : Frame → Char
  | list .. | tuple .. => ']'
  | object .. | skipped => '}'

/-- The value of a frame at its closing bracket, unless it is skipped. All
    required members must have been read. -/
def close : Frame → Except Fault (Option Value)
  | list (some _) items => .ok (some (.array items.reverse))
  | list none _ => .ok none
  | tuple pending read =>
      if pending.any (·.required) then .error .mismatch
      else .ok (some (.object read.reverse))
  | object members read _ =>
      if members.any (fun member => member.required && !hasRead read member.name) then
        .error .mismatch
      else .ok (some (.object read.reverse))
  | skipped => .ok none

/-- What must follow a comma: a further element or a further name. An array of
    members has no more elements than there are members. -/
def next : Frame → Except Fault Phase
  | list element _ => .ok (.value element)
  | tuple (member :: _) _ => .ok (.value (some member.shape))
  | tuple [] _ => .error .malformed
  | object .. | skipped => .ok .nextName

end Frame

end Json

end SymbolRules
