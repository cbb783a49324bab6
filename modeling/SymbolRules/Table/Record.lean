import SymbolRules.Hex
import SymbolRules.Utf16.Escape
import SymbolRules.Table.Fields

/-!
# Records of a character table

A line of the table describes one symbol: an identifier with its code points, a
math class, and the commands that stand for the symbol. Blank lines describe
nothing. The identifier is one character of any kind and then the code points in
hexadecimal, joined by hyphens. Whether a code point is a scalar value is not
checked before the symbol is written (`Record.escaped`).
-/

namespace SymbolRules

/-- One symbol of the table. -/
structure Record where
  /-- The number of its line, counted from one. -/
  line : Nat
  codePoints : List CodePoint
  mathClass : String
  /-- The commands in the order of the table. -/
  commands : List String
  deriving DecidableEq, Repr

/-- What is wrong with a line. -/
inductive RecordFault where
  | missingMathClass
  | missingCodePoint (id : String)
  | invalidCodePoint (part : String) (id : String)
  deriving DecidableEq, Repr

/-- The wording of a fault. -/
def RecordFault.message : RecordFault → String
  | missingMathClass => "missing mathclass field"
  | missingCodePoint id => "missing code point in `" ++ id ++ "`"
  | invalidCodePoint part id => "invalid code point `" ++ part ++ "` in `" ++ id ++ "`"

/-- A line that is not a record. -/
structure Malformed where
  line : Nat
  fault : RecordFault
  deriving DecidableEq, Repr

/-- The text that goes in front of what is said about a line. -/
def linePosition (line : Nat) : String := "line " ++ toString line ++ ": "

/-- The wording of a malformed line. -/
def Malformed.message (malformed : Malformed) : String :=
  linePosition malformed.line ++ malformed.fault.message

namespace Record

/-- Reads the code point in one part of an identifier. -/
def codePoint (id part : List Char) : Except RecordFault CodePoint :=
  match Hex.word32 part with
  | .ok codePoint => .ok codePoint
  | .error _ => .error (.invalidCodePoint (String.ofList part) (String.ofList id))

/-- Reads the code points of an identifier, which follow its first character. -/
def codePointsOf (id : List Char) : Except RecordFault (List CodePoint) :=
  match id.tail with
  | [] => .error (.missingCodePoint (String.ofList id))
  | digits => (Text.splitWhen (· == '-') digits).mapM (codePoint id)

/-- Reads a record from its fields; there is none if there are no fields. A missing
    math class is reported before the code points are looked at. -/
def ofFields (line : Nat) : List (List Char) → Except Malformed (Option Record)
  | [] => .ok none
  | [_] => .error ⟨line, .missingMathClass⟩
  | id :: mathClass :: commands =>
      match codePointsOf id with
      | .error fault => .error ⟨line, fault⟩
      | .ok codePoints =>
          .ok (some
            { line
              codePoints
              mathClass := String.ofList mathClass
              commands := (commands.map String.ofList).eraseDups })

/-- Reads the record on a line. -/
def ofLine (line : Nat) (text : List Char) : Except Malformed (Option Record) :=
  ofFields line (Table.fields text)

/-- Reads a record from the text of its line; a blank text holds none. -/
def parse (line : Nat) (text : String) : Except Malformed (Option Record) :=
  ofLine line text.toList

/-- The code point of a record that has only one. -/
def single? (record : Record) : Option CodePoint :=
  match record.codePoints with
  | [codePoint] => some codePoint
  | _ => none

/-- Whether the record has one code point only. -/
def isSingle (record : Record) : Bool := record.single?.isSome

/-- Encodes all code points, and fails on the first that is not a scalar value. -/
def pairs (record : Record) : Except InvalidCodePoint (List Pair) :=
  record.codePoints.mapM fun codePoint => Pair.encode codePoint.toNat

/-- The escaped code units of all code points. -/
def escaped (record : Record) : Except InvalidCodePoint String :=
  record.pairs.map fun pairs => String.ofList (pairs.flatMap Escape.pair)

end Record

namespace Table

/-- What a line contributes to a table: nothing if it is blank. -/
def entry? (line : Nat) (text : List Char) : Option (Except Malformed Record) :=
  match Record.ofLine line text with
  | .ok none => none
  | .ok (some record) => some (.ok record)
  | .error malformed => some (.error malformed)

/-- The records and malformed lines of a list of lines, the first of which has the
    given number. -/
def entriesFrom (first : Nat) (texts : List (List Char)) : List (Except Malformed Record) :=
  (texts.zipIdx first).filterMap fun (text, line) => entry? line text

/-- The records and malformed lines of a table in order. Lines are counted from
    one, and blank lines count. -/
def entries (table : String) : List (Except Malformed Record) :=
  entriesFrom 1 (lines table.toList)

end Table

end SymbolRules
