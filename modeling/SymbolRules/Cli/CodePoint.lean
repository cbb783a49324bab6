import SymbolRules.Utf16.Escape

/-!
# Code points on the command line

A code point is given in hexadecimal, either alone or behind one of the usual
marks `U+` and `0x`.
-/

namespace SymbolRules

namespace Cli

/-- A text that is not the numeral of a code point. -/
structure UnreadableCodePoint where
  text : String
  cause : Hex.NumeralFault
  deriving DecidableEq, Repr

/-- The wording without its cause. -/
def UnreadableCodePoint.message (fault : UnreadableCodePoint) : String :=
  "invalid code point `" ++ fault.text ++ "`"

/-- The text behind a mark. -/
def withoutMark : List Char → List Char
  | 'U' :: '+' :: digits => digits
  | 'u' :: '+' :: digits => digits
  | '0' :: 'x' :: digits => digits
  | '0' :: 'X' :: digits => digits
  | digits => digits

/-- Reads a code point. -/
def readCodePoint (text : String) : Except UnreadableCodePoint CodePoint :=
  match Hex.word32 (withoutMark text.toList) with
  | .ok codePoint => .ok codePoint
  | .error cause => .error ⟨text, cause⟩

end Cli

end SymbolRules
