import SymbolRules.Text.Split

/-!
# Lines and fields

A table is cut into lines at line feeds, and a line into fields at blanks. Blanks
are the characters with the Unicode property `White_Space`, so a carriage return
at the end of a line is one of them.
-/

namespace SymbolRules

/-- The characters with the Unicode property `White_Space`. -/
def isBlank (c : Char) : Bool :=
  let n := c.toNat
  (0x09 ≤ n && n ≤ 0x0D) || n == 0x20 || n == 0x85 || n == 0xA0 || n == 0x1680 ||
    (0x2000 ≤ n && n ≤ 0x200A) || n == 0x2028 || n == 0x2029 || n == 0x202F ||
    n == 0x205F || n == 0x3000

namespace Table

/-- The lines of a text. -/
def lines (text : List Char) : List (List Char) := Text.splitWhen (· == '\n') text

/-- The fields of a line: its longest runs of characters that are not blank. -/
def fields (line : List Char) : List (List Char) :=
  (Text.splitWhen isBlank line).filter (!·.isEmpty)

end Table

end SymbolRules
