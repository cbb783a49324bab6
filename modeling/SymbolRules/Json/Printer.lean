import SymbolRules.Json.Value
import SymbolRules.Json.Text

/-!
# Writing JSON

A value is written on one line without blanks (`Value.compact`), or with one
element or member per line (`Value.pretty`). Lines are indented by two blanks for
each enclosing array or object, and an empty one is a pair of brackets.
-/

namespace SymbolRules

namespace Json

/-- A line break and the indentation of the next line. -/
def newLine (indent : Nat) : List Char := '\n' :: List.replicate indent ' '

/-- Parts between brackets, one per line. -/
def prettyBlock (opener closer : Char) (indent : Nat) (parts : List (List Char)) : List Char :=
  if parts.isEmpty then [opener, closer]
  else
    opener :: newLine (indent + 2) ++
      List.intercalate (',' :: newLine (indent + 2)) parts ++ newLine indent ++ [closer]

namespace Value

mutual

/-- The value on one line. -/
def compact : Value → List Char
  | number n => Nat.toDigits 10 n
  | string s => quote s
  | array items => '[' :: List.intercalate [','] (compactItems items) ++ [']']
  | object members => '{' :: List.intercalate [','] (compactMembers members) ++ ['}']

/-- Each element on one line. -/
def compactItems : List Value → List (List Char)
  | [] => []
  | value :: rest => compact value :: compactItems rest

/-- Each member on one line. -/
def compactMembers : List (String × Value) → List (List Char)
  | [] => []
  | (name, value) :: rest => (quote name ++ ':' :: compact value) :: compactMembers rest

end

mutual

/-- The value on several lines, the first of which is indented already. -/
def pretty (indent : Nat) : Value → List Char
  | number n => Nat.toDigits 10 n
  | string s => quote s
  | array items => prettyBlock '[' ']' indent (prettyItems (indent + 2) items)
  | object members => prettyBlock '{' '}' indent (prettyMembers (indent + 2) members)

/-- Each element on its lines. -/
def prettyItems (indent : Nat) : List Value → List (List Char)
  | [] => []
  | value :: rest => pretty indent value :: prettyItems indent rest

/-- Each member on its lines. -/
def prettyMembers (indent : Nat) : List (String × Value) → List (List Char)
  | [] => []
  | (name, value) :: rest =>
      (quote name ++ ':' :: ' ' :: pretty indent value) :: prettyMembers indent rest

end

end Value

end Json

end SymbolRules
