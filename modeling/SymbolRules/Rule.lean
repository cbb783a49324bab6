import SymbolRules.CharClass.Compressor
import SymbolRules.Json.Value

/-!
# Lexer rules

A rule is one line of a lexer grammar: a pattern and the token that it returns. A
command rule also sets the text of the token to the symbol that the command stands
for.
-/

namespace SymbolRules

/-- One line of the grammar. -/
inductive Rule where
  /-- Matches a command and sets the text to the escaped symbol. -/
  | command (name : String) (text : String) (token : String)
  /-- Matches a symbol of several code points, given in escaped form. -/
  | literal (text : String) (token : String)
  /-- Matches any single symbol of a pattern. -/
  | range (pattern : String) (token : String)
  deriving DecidableEq, Repr

namespace Rule

/-- The token that the rule returns. -/
def token : Rule → String
  | command _ _ token => token
  | literal _ token => token
  | range _ token => token

/-- A text between double quotes, as it is. -/
def quoted (text : String) : String := "\"" ++ text ++ "\""

/-- The action that returns a token. -/
def returning (token : String) : String := "return " ++ quoted token ++ ";"

/-- The line of the rule. -/
def line : Rule → String
  | command name text token =>
      quoted name ++ " \x7b yytext = " ++ quoted text ++ "; " ++ returning token ++ " \x7d"
  | literal text token => quoted text ++ " " ++ returning token
  | range pattern token => pattern ++ " " ++ returning token

/-- The grammar made of the given rules: a line for each, ended by a line feed. -/
def render (rules : List Rule) : String :=
  String.join (rules.map fun rule => rule.line ++ "\n")

end Rule

/-- The symbols of a token, as a pattern and as groups of intervals. -/
structure TokenRanges where
  token : String
  pattern : String
  groups : List Group
  deriving DecidableEq, Repr

open Json (Value)

/-- The stored form of an interval. -/
def Interval.toValue (interval : Interval) : Value :=
  .object [("start", .number interval.start.toNat), ("end", .number interval.stop.toNat)]

/-- The stored form of a group. -/
def Group.toValue (group : Group) : Value :=
  .object [("high", .number group.high.toNat),
    ("ranges", .array (group.intervals.map (·.toValue)))]

/-- The stored form of the symbols of a token. -/
def TokenRanges.toValue (ranges : TokenRanges) : Value :=
  .object [("token", .string ranges.token), ("pattern", .string ranges.pattern),
    ("groups", .array (ranges.groups.map (·.toValue)))]

end SymbolRules
