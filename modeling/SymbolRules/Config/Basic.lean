import SymbolRules.Table.Record

/-!
# Configuration

The tables that decide which rules a record gives: math classes and commands set
for single symbols, commands that are not wanted, math classes that are tokens,
and symbols that no range rule may match.
-/

namespace SymbolRules

/-- Sets the math class of a symbol. -/
structure MathClassOverride where
  codePoint : CodePoint
  mathClass : String
  deriving DecidableEq, Repr

/-- Adds a command to those of a symbol. -/
structure ExtraCommand where
  codePoint : CodePoint
  command : String
  deriving DecidableEq, Repr

/-- The math classes that are tokens: those listed, and those that begin with one
    of the given texts. -/
structure TokenClasses where
  exact : List String := ["A", "NUM", "TEXT"]
  prefixes : List String := ["OP"]
  deriving DecidableEq, Repr

/-- The configuration of a generator. -/
structure Config where
  mathClassOverrides : List MathClassOverride :=
    [⟨0x221E, "NUM"⟩, ⟨0x0024, "TEXT"⟩, ⟨0x2032, "OP"⟩, ⟨0x2033, "OP"⟩, ⟨0x2034, "OP"⟩,
      ⟨0x2035, "OP"⟩, ⟨0x2057, "OP"⟩]
  extraCommands : List ExtraCommand :=
    [⟨0x007B, "\\\x7b"⟩, ⟨0x007D, "\\\x7d"⟩, ⟨0x221E, "\\infinity"⟩, ⟨0x2032, "'"⟩,
      ⟨0x2033, "''"⟩, ⟨0x2034, "'''"⟩, ⟨0x2037, "''''"⟩]
  /-- Commands that are dropped. -/
  rejectedCommands : List String :=
    ["\\hat", "\x7b_\\ast\x7d", "\x7b\x7b/\x7d\\!\\!\x7b/\x7d\x7d"]
  /-- Texts whose commands are dropped, wherever the text stands in them. -/
  rejectedFragments : List String :=
    ["\\fontencoding", "\\ElsevierGlyph", "\\Pisymbol", "\\mbox"]
  tokens : TokenClasses := {}
  /-- Symbols that have a meaning of their own in a lexer pattern. -/
  rangeExclusions : List CodePoint :=
    [0x7B, 0x7D, 0x5E, 0x5F, 0x26, 0x5C, 0x25, 0x24, 0x2E]
  deriving DecidableEq, Repr

namespace Config

/-- Whether a fragment stands anywhere in a text. -/
def occursIn (fragment : List Char) : List Char → Bool
  | [] => fragment.isEmpty
  | c :: rest => fragment.isPrefixOf (c :: rest) || occursIn fragment rest

/-- Whether a command may stand in a rule. It must contain a backslash. -/
def isValidCommand (config : Config) (command : String) : Bool :=
  command.toList.contains '\\' && !config.rejectedCommands.contains command &&
    !config.rejectedFragments.any fun fragment =>
      occursIn fragment.toList command.toList

/-- The math class of a record. The first override of a single symbol wins over the
    table. -/
def effectiveMathClass (config : Config) (record : Record) : String :=
  match record.single? with
  | none => record.mathClass
  | some codePoint =>
      match config.mathClassOverrides.find? (·.codePoint == codePoint) with
      | none => record.mathClass
      | some override => override.mathClass

/-- Whether a math class is a token. -/
def isToken (config : Config) (mathClass : String) : Bool :=
  config.tokens.exact.contains mathClass ||
    config.tokens.prefixes.any fun start => start.toList.isPrefixOf mathClass.toList

/-- The token of a math class, which is the math class itself. -/
def tokenFor? (config : Config) (mathClass : String) : Option String :=
  if config.isToken mathClass then some mathClass else none

/-- The token of a record. -/
def recordToken? (config : Config) (record : Record) : Option String :=
  config.tokenFor? (config.effectiveMathClass record)

/-- Whether no range rule may match a symbol. -/
def isRangeExcluded (config : Config) (codePoint : CodePoint) : Bool :=
  config.rangeExclusions.contains codePoint

/-- The commands added to a record, in the order of the configuration. -/
def extraCommandsOf (config : Config) (record : Record) : List String :=
  match record.single? with
  | none => []
  | some codePoint =>
      (config.extraCommands.filter (·.codePoint == codePoint)).map (·.command)

/-- Adds a command that is not in the list yet. -/
def addNew (commands : List String) (command : String) : List String :=
  if commands.contains command then commands else commands ++ [command]

/-- The commands of a record as they are written in the table: those of its own that
    are valid, then those added that are not among them. -/
def keptCommands (config : Config) (record : Record) : List String :=
  (config.extraCommandsOf record).foldl addNew
    (record.commands.filter config.isValidCommand)

/-- A text with every backslash doubled. -/
def doubleBackslashes (text : List Char) : List Char :=
  text.flatMap fun c => if c = '\\' then ['\\', '\\'] else [c]

/-- The commands of a record as they are written between the quotes of a lexer
    pattern. -/
def commandsFor (config : Config) (record : Record) : List String :=
  (config.keptCommands record).map fun command =>
    String.ofList (doubleBackslashes command.toList)

end Config

end SymbolRules
