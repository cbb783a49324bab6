import SymbolRules.Proofs.Generator.Step

/-!
# Commands between quotes

The line of a command rule begins with the command between double quotes, where a backslash
takes the next character as it is. Since the backslashes of a command are doubled, the command
is read back from its line, but only if it has no double quote of its own: the first one ends
the pattern early (`Generator.beginsWithCommand_of_mem_generate`).
-/

namespace SymbolRules

namespace Config

theorem doubleBackslashes_cons_of_ne {c : Char} (plain : c ≠ '\\') (rest : List Char) :
    doubleBackslashes (c :: rest) = c :: doubleBackslashes rest := by
  rw [doubleBackslashes, List.flatMap_cons, if_neg plain]
  rfl

theorem doubleBackslashes_cons_backslash (rest : List Char) :
    doubleBackslashes ('\\' :: rest) = '\\' :: '\\' :: doubleBackslashes rest := rfl

theorem doubleBackslashes_append (front back : List Char) :
    doubleBackslashes (front ++ back) = doubleBackslashes front ++ doubleBackslashes back :=
  List.flatMap_append

theorem mem_foldl_addNew {added commands : List String} {command : String} :
    command ∈ added.foldl addNew commands ↔ command ∈ commands ∨ command ∈ added := by
  induction added generalizing commands with
  | nil => simp
  | cons first added ih =>
      have once : command ∈ addNew commands first ↔ command ∈ commands ∨ command = first := by
        unfold addNew
        split
        · rename_i known
          have isKnown : first ∈ commands := List.contains_iff_mem.1 known
          constructor
          · exact .inl
          · rintro (old | rfl)
            · exact old
            · exact isKnown
        · rw [List.mem_append, List.mem_singleton]
      rw [List.foldl_cons, ih, once, List.mem_cons, or_assoc]

/-- The commands of a record are those of the table that are valid and those added to it. -/
theorem mem_keptCommands {config : Config} {record : Record} {command : String} :
    command ∈ config.keptCommands record ↔
      (command ∈ record.commands ∧ config.isValidCommand command = true) ∨
        command ∈ config.extraCommandsOf record := by
  rw [keptCommands, mem_foldl_addNew, List.mem_filter]

theorem exists_command_of_mem_rulesOf {config : Config} {record : Record}
    {name text token : String} (member : .command name text token ∈ config.rulesOf record) :
    record.escaped = .ok text ∧ config.recordToken? record = some token ∧
      ∃ command ∈ config.keptCommands record,
        name = String.ofList (doubleBackslashes command.toList) := by
  obtain ⟨_, _, written, isToken, ⟨_, named, same⟩ | ⟨-, same⟩⟩ := mem_rulesOf.1 member
  · obtain ⟨rfl, rfl, rfl⟩ := Rule.command.inj same
    obtain ⟨command, isKept, rfl⟩ := List.mem_map.1 named
    exact ⟨written, isToken, command, isKept, rfl⟩
  · cases same

end Config

namespace Rule

open Config (doubleBackslashes)

/-- Reads up to the first double quote that no backslash takes, where a backslash takes the
    next character as it is. Gives the text read and what comes behind the quote. -/
def readToQuote? : List Char → Option (List Char × List Char)
  | [] => none
  | '"' :: behind => some ([], behind)
  | '\\' :: taken :: rest => (readToQuote? rest).map fun read => (taken :: read.1, read.2)
  | c :: rest => (readToQuote? rest).map fun read => (c :: read.1, read.2)

/-- Reads a text between double quotes. -/
def readQuoted? : List Char → Option (List Char × List Char)
  | '"' :: rest => readToQuote? rest
  | _ => none

theorem readToQuote?_cons_of_plain {c : Char} (notQuote : c ≠ '"') (plain : c ≠ '\\')
    (rest : List Char) :
    readToQuote? (c :: rest) = (readToQuote? rest).map fun read => (c :: read.1, read.2) := by
  rw [readToQuote?.eq_def]
  split
  · rename_i isNil
    cases isNil
  · rename_i isQuote
    exact absurd (List.cons.inj isQuote).1 notQuote
  · rename_i isBackslash
    exact absurd (List.cons.inj isBackslash).1 plain
  · rename_i isCons
    obtain ⟨rfl, rfl⟩ := List.cons.inj isCons
    rfl

/-- Doubled backslashes are read back, up to the first double quote. -/
theorem readToQuote?_doubleBackslashes {front : List Char} (noQuote : '"' ∉ front)
    (behind : List Char) :
    readToQuote? (doubleBackslashes front ++ '"' :: behind) = some (front, behind) := by
  induction front with
  | nil => rfl
  | cons c front ih =>
      obtain ⟨notQuote, noMore⟩ := not_or.1 (mt List.mem_cons.2 noQuote)
      have read := ih noMore
      by_cases isBackslash : c = '\\'
      · subst isBackslash
        rw [Config.doubleBackslashes_cons_backslash, List.cons_append, List.cons_append,
          readToQuote?, read]
        rfl
      · rw [Config.doubleBackslashes_cons_of_ne isBackslash, List.cons_append,
          readToQuote?_cons_of_plain (Ne.symm notQuote) isBackslash, read]
        rfl

/-- Whether a line begins with a quoted text that reads as a command, right before an action
    that sets the text of the token. -/
def BeginsWithCommand (line : String) (command : List Char) : Prop :=
  ∃ action, readQuoted? line.toList = some (command, " \x7b yytext = ".toList ++ action)

theorem exists_toList_line_command (name text token : String) :
    ∃ action, (command name text token).line.toList =
      '"' :: (name.toList ++ '"' :: (" \x7b yytext = ".toList ++ action)) := by
  refine ⟨(quoted text ++ "; " ++ returning token ++ " \x7d").toList, ?_⟩
  simp [line, quoted]

/-- A command is read back from its rule exactly if it has no double quote. -/
theorem beginsWithCommand_iff (written : List Char) (text token : String) :
    BeginsWithCommand (command (String.ofList (doubleBackslashes written)) text token).line
      written ↔ '"' ∉ written := by
  obtain ⟨action, isLine⟩ :=
    exists_toList_line_command (String.ofList (doubleBackslashes written)) text token
  rw [String.toList_ofList] at isLine
  unfold BeginsWithCommand
  rw [isLine, readQuoted?]
  constructor
  · rintro ⟨_, read⟩ hasQuote
    -- What is read ends before the first double quote, so it lacks the one in the command.
    obtain ⟨front, back, rfl, noQuote⟩ := List.eq_append_cons_of_mem hasQuote
    rw [Config.doubleBackslashes_append, Config.doubleBackslashes_cons_of_ne (by decide),
      List.append_assoc, List.cons_append, readToQuote?_doubleBackslashes noQuote] at read
    have same := congrArg Prod.fst (Option.some.inj read)
    simp at same
  · intro noQuote
    exact ⟨action, readToQuote?_doubleBackslashes noQuote _⟩

end Rule

namespace Generator

/-- Only the records of a table give command rules. -/
theorem exists_record_of_command_mem_generate {generator : Generator} {policy : Policy}
    {table : String} {rules : List Rule} {name text token : String}
    (generated : generator.generate policy table = .ok rules)
    (isRule : .command name text token ∈ rules) :
    ∃ record ∈ Table.records table, .command name text token ∈ generator.config.rulesOf record := by
  obtain ⟨given, last, fed, rfl⟩ := generate_eq_ok_iff.1 generated
  obtain ⟨rfl, -⟩ := feedEntries_eq_ok fed
  rcases List.mem_append.1 isRule with isImmediate | isRange
  · exact List.mem_flatMap.1 isImmediate
  · obtain ⟨_, -, same⟩ := List.mem_map.1 isRange
    cases same

/-- A command rule is made from a valid command of a record or one added to it, and that command
    is read back from the quotes that its line begins with exactly if it has no double quote. -/
theorem beginsWithCommand_of_mem_generate {generator : Generator} {policy : Policy}
    {table : String} {rules : List Rule} {name text token : String}
    (generated : generator.generate policy table = .ok rules)
    (isRule : .command name text token ∈ rules) :
    ∃ record ∈ Table.records table, ∃ command,
      ((command ∈ record.commands ∧ generator.config.isValidCommand command = true) ∨
        command ∈ generator.config.extraCommandsOf record) ∧
      record.escaped = .ok text ∧ generator.config.recordToken? record = some token ∧
      name = String.ofList (Config.doubleBackslashes command.toList) ∧
      (Rule.BeginsWithCommand (Rule.command name text token).line command.toList ↔
        '"' ∉ command.toList) := by
  obtain ⟨record, isRecord, made⟩ := exists_record_of_command_mem_generate generated isRule
  obtain ⟨written, isToken, command, isKept, rfl⟩ := Config.exists_command_of_mem_rulesOf made
  exact ⟨record, isRecord, command, Config.mem_keptCommands.1 isKept, written, isToken, rfl,
    Rule.beginsWithCommand_iff command.toList text token⟩

theorem beginsWithCommand_of_mem_generate_alpha :
    let generator : Generator := {}
    let table := "U003B1 A \\alpha"
    let rules : List Rule := [.command "\\\\alpha" "\\u03B1" "A", .range "\\u03B1" "A"]
    generator.generate .abort table = .ok rules ∧
      .command "\\\\alpha" "\\u03B1" "A" ∈ rules ∧
      ∃ record ∈ Table.records table, ∃ command,
        ((command ∈ record.commands ∧ generator.config.isValidCommand command = true) ∨
          command ∈ generator.config.extraCommandsOf record) ∧
        record.escaped = .ok "\\u03B1" ∧ generator.config.recordToken? record = some "A" ∧
        "\\\\alpha" = String.ofList (Config.doubleBackslashes command.toList) ∧
        (Rule.BeginsWithCommand (Rule.command "\\\\alpha" "\\u03B1" "A").line command.toList ↔
          '"' ∉ command.toList) := by
  intro generator table rules
  have generated : generator.generate .abort table = .ok rules := by
    decide +kernel
  have isRule : .command "\\\\alpha" "\\u03B1" "A" ∈ rules := List.mem_cons_self ..
  exact ⟨generated, isRule, beginsWithCommand_of_mem_generate generated isRule⟩

/-- The command for an accent has a double quote: its rule matches only the backslash
    before the quote. -/
theorem not_beginsWithCommand_accent :
    let record : Record := ⟨1, [0xE4], "A", ["\\\"\x7ba\x7d"]⟩
    let rule : Rule := .command "\\\\\"\x7ba\x7d" "\\u00E4" "A"
    let table := "U000E4 A \\\"\x7ba\x7d"
    ({} : Generator).generate .abort table = .ok [rule, .range "\\u00E4" "A"] ∧
      Table.records table = [record] ∧
      Config.keptCommands {} record = ["\\\"\x7ba\x7d"] ∧
      Rule.readQuoted? rule.line.toList =
        some (['\\'], "\x7ba\x7d\" \x7b yytext = \"\\u00E4\"; return \"A\"; \x7d".toList) ∧
      ¬ Rule.BeginsWithCommand rule.line "\\\"\x7ba\x7d".toList := by
  intro record rule table
  have generated : ({} : Generator).generate .abort table = .ok [rule, .range "\\u00E4" "A"] := by
    decide +kernel
  have records : Table.records table = [record] := by decide +kernel
  have kept : Config.keptCommands {} record = ["\\\"\x7ba\x7d"] := by decide +kernel
  have read : Rule.readQuoted? rule.line.toList =
      some (['\\'], "\x7ba\x7d\" \x7b yytext = \"\\u00E4\"; return \"A\"; \x7d".toList) := by
    decide +kernel
  refine ⟨generated, records, kept, read, ?_⟩
  rintro ⟨action, whole⟩
  rw [read] at whole
  have same : ['\\'] = "\\\"\x7ba\x7d".toList := congrArg Prod.fst (Option.some.inj whole)
  exact absurd same (by decide +kernel)

end Generator

end SymbolRules
