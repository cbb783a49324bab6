import Mathlib.Data.List.Infix
import Mathlib.Data.List.Nodup
import SymbolRules.Proofs.Generator.Quotes
import SymbolRules.Proofs.Table.Grammar

/-!
# The commands of a record

The commands of a record are those of the table that the configuration admits, and behind them,
for a single symbol, those that the configuration adds and that are not among them. Since the
backslashes can be halved again in one way only, doubling them hides no difference: the commands
written for a record are the chosen ones, and no two of them agree
(`Config.commandsFor_faithful`).
-/

namespace SymbolRules

namespace Config

section Admitted

theorem occursIn_iff {fragment text : List Char} :
    occursIn fragment text = true ↔ fragment <:+: text := by
  induction text with
  | nil => rw [occursIn, List.isEmpty_iff, List.infix_nil]
  | cons c rest ih =>
      rw [occursIn, Bool.or_eq_true, ih, List.infix_cons_iff, List.isPrefixOf_iff_prefix]

/-- What a command of the table must be like to be written. -/
structure Admits (config : Config) (command : String) : Prop where
  hasBackslash : '\\' ∈ command.toList
  notRejected : command ∉ config.rejectedCommands
  noFragment : ∀ fragment ∈ config.rejectedFragments, ¬ fragment.toList <:+: command.toList

theorem isValidCommand_iff {config : Config} {command : String} :
    config.isValidCommand command = true ↔ config.Admits command := by
  have fragments : (config.rejectedFragments.any fun fragment =>
      occursIn fragment.toList command.toList) = false ↔
        ∀ fragment ∈ config.rejectedFragments, ¬ fragment.toList <:+: command.toList := by
    simp only [List.any_eq_false, occursIn_iff]
  have commands : config.rejectedCommands.contains command = false ↔
      command ∉ config.rejectedCommands := by
    rw [← List.contains_iff_mem, Bool.not_eq_true]
  rw [isValidCommand, Bool.and_eq_true, Bool.and_eq_true, List.contains_iff_mem,
    Bool.not_eq_true', Bool.not_eq_true', fragments, commands]
  constructor
  · rintro ⟨⟨hasBackslash, notRejected⟩, noFragment⟩
    exact ⟨hasBackslash, notRejected, noFragment⟩
  · intro admitted
    exact ⟨⟨admitted.hasBackslash, admitted.notRejected⟩, admitted.noFragment⟩

instance (config : Config) (command : String) : Decidable (config.Admits command) :=
  decidable_of_iff _ isValidCommand_iff

end Admitted

section Chosen

/-- The commands of the table that are admitted, in the order of the table. -/
def admittedOf (config : Config) (record : Record) : List String :=
  record.commands.filter fun command => config.Admits command

/-- The commands that are added to those admitted: the ones set for the symbol, each where it is
    set first. A record of several code points gets none. -/
def addedTo (config : Config) (record : Record) : List String :=
  match record.codePoints with
  | [codePoint] =>
      let extras := config.extraCommands.filter fun extra => extra.codePoint = codePoint
      (extras.map (·.command)).eraseDups.filter fun command =>
        command ∉ config.admittedOf record
  | _ => []

/-- The commands that stand for a record. -/
def chosenCommands (config : Config) (record : Record) : List String :=
  config.admittedOf record ++ config.addedTo record

/-- Adding commands one at a time adds those that are not there yet, each at its first use. -/
theorem foldl_addNew_eq (commands added : List String) :
    added.foldl addNew commands =
      commands ++ added.eraseDups.filter fun command => command ∉ commands := by
  induction added using List.reverseRecOn with
  | nil => simp
  | append_singleton added command ih =>
      rw [List.foldl_append, List.foldl_cons, List.foldl_nil, addNew]
      simp only [List.contains_iff_mem, mem_foldl_addNew]
      by_cases used : command ∈ added
      · rw [if_pos (.inr used), Keyed.eraseDups_concat_of_mem used, ih]
      · rw [Keyed.eraseDups_concat_of_notMem used, List.filter_append, ← List.append_assoc, ← ih]
        by_cases known : command ∈ commands <;> simp [known, used]

theorem keptCommands_eq_chosenCommands (config : Config) (record : Record) :
    config.keptCommands record = config.chosenCommands record := by
  have admitted : record.commands.filter config.isValidCommand = config.admittedOf record := by
    apply List.filter_congr
    intro command _
    rw [Bool.eq_iff_iff, isValidCommand_iff, decide_eq_true_iff]
  rw [keptCommands, foldl_addNew_eq, admitted, chosenCommands, extraCommandsOf, Record.single?,
    addedTo]
  rcases record.codePoints with _ | ⟨_, _ | _⟩ <;> rfl

theorem nodup_chosenCommands {config : Config} {record : Record}
    (distinct : record.commands.Nodup) : (config.chosenCommands record).Nodup := by
  rw [chosenCommands, List.nodup_append]
  refine ⟨distinct.filter _, ?_, ?_⟩
  · unfold addedTo
    split
    · exact (Keyed.nodup_eraseDups _).filter _
    · exact List.nodup_nil
  · rintro command isAdmitted _ isAdded rfl
    unfold addedTo at isAdded
    split at isAdded
    · exact of_decide_eq_true (List.mem_filter.1 isAdded).2 isAdmitted
    · exact List.not_mem_nil isAdded

end Chosen

section Halved

/-- Reads each pair of backslashes as one. A backslash that stands alone cannot be read. -/
def halveBackslashes? : List Char → Option (List Char)
  | [] => some []
  | '\\' :: '\\' :: rest => (halveBackslashes? rest).map ('\\' :: ·)
  | '\\' :: _ => none
  | c :: rest => (halveBackslashes? rest).map (c :: ·)

theorem halveBackslashes?_cons_of_ne {c : Char} (plain : c ≠ '\\') (rest : List Char) :
    halveBackslashes? (c :: rest) = (halveBackslashes? rest).map (c :: ·) := by
  rw [halveBackslashes?.eq_def]
  split
  · rename_i isNil
    cases isNil
  · rename_i isPair
    exact absurd (List.cons.inj isPair).1 plain
  · rename_i isBackslash
    exact absurd (List.cons.inj isBackslash).1 plain
  · rename_i isCons
    obtain ⟨rfl, rfl⟩ := List.cons.inj isCons
    rfl

theorem halveBackslashes?_doubleBackslashes (command : List Char) :
    halveBackslashes? (doubleBackslashes command) = some command := by
  induction command with
  | nil => rfl
  | cons c rest ih =>
      by_cases isBackslash : c = '\\'
      · subst isBackslash
        rw [doubleBackslashes_cons_backslash, halveBackslashes?, ih]
        rfl
      · rw [doubleBackslashes_cons_of_ne isBackslash, halveBackslashes?_cons_of_ne isBackslash, ih]
        rfl

theorem doubleBackslashes_of_halveBackslashes? {text command : List Char}
    (halved : halveBackslashes? text = some command) : doubleBackslashes command = text := by
  induction text using halveBackslashes?.induct generalizing command with
  | case1 =>
      obtain rfl := Option.some.inj halved
      rfl
  | case2 rest ih =>
      rw [halveBackslashes?] at halved
      obtain ⟨read, isRead, rfl⟩ := Option.map_eq_some_iff.1 halved
      rw [doubleBackslashes_cons_backslash, ih isRead]
  | case3 rest unpaired =>
      rw [halveBackslashes?] at halved
      · cases halved
      · exact unpaired
  | case4 c rest unpaired plain ih =>
      rw [halveBackslashes?_cons_of_ne plain] at halved
      obtain ⟨read, isRead, rfl⟩ := Option.map_eq_some_iff.1 halved
      rw [doubleBackslashes_cons_of_ne plain, ih isRead]

/-- A text is read as a command exactly if it is that command with its backslashes doubled. -/
theorem halveBackslashes?_eq_some_iff {text command : List Char} :
    halveBackslashes? text = some command ↔ text = doubleBackslashes command := by
  constructor
  · intro halved
    exact (doubleBackslashes_of_halveBackslashes? halved).symm
  · rintro rfl
    exact halveBackslashes?_doubleBackslashes command

theorem doubleBackslashes_injective : Function.Injective doubleBackslashes := by
  intro command other same
  have halved := halveBackslashes?_eq_some_iff.2 same
  rw [halveBackslashes?_doubleBackslashes] at halved
  exact Option.some.inj halved

end Halved

/-- A command as it is written between the quotes of a lexer pattern. -/
def written (command : String) : String := String.ofList (doubleBackslashes command.toList)

theorem written_injective : Function.Injective written := by
  intro command other same
  exact String.toList_injective
    (doubleBackslashes_injective (String.ofList_injective same))

theorem commandsFor_eq (config : Config) (record : Record) :
    config.commandsFor record = (config.chosenCommands record).map written := by
  rw [← keptCommands_eq_chosenCommands]
  rfl

theorem nodup_commandsFor {config : Config} {record : Record}
    (distinct : record.commands.Nodup) : (config.commandsFor record).Nodup := by
  rw [commandsFor_eq]
  exact (nodup_chosenCommands distinct).map written_injective

/-- The rules of a record are distinct if its commands are. -/
theorem nodup_rulesOf {config : Config} {record : Record} (distinct : record.commands.Nodup) :
    (config.rulesOf record).Nodup := by
  unfold rulesOf
  split
  · rename_i text token _ _
    have commands : ((config.commandsFor record).map (Rule.command · text token)).Nodup := by
      refine (nodup_commandsFor distinct).map fun name other same => ?_
      exact (Rule.command.inj same).1
    split
    · rwa [List.append_nil]
    · rw [List.nodup_append]
      refine ⟨commands, List.nodup_singleton _, ?_⟩
      rintro _ isCommand _ isLiteral rfl
      obtain ⟨_, -, rfl⟩ := List.mem_map.1 isCommand
      cases List.mem_singleton.1 isLiteral
  · exact List.nodup_nil

/-- What is written for a record are its chosen commands, and nothing is written twice. -/
structure WritesChosen (config : Config) (record : Record) : Prop where
  halved : (config.commandsFor record).mapM (fun name => halveBackslashes? name.toList) =
    some ((config.chosenCommands record).map String.toList)
  unique : ∀ commands : List String, commands.map written = config.commandsFor record →
    commands = config.chosenCommands record
  distinct : (config.commandsFor record).Nodup
  distinctRules : ∀ (generator : Generator) (rules : List Rule), generator.config = config →
    (generator.update record).1 = .ok rules → rules.Nodup

theorem writesChosen {config : Config} {record : Record} (distinct : record.commands.Nodup) :
    config.WritesChosen record where
  halved := by
    rw [commandsFor_eq]
    induction config.chosenCommands record with
    | nil => rfl
    | cons command commands ih =>
        rw [List.map_cons, List.mapM_cons, ih, written, String.toList_ofList,
          halveBackslashes?_doubleBackslashes]
        rfl
  unique := by
    intro commands same
    rw [commandsFor_eq] at same
    exact written_injective.list_map same
  distinct := nodup_commandsFor distinct
  distinctRules := by
    rintro generator rules rfl updated
    cases isWritten : record.escaped with
    | ok text =>
        rw [Generator.update_of_escaped generator isWritten] at updated
        obtain rfl := Except.ok.inj updated
        exact nodup_rulesOf distinct
    | error fault =>
        rw [Generator.update_of_not_escaped generator isWritten] at updated
        cases updated

/-- A record that is read has no command twice, and for such a record the commands written are
    those of the table that are admitted and behind them those added for its symbol. Halving the
    backslashes gives them back, and nothing else is written the same. -/
theorem commandsFor_faithful (config : Config) :
    (∀ line text record, Record.parse line text = .ok (some record) → record.commands.Nodup) ∧
    (∀ text command, halveBackslashes? text = some command ↔ text = doubleBackslashes command) ∧
    ∀ record : Record, record.commands.Nodup → config.WritesChosen record :=
  ⟨fun _ _ _ read => (Record.isProper_of_parse read).distinct,
    fun _ _ => halveBackslashes?_eq_some_iff, fun _ => writesChosen⟩

/-- A rejected command of the table comes back if it is added, and a command that is added twice
    or stands in the table is written once. -/
theorem commandsFor_faithful_rejected :
    let config : Config :=
      { rejectedCommands := ["\\a"]
        extraCommands := [⟨0x41, "\\a"⟩, ⟨0x42, "\\d"⟩, ⟨0x41, "\\b"⟩, ⟨0x41, "\\a"⟩] }
    let record : Record := ⟨1, [0x41], "A", ["\\a", "\\b", "c"]⟩
    Record.parse 1 "U00041 A \\a \\b \\a c" = .ok (some record) ∧ record.commands.Nodup ∧
      config.chosenCommands record = ["\\b", "\\a"] ∧
      config.commandsFor record = ["\\\\b", "\\\\a"] ∧ config.WritesChosen record := by
  intro config record
  have read : Record.parse 1 "U00041 A \\a \\b \\a c" = .ok (some record) := by decide +kernel
  have distinct : record.commands.Nodup := (commandsFor_faithful config).1 _ _ _ read
  refine ⟨read, distinct, ?_, ?_, (commandsFor_faithful config).2.2 record distinct⟩
  · decide +kernel
  · decide +kernel

end Config

end SymbolRules
