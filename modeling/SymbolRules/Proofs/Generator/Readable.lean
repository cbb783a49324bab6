import SymbolRules.Proofs.Generator.Quotes
import SymbolRules.Proofs.Generator.RangeRules
import SymbolRules.Proofs.Rule.Reading
import SymbolRules.Proofs.Table.Fields

/-!
# The rules of a table can be read back

Commands and math classes are fields of a table, which have no blanks, unless the configuration
adds them; symbols and patterns are written with few characters. So if the configuration adds no
blanks, then the rendered rules of a table are read back, and no other rules look the same
(`Generator.readGrammar?_render_generate`).
-/

namespace SymbolRules

/-- The math class and the commands of a record have no blanks. -/
structure Record.HasNoBlanks (record : Record) : Prop where
  mathClass : IsUnbroken record.mathClass
  commands : ∀ command ∈ record.commands, IsUnbroken command

/-- The commands and the math classes that a configuration adds have no blanks. -/
structure Config.AddsNoBlanks (config : Config) : Prop where
  commands : ∀ extra ∈ config.extraCommands, IsUnbroken extra.command
  mathClasses : ∀ override ∈ config.mathClassOverrides, IsUnbroken override.mathClass

namespace Record

theorem hasNoBlanks_of_ofFields {line : Nat} {fields : List (List Char)} {record : Record}
    (whole : ∀ field ∈ fields, ∀ c ∈ field, isBlank c = false)
    (read : ofFields line fields = .ok (some record)) : record.HasNoBlanks := by
  have unbroken : ∀ field ∈ fields, IsUnbroken (String.ofList field) := by
    intro field isField
    simpa [IsUnbroken] using whole field isField
  obtain ⟨id, mathClass, commands, rfl, -, -, isMathClass, isCommands⟩ := exists_of_ofFields read
  refine ⟨isMathClass ▸ unbroken mathClass (by simp), ?_⟩
  intro command member
  rw [isCommands, List.mem_eraseDups] at member
  obtain ⟨field, isField, rfl⟩ := List.mem_map.1 member
  exact unbroken field (by simp [isField])

theorem hasNoBlanks_of_mem_records {table : String} {record : Record}
    (member : record ∈ Table.records table) : record.HasNoBlanks := by
  obtain ⟨number, line, read⟩ := Table.exists_ofLine_of_mem_records member
  exact hasNoBlanks_of_ofFields (fun _ isField => (Table.isSolid_of_mem_fields isField).2) read

theorem isUnbroken_of_escaped {record : Record} {text : String}
    (written : record.escaped = .ok text) : IsUnbroken text := by
  have plain : IsUnbroken (String.ofList Escape.alphabet) := by decide
  obtain ⟨pairs, -, rfl⟩ := map_eq_ok_iff.1 written
  intro c member
  rw [String.toList_ofList, List.mem_flatMap] at member
  obtain ⟨pair, -, inPair⟩ := member
  apply plain
  rw [String.toList_ofList]
  exact Escape.mem_alphabet_of_mem_pair inPair

end Record

namespace Config

theorem addsNoBlanks_default : AddsNoBlanks {} := ⟨by decide, by decide⟩

theorem isUnbroken_of_mem_keptCommands {config : Config} {record : Record} {command : String}
    (adds : config.AddsNoBlanks) (has : record.HasNoBlanks)
    (member : command ∈ config.keptCommands record) : IsUnbroken command := by
  rcases mem_keptCommands.1 member with ⟨isOwn, -⟩ | isExtra
  · exact has.commands command isOwn
  · unfold extraCommandsOf at isExtra
    split at isExtra
    · cases isExtra
    · obtain ⟨extra, isListed, rfl⟩ := List.mem_map.1 isExtra
      exact adds.commands extra (List.mem_of_mem_filter isListed)

theorem isUnbroken_doubleBackslashes {text : String} (unbroken : IsUnbroken text) :
    IsUnbroken (String.ofList (doubleBackslashes text.toList)) := by
  intro c member
  rw [String.toList_ofList, doubleBackslashes, List.mem_flatMap] at member
  obtain ⟨d, inText, isPart⟩ := member
  have notBlank := unbroken d inText
  split at isPart
  · simp_all
  · simp_all

theorem isUnbroken_of_recordToken? {config : Config} {record : Record} {token : String}
    (adds : config.AddsNoBlanks) (has : record.HasNoBlanks)
    (isToken : config.recordToken? record = some token) : IsUnbroken token := by
  obtain ⟨rfl, -⟩ := recordToken?_eq_some_iff.1 isToken
  unfold effectiveMathClass
  split
  · exact has.mathClass
  · split
    · exact has.mathClass
    · rename_i override found
      exact adds.mathClasses override (List.mem_of_find?_eq_some found)

theorem isReadable_of_mem_rulesOf {config : Config} {record : Record} {rule : Rule}
    (adds : config.AddsNoBlanks) (has : record.HasNoBlanks)
    (member : rule ∈ config.rulesOf record) : rule.IsReadable := by
  obtain ⟨text, token, written, isToken, made⟩ := mem_rulesOf.1 member
  have isText := Record.isUnbroken_of_escaped written
  have isName := isUnbroken_of_recordToken? adds has isToken
  rcases made with ⟨name, named, rfl⟩ | ⟨-, rfl⟩
  · obtain ⟨command, isKept, rfl⟩ := List.mem_map.1 named
    have isCommand := isUnbroken_of_mem_keptCommands adds has isKept
    exact ⟨isUnbroken_doubleBackslashes isCommand, isText, isName⟩
  · exact ⟨isText, isName⟩

/-- A pattern has neither blanks nor quotes, whatever it matches. -/
theorem isReadable_of_mem_rangeRules {config : Config} {table : String} {rule : Rule}
    (adds : config.AddsNoBlanks) (member : rule ∈ config.rangeRules table) : rule.IsReadable := by
  have plain : IsUnbroken (String.ofList ('|' :: Group.alphabet)) := by decide
  have noQuote : '"' ∉ '|' :: Group.alphabet := by decide
  have inAlphabet : ∀ (compressor : Compressor) (c : Char), c ∈ compressor.pattern.toList →
      c ∈ '|' :: Group.alphabet := by
    intro compressor c inPattern
    rw [Compressor.pattern, String.toList_ofList] at inPattern
    exact Pattern.mem_alphabet_of_mem_patternChars inPattern
  obtain ⟨token, isUsed, rfl⟩ := List.mem_map.1 member
  rw [List.mem_eraseDups] at isUsed
  obtain ⟨⟨token, symbol⟩, collected, rfl⟩ := List.mem_map.1 isUsed
  obtain ⟨record, isRecord, isSymbol⟩ := List.mem_filterMap.1 collected
  have isToken := (symbolOf?_eq_some_iff.1 isSymbol).2.2.1
  have has := Record.hasNoBlanks_of_mem_records isRecord
  refine ⟨?_, ?_, isUnbroken_of_recordToken? adds has isToken⟩
  · intro c inPattern
    apply plain
    rw [String.toList_ofList]
    exact inAlphabet _ c inPattern
  · intro isQuote
    exact noQuote (inAlphabet _ _ isQuote)

end Config

namespace Generator

theorem isReadable_of_mem_generate {config : Config} {policy : Policy} {table : String}
    {rules : List Rule} (adds : config.AddsNoBlanks)
    (generated : (Generator.mk config []).generate policy table = .ok rules) :
    ∀ rule ∈ rules, rule.IsReadable := by
  intro rule member
  rw [rules_of_generate generated] at member
  rcases List.mem_append.1 member with immediate | isRange
  · obtain ⟨record, isRecord, made⟩ := List.mem_flatMap.1 immediate
    exact Config.isReadable_of_mem_rulesOf adds (Record.hasNoBlanks_of_mem_records isRecord) made
  · exact Config.isReadable_of_mem_rangeRules adds isRange

/-- If the configuration adds no blanks, then the rendered rules of a table are read back, and
    nothing else is read as these rules. So two tables with the same rendered rules have the same
    rules, under any two such configurations. -/
theorem readGrammar?_render_generate {config : Config} {policy : Policy} {table : String}
    {rules : List Rule} (adds : config.AddsNoBlanks)
    (generated : (Generator.mk config []).generate policy table = .ok rules) :
    Rule.readGrammar? (Rule.render rules) = some rules ∧
      (∀ text, Rule.readGrammar? text = some rules → text = Rule.render rules) ∧
      ∀ other otherPolicy otherTable others, Config.AddsNoBlanks other →
        (Generator.mk other []).generate otherPolicy otherTable = .ok others →
          Rule.render others = Rule.render rules → others = rules := by
  have read := Rule.readGrammar?_render (isReadable_of_mem_generate adds generated)
  refine ⟨read, fun text isText => (Rule.render_of_readGrammar? isText).symm, ?_⟩
  intro other otherPolicy otherTable others otherAdds otherGenerated same
  have readOthers := Rule.readGrammar?_render (isReadable_of_mem_generate otherAdds otherGenerated)
  rw [same, read] at readOthers
  exact (Option.some.inj readOthers).symm

/-- Commands and tokens may look like the end of a line. -/
theorem readGrammar?_render_generate_quotes :
    let table := "U000E4 OP\";\x7d \\\"\x7ba\x7d\";return A\nU02268-0FE00 A\nU00041 A"
    let rules : List Rule :=
      [.command "\\\\\"\x7ba\x7d\";return" "\\u00E4" "OP\";\x7d", .literal "\\u2268\\uFE00" "A",
        .range "\\u00E4" "OP\";\x7d", .range "\\u0041" "A"]
    Config.AddsNoBlanks {} ∧ (Generator.mk {} []).generate .abort table = .ok rules ∧
      Rule.readGrammar? (Rule.render rules) = some rules := by
  intro table rules
  have generated : (Generator.mk {} []).generate .abort table = .ok rules := by
    decide +kernel
  exact ⟨Config.addsNoBlanks_default, generated,
    (readGrammar?_render_generate Config.addsNoBlanks_default generated).1⟩

end Generator

end SymbolRules
