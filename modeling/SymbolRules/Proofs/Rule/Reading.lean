import Mathlib.Data.List.SplitBy
import SymbolRules.Proofs.Table.Lines
import SymbolRules.Rule

/-!
# Reading grammars

The line of a rule is made of words with one space between each two: eight words for a command
rule, three for any other. Since a grammar is read at line feeds and spaces only, it does not
matter what else commands and tokens contain. Rules without blanks are read back
(`Rule.readGrammar?_render`), and whatever is read was written that way
(`Rule.render_of_readGrammar?`).
-/

namespace SymbolRules

/-- Whether a text has no blanks. -/
def IsUnbroken (text : String) : Prop := ∀ c ∈ text.toList, isBlank c = false

instance (text : String) : Decidable (IsUnbroken text) :=
  List.decidableBAll (fun c => isBlank c = false) text.toList

@[simp] theorem isUnbroken_append {front back : String} :
    IsUnbroken (front ++ back) ↔ IsUnbroken front ∧ IsUnbroken back := by
  simp [IsUnbroken, or_imp, forall_and]

namespace Rule

@[simp] theorem isUnbroken_quoted {text : String} : IsUnbroken (quoted text) ↔ IsUnbroken text := by
  have quote : IsUnbroken "\"" := by decide
  simp [quoted, quote]

/-- The words of the line of a rule. -/
def words : Rule → List String
  | command name text token =>
      [quoted name, "\x7b", "yytext", "=", quoted text ++ ";", "return", quoted token ++ ";",
        "\x7d"]
  | literal text token => [quoted text, "return", quoted token ++ ";"]
  | range pattern token => [pattern, "return", quoted token ++ ";"]

/-- Takes a text out of its quotes and of what stands behind them. -/
def unquoted? (behind word : String) : Option String :=
  (word.toList.dropPrefix? ['"']).bind fun rest =>
    (rest.dropSuffix? ('"' :: behind.toList)).map String.ofList

/-- Reads the words of a line. -/
def ofWords? : List String → Option Rule
  | [name, "\x7b", "yytext", "=", text, "return", token, "\x7d"] => do
      return .command (← unquoted? "" name) (← unquoted? ";" text) (← unquoted? ";" token)
  | [first, "return", token] => do
      let token ← unquoted? ";" token
      match unquoted? "" first with
      | some text => return .literal text token
      | none => return .range first token
  | _ => none

/-- Reads a line, which is cut at every space. -/
def readLine? (line : List Char) : Option Rule :=
  ofWords? ((Text.splitWhen (· == ' ') line).map String.ofList)

/-- Reads lines, where nothing must stand behind the last line feed. -/
def readLines? : List (List Char) → Option (List Rule)
  | [] => none
  | [last] => if last.isEmpty then some [] else none
  | line :: next :: rest => do return (← readLine? line) :: (← readLines? (next :: rest))

/-- Reads a grammar. -/
def readGrammar? (text : String) : Option (List Rule) := readLines? (Table.lines text.toList)

/-- Whether a rule has no blanks, and no quotes in the pattern of a range. -/
def IsReadable : Rule → Prop
  | command name text token => IsUnbroken name ∧ IsUnbroken text ∧ IsUnbroken token
  | literal text token => IsUnbroken text ∧ IsUnbroken token
  | range pattern token => IsUnbroken pattern ∧ '"' ∉ pattern.toList ∧ IsUnbroken token

theorem toList_line (rule : Rule) :
    rule.line.toList = List.intercalate [' '] (rule.words.map String.toList) := by
  cases rule with
  | command name text token =>
      simp [line, words, returning, quoted, List.intercalate_cons_cons, List.intercalate_singleton]
  | literal text token =>
      simp [line, words, returning, quoted, List.intercalate_cons_cons, List.intercalate_singleton]
  | range pattern token =>
      simp [line, words, returning, quoted, List.intercalate_cons_cons, List.intercalate_singleton]

theorem unquoted?_eq_some_iff {behind word text : String} :
    unquoted? behind word = some text ↔ word = quoted text ++ behind := by
  simp only [unquoted?, Option.bind_eq_some_iff, Option.map_eq_some_iff,
    List.dropPrefix?_eq_some_iff, List.dropSuffix?_eq_some_iff, beq_iff_eq]
  constructor
  · rintro ⟨rest, ⟨front, isWord, rfl⟩, inner, ⟨back, rfl, rfl⟩, rfl⟩
    rw [← String.toList_inj, isWord]
    simp [quoted]
  · rintro rfl
    refine ⟨text.toList ++ '"' :: behind.toList, ⟨_, ?_, rfl⟩, text.toList, ⟨_, rfl, rfl⟩, ?_⟩
    · simp [quoted]
    · simp

theorem ofWords?_words {rule : Rule} (readable : rule.IsReadable) :
    ofWords? rule.words = some rule := by
  have plain : ∀ text, unquoted? "" (quoted text) = some text :=
    fun text => unquoted?_eq_some_iff.2 (by simp)
  have ended : ∀ text behind, unquoted? behind (quoted text ++ behind) = some text :=
    fun text behind => unquoted?_eq_some_iff.2 rfl
  cases rule with
  | command name text token => simp [words, ofWords?, plain, ended]
  | literal text token => simp [words, ofWords?, plain, ended]
  | range pattern token =>
      -- A pattern between quotes would be taken for a literal.
      have bare : unquoted? "" pattern = none := by
        rw [Option.eq_none_iff_forall_ne_some]
        intro text isQuoted
        rw [unquoted?_eq_some_iff] at isQuoted
        apply readable.2.1
        simp [isQuoted, quoted]
      simp [words, ofWords?, bare, ended]

theorem words_of_ofWords? {words : List String} {rule : Rule}
    (read : ofWords? words = some rule) : rule.words = words := by
  unfold ofWords? at read
  split at read
  · simp only [Option.bind_eq_bind, Option.bind_eq_some_iff, unquoted?_eq_some_iff] at read
    obtain ⟨name, rfl, text, rfl, token, rfl, isRule⟩ := read
    obtain rfl := Option.some.inj isRule
    simp [Rule.words]
  · simp only [Option.bind_eq_bind, Option.bind_eq_some_iff, unquoted?_eq_some_iff] at read
    obtain ⟨token, rfl, isRule⟩ := read
    split at isRule
    · rename_i text isQuoted
      obtain rfl := Option.some.inj isRule
      rw [unquoted?_eq_some_iff] at isQuoted
      simp [Rule.words, isQuoted]
    · obtain rfl := Option.some.inj isRule
      rfl
  · cases read

theorem isUnbroken_of_mem_words {rule : Rule} (readable : rule.IsReadable) :
    ∀ word ∈ rule.words, IsUnbroken word := by
  have fixed : IsUnbroken "\x7b" ∧ IsUnbroken "yytext" ∧ IsUnbroken "=" ∧ IsUnbroken "return" ∧
      IsUnbroken "\x7d" ∧ IsUnbroken ";" := by decide
  cases rule with
  | command name text token =>
      obtain ⟨isName, isText, isToken⟩ := readable
      simp [words, fixed, isName, isText, isToken]
  | literal text token =>
      obtain ⟨isText, isToken⟩ := readable
      simp [words, fixed, isText, isToken]
  | range pattern token =>
      obtain ⟨isPattern, -, isToken⟩ := readable
      simp [words, fixed, isPattern, isToken]

theorem ne_of_mem_words {rule : Rule} (readable : rule.IsReadable) {blank : Char}
    (blanks : isBlank blank = true) :
    ∀ word ∈ rule.words.map String.toList, ∀ c ∈ word, c ≠ blank := by
  intro word isWord c inWord
  obtain ⟨text, isText, rfl⟩ := List.mem_map.1 isWord
  have notBlank := isUnbroken_of_mem_words readable text isText c inWord
  rintro rfl
  simp [blanks] at notBlank

/-- A line without further blanks is read back. -/
theorem readLine?_line {rule : Rule} (readable : rule.IsReadable) :
    readLine? rule.line.toList = some rule := by
  have someWord : rule.words.map String.toList ≠ [] := by cases rule <;> simp [words]
  have cut : Text.splitWhen (· == ' ') rule.line.toList = rule.words.map String.toList := by
    rw [toList_line]
    apply Text.splitWhen_intercalate rfl someWord
    intro word isWord c inWord
    rw [beq_eq_false_iff_ne]
    exact ne_of_mem_words readable (by decide) word isWord c inWord
  rw [readLine?, cut, List.map_map]
  simpa [Function.comp_def] using ofWords?_words readable

theorem line_of_readLine? {line : List Char} {rule : Rule} (read : readLine? line = some rule) :
    rule.line.toList = line := by
  have toList : String.toList ∘ String.ofList = id := funext fun _ => String.toList_ofList
  rw [toList_line, words_of_ofWords? read, List.map_map, toList, List.map_id]
  exact Text.intercalate_splitWhen ' ' line

theorem lines_line {rule : Rule} (readable : rule.IsReadable) :
    Table.lines rule.line.toList = [rule.line.toList] := by
  have noNewline : ∀ c ∈ rule.line.toList, c ≠ '\n' := by
    rw [toList_line]
    exact Text.forall_mem_intercalate (by decide) (ne_of_mem_words readable (by decide))
  apply Text.splitWhen_of_no_cut
  intro c member
  rw [beq_eq_false_iff_ne]
  exact noNewline c member

theorem toList_render_cons (rule : Rule) (rules : List Rule) :
    (render (rule :: rules)).toList = rule.line.toList ++ '\n' :: (render rules).toList := by
  simp [render]

theorem readLines?_cons (line : List Char) {rest : List (List Char)} (nonempty : rest ≠ []) :
    readLines? (line :: rest) =
      (readLine? line).bind fun rule => (readLines? rest).map (rule :: ·) := by
  obtain ⟨next, rest, rfl⟩ := List.exists_cons_of_ne_nil nonempty
  rw [readLines?]
  cases readLine? line with
  | none => rfl
  | some rule => cases readLines? (next :: rest) <;> rfl

/-- A grammar of readable rules is read back. -/
theorem readGrammar?_render {rules : List Rule} (readable : ∀ rule ∈ rules, rule.IsReadable) :
    readGrammar? (render rules) = some rules := by
  unfold readGrammar?
  induction rules with
  | nil => rfl
  | cons rule rules ih =>
      have isFirst := readable rule (List.mem_cons_self ..)
      have later := ih fun other member => readable other (List.mem_cons_of_mem rule member)
      have someLine : Table.lines (render rules).toList ≠ [] := Text.splitWhen_ne_nil _
      rw [toList_render_cons, Table.lines_append_newline, lines_line isFirst,
        List.singleton_append, readLines?_cons _ someLine, readLine?_line isFirst, later]
      rfl

theorem toList_render_of_readLines? {lines : List (List Char)} {rules : List Rule}
    (read : readLines? lines = some rules) :
    (render rules).toList = List.intercalate ['\n'] lines := by
  induction lines generalizing rules with
  | nil => cases read
  | cons line rest ih =>
      cases rest with
      | nil =>
          rw [readLines?] at read
          split at read
          · rename_i isEmpty
            obtain rfl := Option.some.inj read
            rw [List.isEmpty_iff.1 isEmpty]
            rfl
          · cases read
      | cons next rest =>
          rw [readLines?_cons line (List.cons_ne_nil next rest), Option.bind_eq_some_iff] at read
          obtain ⟨rule, isRule, isRest⟩ := read
          obtain ⟨others, readRest, rfl⟩ := Option.map_eq_some_iff.1 isRest
          rw [toList_render_cons, ih readRest, line_of_readLine? isRule,
            List.intercalate_cons_cons, List.append_assoc, List.singleton_append]

/-- Whatever is read is a rendered grammar. -/
theorem render_of_readGrammar? {text : String} {rules : List Rule}
    (read : readGrammar? text = some rules) : render rules = text := by
  rw [← String.toList_inj, toList_render_of_readLines? read]
  exact Text.intercalate_splitWhen '\n' text.toList

end Rule

end SymbolRules
