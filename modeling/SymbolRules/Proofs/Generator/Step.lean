import Mathlib.Data.List.TakeWhile
import SymbolRules.Generator.Basic
import SymbolRules.Proofs.CharClass.History
import SymbolRules.Proofs.Table.Records

/-!
# One step of a generator

Taking an entry of a table either fails and leaves the generator as it was, or gives the
rules of a record and collects its symbol (`take_of_entryError?`, `take_of_no_entryError?`). So
what a whole table leads to can be read off its entries (`feedEntries_eq`): a run goes on to its
end or to the first error, gives the rules of the records it took, and collects their symbols.
-/

namespace SymbolRules

namespace Config

/-- The rules that a record leads to at once. -/
def rulesOf (config : Config) (record : Record) : List Rule :=
  match record.escaped, config.recordToken? record with
  | .ok text, some token =>
      (config.commandsFor record).map (.command · text token) ++
        if record.isSingle then [] else [.literal text token]
  | _, _ => []

/-- The rules of a record all carry its text and its token: one for each command, and a literal
    unless the record has one code point only. -/
theorem mem_rulesOf {config : Config} {record : Record} {rule : Rule} :
    rule ∈ config.rulesOf record ↔
      ∃ text token, record.escaped = .ok text ∧ config.recordToken? record = some token ∧
        ((∃ name ∈ config.commandsFor record, rule = .command name text token) ∨
          record.isSingle = false ∧ rule = .literal text token) := by
  unfold rulesOf
  cases record.escaped with
  | error fault => simp
  | ok text =>
      cases config.recordToken? record with
      | none => simp
      | some token =>
          cases record.isSingle with
          | true => simp [@eq_comm _ rule]
          | false => simp [@eq_comm _ rule]

/-- The token and the symbol that a record adds to the range rules, if any. -/
def symbolOf? (config : Config) (record : Record) : Option (String × CodePoint) :=
  match record.escaped, config.recordToken? record, record.single? with
  | .ok _, some token, some symbol =>
      if config.isRangeExcluded symbol then none else some (token, symbol)
  | _, _, _ => none

end Config

/-- Why an entry of a table gives no rules, if there is a reason. -/
def entryError? : Except Malformed Record → Option GenerateError
  | .error malformed => some (.malformed malformed)
  | .ok record =>
      match record.escaped with
      | .ok _ => none
      | .error fault => some (.invalidCodePoint record.line fault)

/-- Whether an entry of a table has no error. -/
def isSound (entry : Except Malformed Record) : Bool := (entryError? entry).isNone

/-- The entries that a run takes: those before the first error, or all that have none. -/
def takenEntries (policy : Policy) (entries : List (Except Malformed Record)) :
    List (Except Malformed Record) :=
  match policy with
  | .abort => entries.takeWhile isSound
  | .skip => entries.filter isSound

/-- The error that a run ends with, if there is one. -/
def endingError? (policy : Policy) (entries : List (Except Malformed Record)) :
    Option GenerateError :=
  match policy with
  | .abort => entries.findSome? entryError?
  | .skip => none

namespace Config

/-- The symbols that the entries of a table add when a generator takes them. -/
def symbolsOfEntries (config : Config) (policy : Policy)
    (entries : List (Except Malformed Record)) : List (String × CodePoint) :=
  (Table.recordsOf (takenEntries policy entries)).filterMap config.symbolOf?

end Config

namespace Collection

/-- The collection with one more symbol under its token. -/
def collect (collection : Collection) (symbol : String × CodePoint) : Collection :=
  (add symbol.1 symbol.2.toNat collection).2

theorem fst_add (token : String) (value : Int) (collection : Collection) :
    (add token value collection).1 = (Pair.encode value).map fun _ => () := by
  induction collection with
  | nil =>
      rw [add, Compressor.add]
      cases Pair.encode value with
      | ok pair => rfl
      | error fault => rfl
  | cons row rest ih =>
      obtain ⟨name, compressor⟩ := row
      rw [add]
      split
      · rw [Compressor.add]
        cases Pair.encode value with
        | ok pair => rfl
        | error fault => rfl
      · exact ih

/-- A scalar value is never refused. -/
theorem fst_add_of_isScalar (token : String) {value : Int} (isScalar : IsScalar value)
    (collection : Collection) : (add token value collection).1 = .ok () := by
  rw [fst_add, Pair.encode_eq_ok_iff.2 ⟨isScalar, rfl⟩]
  rfl

end Collection

namespace Generator

/-- A generator with further symbols under their tokens. -/
def collectAll (generator : Generator) (symbols : List (String × CodePoint)) : Generator :=
  { generator with collected := symbols.foldl Collection.collect generator.collected }

@[simp] theorem config_collectAll (generator : Generator) (symbols : List (String × CodePoint)) :
    (generator.collectAll symbols).config = generator.config := rfl

theorem collectAll_append (generator : Generator) (front back : List (String × CodePoint)) :
    generator.collectAll (front ++ back) = (generator.collectAll front).collectAll back := by
  simp [collectAll]

theorem update_of_escaped (generator : Generator) {record : Record} {text : String}
    (written : record.escaped = .ok text) :
    generator.update record = (.ok (generator.config.rulesOf record),
      generator.collectAll (generator.config.symbolOf? record).toList) := by
  unfold update Config.rulesOf Config.symbolOf? Record.isSingle
  rw [written]
  dsimp only
  cases isToken : generator.config.recordToken? record with
  | none => rfl
  | some token =>
      cases isSingle : record.single? with
      | none => rfl
      | some codePoint =>
          dsimp only
          by_cases excluded : generator.config.isRangeExcluded codePoint = true
          · rw [if_pos excluded, if_pos excluded]
            simp [collectAll]
          · have accepted := Collection.fst_add_of_isScalar token
              (Record.isScalar_of_single? written isSingle) generator.collected
            rw [if_neg excluded, if_neg excluded]
            simp only [accepted]
            simp [collectAll, Collection.collect]

theorem update_of_not_escaped (generator : Generator) {record : Record} {fault : InvalidCodePoint}
    (unwritten : record.escaped = .error fault) :
    generator.update record = (.error (.invalidCodePoint record.line fault), generator) := by
  unfold update
  rw [unwritten]

/-- An entry with an error leaves no trace. -/
theorem take_of_entryError? (generator : Generator) {entry : Except Malformed Record}
    {error : GenerateError} (failing : entryError? entry = some error) :
    generator.take entry = (.error error, generator) := by
  cases entry with
  | error malformed =>
      obtain rfl := Option.some.inj failing
      rfl
  | ok record =>
      rw [entryError?] at failing
      split at failing
      · cases failing
      · rename_i fault unwritten
        obtain rfl := Option.some.inj failing
        exact generator.update_of_not_escaped unwritten

/-- An entry without an error is a record, whose rules are given and whose symbol is
    collected. -/
theorem take_of_no_entryError? (generator : Generator) {entry : Except Malformed Record}
    (sound : entryError? entry = none) :
    ∃ record, entry = .ok record ∧ generator.take entry =
      (.ok (generator.config.rulesOf record),
        generator.collectAll (generator.config.symbolOf? record).toList) := by
  cases entry with
  | error malformed => cases sound
  | ok record =>
      rw [entryError?] at sound
      split at sound
      · rename_i text written
        exact ⟨record, rfl, generator.update_of_escaped written⟩
      · cases sound

theorem recordsOf_of_entryError? (config : Config) {entry : Except Malformed Record}
    {error : GenerateError} (failing : entryError? entry = some error)
    (rest : List (Except Malformed Record)) :
    (Table.recordsOf (entry :: rest)).flatMap config.rulesOf =
        (Table.recordsOf rest).flatMap config.rulesOf ∧
      (Table.recordsOf (entry :: rest)).filterMap config.symbolOf? =
        (Table.recordsOf rest).filterMap config.symbolOf? := by
  cases entry with
  | error malformed => exact ⟨rfl, rfl⟩
  | ok record =>
      rw [entryError?] at failing
      split at failing
      · cases failing
      · rename_i fault unwritten
        have noRules : config.rulesOf record = [] := by
          rw [Config.rulesOf, unwritten]
        have noSymbol : config.symbolOf? record = none := by
          rw [Config.symbolOf?, unwritten]
        rw [Table.recordsOf_cons_ok, List.flatMap_cons, noRules, List.filterMap_cons, noSymbol]
        exact ⟨rfl, rfl⟩

theorem feedEntries_cons_of_ok {generator next : Generator} {entry : Except Malformed Record}
    {rules : List Rule} (taken : generator.take entry = (.ok rules, next)) (policy : Policy)
    (rest : List (Except Malformed Record)) :
    generator.feedEntries policy (entry :: rest) =
      ((next.feedEntries policy rest).1.map (rules ++ ·), (next.feedEntries policy rest).2) := by
  rw [feedEntries.eq_def]
  dsimp only
  rw [taken]

theorem feedEntries_abort_cons_of_error {generator next : Generator}
    {entry : Except Malformed Record} {error : GenerateError}
    (taken : generator.take entry = (.error error, next)) (rest : List (Except Malformed Record)) :
    generator.feedEntries .abort (entry :: rest) = (.error error, next) := by
  rw [feedEntries.eq_def]
  dsimp only
  rw [taken]

theorem feedEntries_skip_cons_of_error {generator next : Generator}
    {entry : Except Malformed Record} {error : GenerateError}
    (taken : generator.take entry = (.error error, next)) (rest : List (Except Malformed Record)) :
    generator.feedEntries .skip (entry :: rest) = next.feedEntries .skip rest := by
  rw [feedEntries.eq_def]
  dsimp only
  rw [taken]

/-- A run gives the rules of the records that it takes and collects their symbols. Whether it ends
    with an error, and with which one, depends on the entries alone. -/
theorem feedEntries_eq (generator : Generator) (policy : Policy)
    (entries : List (Except Malformed Record)) :
    generator.feedEntries policy entries =
      ((endingError? policy entries).elim
          (.ok ((Table.recordsOf (takenEntries policy entries)).flatMap generator.config.rulesOf))
          .error,
        generator.collectAll (generator.config.symbolsOfEntries policy entries)) := by
  induction entries generalizing generator with
  | nil => cases policy <;> rfl
  | cons entry entries ih =>
      cases failing : entryError? entry with
      | some error =>
          -- The entry ends the run or is left out. Either way it is not among those taken.
          have unsound : isSound entry = false := by rw [isSound, failing]; rfl
          have taken := generator.take_of_entryError? failing
          cases policy with
          | abort =>
              rw [feedEntries_abort_cons_of_error taken]
              simp [endingError?, failing, Config.symbolsOfEntries, takenEntries, unsound,
                Table.recordsOf, collectAll]
          | skip =>
              rw [feedEntries_skip_cons_of_error taken, ih]
              simp [endingError?, Config.symbolsOfEntries, takenEntries, unsound]
      | none =>
          have sound : isSound entry = true := by rw [isSound, failing]; rfl
          have kept : takenEntries policy (entry :: entries) =
              entry :: takenEntries policy entries := by
            cases policy <;> simp [takenEntries, sound]
          have later : endingError? policy (entry :: entries) = endingError? policy entries := by
            cases policy <;> simp [endingError?, failing]
          obtain ⟨record, rfl, taken⟩ := generator.take_of_no_entryError? failing
          rw [feedEntries_cons_of_ok taken, ih, Config.symbolsOfEntries, Config.symbolsOfEntries,
            kept, later, Table.recordsOf_cons_ok, List.flatMap_cons, ← collectAll_append]
          rw [Prod.mk.injEq]
          constructor
          · cases endingError? policy entries <;> rfl
          · cases found : generator.config.symbolOf? record <;> simp [found]

/-- A run that does not end with an error leaves out nothing but what is not sound. -/
theorem takenEntries_eq_filter {policy : Policy} {entries : List (Except Malformed Record)}
    (ends : endingError? policy entries = none) :
    takenEntries policy entries = entries.filter isSound := by
  cases policy with
  | skip => rfl
  | abort =>
      have sound : ∀ entry ∈ entries, isSound entry = true := by
        rw [endingError?, List.findSome?_eq_none_iff] at ends
        intro entry member
        rw [isSound, ends entry member]
        rfl
      rw [takenEntries, List.takeWhile_eq_self_iff.2 sound, List.filter_eq_self.2 sound]

/-- Entries that are not sound give no rules and no symbols anyway. -/
theorem recordsOf_filter_isSound (config : Config) (entries : List (Except Malformed Record)) :
    (Table.recordsOf (entries.filter isSound)).flatMap config.rulesOf =
        (Table.recordsOf entries).flatMap config.rulesOf ∧
      (Table.recordsOf (entries.filter isSound)).filterMap config.symbolOf? =
        (Table.recordsOf entries).filterMap config.symbolOf? := by
  induction entries with
  | nil => exact ⟨rfl, rfl⟩
  | cons entry entries ih =>
      cases failing : entryError? entry with
      | some error =>
          obtain ⟨sameRules, sameSymbols⟩ := recordsOf_of_entryError? config failing entries
          have dropped : ¬ isSound entry = true := by simp [isSound, failing]
          rw [List.filter_cons_of_neg dropped, sameRules, sameSymbols]
          exact ih
      | none =>
          have kept : isSound entry = true := by simp [isSound, failing]
          rw [List.filter_cons_of_pos kept]
          cases entry with
          | error malformed => exact ih
          | ok record =>
              rw [Table.recordsOf_cons_ok, Table.recordsOf_cons_ok, List.flatMap_cons,
                List.flatMap_cons, List.filterMap_cons, List.filterMap_cons, ih.1, ih.2]
              exact ⟨rfl, rfl⟩

/-- A run that gives rules gives those of each record in order, and has collected the symbol
    of each record in order. -/
theorem feedEntries_eq_ok {generator last : Generator} {policy : Policy}
    {entries : List (Except Malformed Record)} {rules : List Rule}
    (fed : generator.feedEntries policy entries = (.ok rules, last)) :
    rules = (Table.recordsOf entries).flatMap generator.config.rulesOf ∧
      last = generator.collectAll
        ((Table.recordsOf entries).filterMap generator.config.symbolOf?) := by
  rw [feedEntries_eq] at fed
  obtain ⟨outcome, rfl⟩ := Prod.mk.inj fed
  cases ends : endingError? policy entries with
  | some error =>
      rw [ends] at outcome
      cases outcome
  | none =>
      rw [ends] at outcome
      obtain rfl := Except.ok.inj outcome
      obtain ⟨sameRules, sameSymbols⟩ := recordsOf_filter_isSound generator.config entries
      rw [Config.symbolsOfEntries, takenEntries_eq_filter ends, sameRules, sameSymbols]
      exact ⟨rfl, rfl⟩

/-- The rules of a table are those that its lines lead to at once, and then the range rules of what
    they leave. -/
theorem generate_eq_ok_iff {generator : Generator} {policy : Policy} {table : String}
    {rules : List Rule} :
    generator.generate policy table = .ok rules ↔
      ∃ given last, generator.feed policy table = (.ok given, last) ∧
        rules = given ++ last.finish := by
  rw [generate]
  rcases generator.feed policy table with ⟨error | given, last⟩
  · simp
  · simp [eq_comm]

theorem generate_eq_error_iff {generator : Generator} {policy : Policy} {table : String}
    {error : GenerateError} :
    generator.generate policy table = .error error ↔
      ∃ last, generator.feed policy table = (.error error, last) := by
  rw [generate]
  rcases generator.feed policy table with ⟨fault | given, last⟩
  · simp
  · simp

end Generator

end SymbolRules
