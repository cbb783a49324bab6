import SymbolRules.Proofs.Generator.Run

/-!
# Tables in chunks

A table may be fed in chunks, cut at any of its line feeds: the rules and the generator are those
of the whole table, and an error is that of the first chunk with one, but for the number of its
line (`Generator.feedEntries_chunks`). The records of a table may also be taken one by one
(`Generator.generate_in_parts`).
-/

namespace SymbolRules

namespace Table

/-- How many lines some chunks have: one more than line feeds for each. -/
def lineCount (chunks : List String) : Nat :=
  (chunks.flatMap String.toList).count '\n' + chunks.length

theorem lineCount_cons (chunk : String) (rest : List String) :
    lineCount (chunk :: rest) = (lines chunk.toList).length + lineCount rest := by
  simp only [lineCount, List.flatMap_cons, List.count_append, List.length_cons, length_lines]
  omega

end Table

namespace Generator

/-- The answer of a run that is over: its rules, and then the range rules. -/
def conclude : Outcome → Except GenerateError (List Rule)
  | (.ok rules, last) => .ok (rules ++ last.finish)
  | (.error error, _) => .error error

theorem generate_eq (generator : Generator) (policy : Policy) (table : String) :
    generator.generate policy table = conclude (generator.feed policy table) := rfl

/-- Feeds chunks in turn. -/
def feedChunks (generator : Generator) (policy : Policy) (chunks : List String) : Outcome :=
  runAll (fun current chunk => current.feed policy chunk) generator chunks

theorem feedChunks_cons_of_ok {generator next : Generator} {policy : Policy} {chunk : String}
    {rules : List Rule} (fed : generator.feed policy chunk = (.ok rules, next))
    (rest : List String) :
    generator.feedChunks policy (chunk :: rest) =
      ((next.feedChunks policy rest).1.map (rules ++ ·), (next.feedChunks policy rest).2) := by
  rw [feedChunks, runAll, fed, andThen_ok]
  rfl

/-- Takes records in turn. -/
def updateAll (generator : Generator) (policy : Policy) (records : List Record) : Outcome :=
  runAll (fun current record => settle policy (current.update record)) generator records

theorem feedEntries_lines (generator : Generator) (policy : Policy) (offset : Nat)
    (chunk : String) :
    generator.feedEntries policy (Table.entriesFrom (1 + offset) (Table.lines chunk.toList)) =
      renumberOutcome (· + offset) (generator.feed policy chunk) := by
  rw [Table.entriesFrom_add, feedEntries_map_renumberEntry]
  rfl

/-- The lines of some chunks come to the same as the chunks, if these are all taken. Otherwise
    they come to the error of the first chunk that is not, with the line counted from the first
    line of all, and the generator is the same. -/
theorem feedEntries_chunks (policy : Policy) (chunks : List String) (offset : Nat)
    (generator : Generator) :
    (∃ rules last, generator.feedChunks policy chunks = (.ok rules, last) ∧
      generator.feedEntries policy (Table.entriesFrom (1 + offset)
        (chunks.flatMap fun chunk => Table.lines chunk.toList)) = (.ok rules, last)) ∨
    ∃ front chunk back rules next error last, chunks = front ++ chunk :: back ∧
      generator.feedChunks policy front = (.ok rules, next) ∧
      next.feed policy chunk = (.error error, last) ∧
      generator.feedEntries policy (Table.entriesFrom (1 + offset)
          (chunks.flatMap fun chunk => Table.lines chunk.toList)) =
        (.error (error.shift (offset + Table.lineCount front)), last) := by
  induction chunks generalizing offset generator with
  | nil => exact .inl ⟨[], generator, rfl, rfl⟩
  | cons chunk chunks ih =>
      have first := generator.feedEntries_lines policy offset chunk
      rw [List.flatMap_cons, Table.entriesFrom_append, feedEntries_append, first, Nat.add_assoc]
      rcases fed : generator.feed policy chunk with ⟨error | rules, next⟩
      · refine .inr ⟨[], chunk, chunks, [], generator, error, next, rfl, rfl, fed, ?_⟩
        simp [renumberOutcome, Except.mapError, GenerateError.shift, Table.lineCount]
      · simp only [renumberOutcome, Except.mapError, andThen_ok]
        rcases ih (offset + (Table.lines chunk.toList).length) next with
          ⟨others, last, later, whole⟩ |
            ⟨front, bad, back, others, before, error, last, rfl, later, failed, whole⟩
        · refine .inl ⟨rules ++ others, last, ?_, by rw [whole]; rfl⟩
          rw [feedChunks_cons_of_ok fed, later]
          rfl
        · refine .inr ⟨chunk :: front, bad, back, rules ++ others, before, error, last, rfl, ?_,
            failed, ?_⟩
          · rw [feedChunks_cons_of_ok fed, later]
            rfl
          · rw [whole, Table.lineCount_cons, Nat.add_assoc]
            rfl

theorem updateAll_eq_feedEntries (generator : Generator) (policy : Policy)
    (records : List Record) :
    generator.updateAll policy records = generator.feedEntries policy (records.map .ok) := by
  rw [feedEntries_eq_runAll, updateAll]
  induction records generalizing generator with
  | nil => rfl
  | cons record records ih =>
      rw [List.map_cons, runAll, runAll]
      exact congrArg _ (funext fun next => ih next)

/-- Skipping malformed lines is taking the records between them. -/
theorem feedEntries_skip_eq_updateAll (generator : Generator)
    (entries : List (Except Malformed Record)) :
    generator.feedEntries .skip entries = generator.updateAll .skip (Table.recordsOf entries) := by
  rw [updateAll_eq_feedEntries]
  induction entries generalizing generator with
  | nil => rfl
  | cons entry entries ih =>
      cases entry with
      | error malformed =>
          have taken : generator.take (.error malformed) =
              (.error (.malformed malformed), generator) := rfl
          rw [feedEntries_skip_cons_of_error taken, ih]
          rfl
      | ok record =>
          rw [Table.recordsOf_cons_ok, List.map_cons]
          rcases taken : generator.take (.ok record) with ⟨error | rules, next⟩
          · rw [feedEntries_skip_cons_of_error taken, feedEntries_skip_cons_of_error taken, ih]
          · rw [feedEntries_cons_of_ok taken, feedEntries_cons_of_ok taken, ih]

/-- Entries begin with records, up to the first malformed line if there is one. -/
theorem exists_leading_records (entries : List (Except Malformed Record)) :
    ∃ records : List Record, entries = records.map .ok ∨
      ∃ malformed later, entries = records.map .ok ++ .error malformed :: later := by
  induction entries with
  | nil => exact ⟨[], .inl rfl⟩
  | cons entry entries ih =>
      cases entry with
      | error malformed => exact ⟨[], .inr ⟨malformed, entries, rfl⟩⟩
      | ok record =>
          obtain ⟨records, rfl | ⟨malformed, later, rfl⟩⟩ := ih
          · exact ⟨record :: records, .inl rfl⟩
          · exact ⟨record :: records, .inr ⟨malformed, later, rfl⟩⟩

theorem feed_intercalate (generator : Generator) (policy : Policy) (first : String)
    (rest : List String) :
    generator.feed policy ("\n".intercalate (first :: rest)) =
      generator.feedEntries policy (Table.entriesFrom (1 + 0)
        ((first :: rest).flatMap fun chunk => Table.lines chunk.toList)) := by
  have cut : Table.lines ("\n".intercalate (first :: rest)).toList =
      (first :: rest).flatMap fun chunk => Table.lines chunk.toList := by
    have joined : ("\n".intercalate (first :: rest)).toList =
        List.intercalate ['\n'] ((first :: rest).map String.toList) := String.toList_intercalate
    rw [joined, Table.lines_intercalate (by simp), List.flatMap_map]
  rw [feed, Table.entries, cut]

/-- A whole table comes to the same as its chunks, except for the number of the line of an
    error. -/
theorem feed_chunks (generator : Generator) (policy : Policy) (first : String)
    (rest : List String) :
    let chunks := first :: rest
    let table := "\n".intercalate chunks
    (∃ rules last, generator.feedChunks policy chunks = (.ok rules, last) ∧
      generator.feed policy table = (.ok rules, last) ∧
      generator.generate policy table = .ok (rules ++ last.finish)) ∨
    ∃ front chunk back rules next error last, chunks = front ++ chunk :: back ∧
      generator.feedChunks policy front = (.ok rules, next) ∧
      next.feed policy chunk = (.error error, last) ∧
      generator.feed policy table = (.error (error.shift (Table.lineCount front)), last) ∧
      generator.generate policy table = .error (error.shift (Table.lineCount front)) := by
  intro chunks table
  have fed := generator.feed_intercalate policy first rest
  rcases feedEntries_chunks policy chunks 0 generator with
    ⟨rules, last, parts, whole⟩ |
      ⟨front, chunk, back, rules, next, error, last, cut, parts, failed, whole⟩
  · rw [← fed] at whole
    refine .inl ⟨rules, last, parts, whole, ?_⟩
    rw [generate_eq, whole]
    rfl
  · rw [← fed, Nat.zero_add] at whole
    refine .inr ⟨front, chunk, back, rules, next, error, last, cut, parts, failed, whole, ?_⟩
    rw [generate_eq, whole]
    rfl

/-- A table may be cut at any of its line feeds. Skipping, its chunks lead to the same rules as
    the whole. Without skipping they do so if all are taken; otherwise the whole table fails with
    the error of the first chunk that does, on a line counted from the first chunk on, and the
    generator is the same at that point. Taking the records of the table one by one leads to the
    same answer as well, up to the first malformed line if that is not skipped. -/
theorem generate_in_parts (generator : Generator) (first : String) (rest : List String) :
    let chunks := first :: rest
    let table := "\n".intercalate chunks
    (∃ rules last, generator.feedChunks .skip chunks = (.ok rules, last) ∧
      generator.feed .skip table = (.ok rules, last) ∧
      generator.generate .skip table = .ok (rules ++ last.finish)) ∧
    ((∃ rules last, generator.feedChunks .abort chunks = (.ok rules, last) ∧
        generator.feed .abort table = (.ok rules, last) ∧
        generator.generate .abort table = .ok (rules ++ last.finish)) ∨
      ∃ front chunk back rules next error last, chunks = front ++ chunk :: back ∧
        generator.feedChunks .abort front = (.ok rules, next) ∧
        next.feed .abort chunk = (.error error, last) ∧
        generator.feed .abort table = (.error (error.shift (Table.lineCount front)), last) ∧
        generator.generate .abort table = .error (error.shift (Table.lineCount front))) ∧
    generator.generate .skip table =
      conclude (generator.updateAll .skip (Table.records table)) ∧
    ∃ records : List Record,
      (Table.entries table = records.map .ok ∧
        generator.generate .abort table = conclude (generator.updateAll .abort records)) ∨
      ∃ malformed later, Table.entries table = records.map .ok ++ .error malformed :: later ∧
        generator.generate .abort table =
          conclude (andThen (generator.updateAll .abort records) fun last =>
            (.error (.malformed malformed), last)) := by
  intro chunks table
  refine ⟨?_, generator.feed_chunks .abort first rest, ?_, ?_⟩
  · rcases generator.feed_chunks .skip first rest with
      taken | ⟨_, _, _, _, _, _, _, -, -, -, failed, -⟩
    · exact taken
    · obtain ⟨rules, last, skipped⟩ := generator.exists_feedEntries_skip (Table.entries table)
      rw [feed, skipped] at failed
      cases failed
  · rw [generate_eq, feed, feedEntries_skip_eq_updateAll]
    rfl
  · obtain ⟨records, all | ⟨malformed, later, some⟩⟩ := exists_leading_records (Table.entries table)
    · refine ⟨records, .inl ⟨all, ?_⟩⟩
      rw [generate_eq, feed, all, updateAll_eq_feedEntries]
    · refine ⟨records, .inr ⟨malformed, later, some, ?_⟩⟩
      rw [generate_eq, feed, some, feedEntries_append, updateAll_eq_feedEntries]
      rfl

end Generator

end SymbolRules
