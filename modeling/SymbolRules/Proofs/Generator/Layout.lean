import SymbolRules.Proofs.Generator.Chunks
import SymbolRules.Proofs.Generator.Verdict
import SymbolRules.Proofs.Table.Layout

/-!
# Tables in other layouts

The answer to a table depends on the fields of its lines only, and where blank lines stand makes a
difference to the line number of an error at most (`Generator.generate_of_layout`).
-/

namespace SymbolRules

namespace Table

/-- The first bad line of a table, with the lines in front of it and what is wrong with it. -/
structure FirstBad (table : String) (front : List (List Char)) (line : List Char)
    (error : GenerateError) : Prop where
  cut : ∃ back, lines table.toList = front ++ line :: back
  sound : AllSound 1 front
  bad : lineError? (front.length + 1) line = some error

/-- What is wrong with a line is the same wherever it stands. -/
theorem lineError?_renumber (number : Nat → Nat) (line : Nat) (text : List Char) :
    lineError? (number line) text = (lineError? line text).map (GenerateError.renumber number) := by
  have eachEntry : entryError? ∘ renumberEntry number =
      Option.map (GenerateError.renumber number) ∘ entryError? :=
    funext fun entry => Generator.entryError?_renumberEntry number entry
  rw [← findSome?_entriesFrom_singleton, ← findSome?_entriesFrom_singleton,
    entriesFrom_singleton_renumber, List.findSome?_map, eachEntry, List.map_findSome?]

theorem lineError?_congr {text other : List Char} (sameFields : fields text = fields other)
    (number : Nat) : lineError? number text = lineError? number other := by
  rw [← findSome?_entriesFrom_singleton, ← findSome?_entriesFrom_singleton,
    entriesFrom_singleton_eq, entriesFrom_singleton_eq, sameFields]

theorem fields_ne_nil_of_lineError? {number : Nat} {text : List Char} {error : GenerateError}
    (bad : lineError? number text = some error) : fields text ≠ [] := by
  intro blank
  rw [lineError?, Record.ofLine, blank] at bad
  cases bad

/-- Whether lines are sound does not depend on their numbers. -/
theorem allSound_iff_renumber (number : Nat → Nat) {first : Nat} {texts : List (List Char)} :
    AllSound first texts ↔
      ∀ entry ∈ (entriesFrom first texts).map (renumberEntry number), entryError? entry = none := by
  simp [allSound_iff, Generator.entryError?_renumberEntry]

theorem allSound_congr {texts others : List (List Char)} (sameRows : rows texts = rows others)
    (first second : Nat) : AllSound first texts ↔ AllSound second others := by
  rw [allSound_iff_renumber fun _ => 0, allSound_iff_renumber fun _ => 0,
    map_renumber_entriesFrom_congr sameRows 0 first second]

/-- A table with the same rows has the same first bad line, but for its number. -/
theorem FirstBad.exists_of_rows {table other : String} {front : List (List Char)}
    {line : List Char} {error : GenerateError} (firstBad : FirstBad table front line error)
    (sameRows : rows (lines table.toList) = rows (lines other.toList)) :
    ∃ before changed, rows front = rows before ∧ fields line = fields changed ∧
      FirstBad other before changed (error.renumber fun _ => before.length + 1) := by
  obtain ⟨⟨back, cut⟩, sound, bad⟩ := firstBad
  have filled := fields_ne_nil_of_lineError? bad
  rw [cut, rows_append, rows_cons_of_filled filled] at sameRows
  obtain ⟨before, changed, after, cutOther, sameFront, sameFields⟩ :=
    exists_cut_of_rows sameRows.symm
  refine ⟨before, changed, sameFront.symm, sameFields.symm, ⟨after, cutOther⟩, ?_, ?_⟩
  · exact (allSound_congr sameFront.symm 1 1).1 sound
  · have moved := lineError?_renumber (fun _ => before.length + 1) (front.length + 1) line
    rw [bad, lineError?_congr sameFields.symm] at moved
    exact moved

theorem firstError?_eq_some_iff {table : String} {error : GenerateError} :
    firstError? table = some error ↔ ∃ front line, FirstBad table front line error := by
  rw [firstError?, List.findSome?_eq_some_iff]
  constructor
  · rintro ⟨passed, numbered, rest, cut, bad, sound⟩
    obtain ⟨front, others, isCut, rfl, isRest⟩ := List.zipIdx_eq_append_iff.1 cut
    obtain ⟨line, back, rfl, rfl, -⟩ := List.zipIdx_eq_cons_iff.1 isRest.symm
    rw [Nat.add_comm] at bad
    refine ⟨front, line, ⟨back, isCut⟩, ?_, bad⟩
    exact fun numbered member => lineError?_eq_none_iff.1 (sound numbered member)
  · rintro ⟨front, line, ⟨back, cut⟩, sound, bad⟩
    rw [cut, List.zipIdx_append, List.zipIdx_cons, Nat.add_comm 1]
    refine ⟨_, _, _, rfl, bad, ?_⟩
    exact fun numbered member => lineError?_eq_none_iff.2 (sound numbered member)

end Table

namespace Generator

theorem conclude_eq_error_iff {outcome : Outcome} {error : GenerateError} :
    conclude outcome = .error error ↔ verdict outcome = .error error := by
  rcases outcome with ⟨fault | rules, last⟩
  · simp [conclude, verdict, Except.map]
  · simp [conclude, verdict, Except.map]

/-- Without skipping, the answer is an error exactly if there is a first bad line. -/
theorem generate_abort_eq_error_iff {generator : Generator} {table : String}
    {error : GenerateError} :
    generator.generate .abort table = .error error ↔
      ∃ front line, Table.FirstBad table front line error := by
  have ofTable := (generator.verdict_feed_abort generator table).2
  rw [generate_eq, conclude_eq_error_iff, ofTable, ← Table.firstError?_eq_some_iff, Table.verdict]
  cases Table.firstError? table <;> simp

theorem exists_generate_skip (generator : Generator) (table : String) :
    ∃ rules, generator.generate .skip table = .ok rules := by
  obtain ⟨rules, last, fed⟩ := generator.exists_feedEntries_skip (Table.entries table)
  rw [generate_eq, feed, fed]
  exact ⟨_, rfl⟩

theorem conclude_renumberOutcome (number : Nat → Nat) (outcome : Outcome) :
    conclude (renumberOutcome number outcome) =
      (conclude outcome).mapError (GenerateError.renumber number) := by
  rcases outcome with ⟨error | rules, last⟩
  · rfl
  · rfl

theorem generate_congr (generator : Generator) (policy : Policy) {table other : String}
    (sameFields : Table.SameFields (Table.lines table.toList) (Table.lines other.toList)) :
    generator.generate policy other = generator.generate policy table := by
  rw [generate_eq, generate_eq, feed, feed, Table.entries_congr sameFields]

/-- Where the lines of a table stand makes a difference to the line number of an error only. -/
theorem mapError_renumber_generate (generator : Generator) (policy : Policy) (table : String)
    (number : Nat → Nat) :
    (generator.generate policy table).mapError (GenerateError.renumber number) =
      conclude (generator.feedEntries policy
        ((Table.entries table).map (Table.renumberEntry number))) := by
  rw [feedEntries_map_renumberEntry, conclude_renumberOutcome]
  rfl

/-- Tables with the same rows have the same rules. -/
theorem generate_eq_ok_of_rows (generator : Generator) (policy : Policy) {table other : String}
    (sameRows : Table.rows (Table.lines table.toList) = Table.rows (Table.lines other.toList))
    {rules : List Rule} (generated : generator.generate policy table = .ok rules) :
    generator.generate policy other = .ok rules := by
  have numberless : (generator.generate policy other).mapError (GenerateError.renumber fun _ => 0) =
      (generator.generate policy table).mapError (GenerateError.renumber fun _ => 0) := by
    rw [mapError_renumber_generate, mapError_renumber_generate, Table.entries, Table.entries,
      Table.map_renumber_entriesFrom_congr sameRows 0 1 1]
  rw [generated] at numberless
  exact mapError_eq_ok_iff.1 numberless

/-- Tables with the same rows have the same error, about the same line, under the number that the
    line has in each. -/
theorem exists_firstBad_of_rows (generator : Generator) (policy : Policy) {table other : String}
    (sameRows : Table.rows (Table.lines table.toList) = Table.rows (Table.lines other.toList))
    {error : GenerateError} (failed : generator.generate policy table = .error error) :
    ∃ front line before changed, Table.FirstBad table front line error ∧
      error.line = front.length + 1 ∧
      Table.FirstBad other before changed (error.renumber fun _ => before.length + 1) ∧
      Table.rows front = Table.rows before ∧ Table.fields line = Table.fields changed ∧
      generator.generate policy other = .error (error.renumber fun _ => before.length + 1) := by
  cases policy with
  | skip =>
      obtain ⟨rules, generated⟩ := generator.exists_generate_skip table
      rw [generated] at failed
      cases failed
  | abort =>
      obtain ⟨front, line, firstBad⟩ := generate_abort_eq_error_iff.1 failed
      obtain ⟨before, changed, sameFront, sameFields, firstBadOther⟩ :=
        firstBad.exists_of_rows sameRows
      exact ⟨front, line, before, changed, firstBad, Table.line_of_lineError? firstBad.bad,
        firstBadOther, sameFront, sameFields,
        generate_abort_eq_error_iff.2 ⟨before, changed, firstBadOther⟩⟩

/-- Tables whose lines have the same fields lead to the same answer. So it makes no difference
    whether lines end in a line feed alone or have a carriage return before it, which blanks
    stand between the fields, whether there are blanks around a line, and whether a line feed
    ends the table. Blank lines may be put anywhere or taken away: the rules stay the same, and
    so does an error but for its line number, which remains that of the first bad line. -/
theorem generate_of_layout (generator : Generator) (policy : Policy) (table other : String) :
    (Table.SameFields (Table.lines table.toList) (Table.lines other.toList) →
      generator.generate policy other = generator.generate policy table) ∧
    generator.generate policy (Table.withReturns table) = generator.generate policy table ∧
    (Table.IsExchanged table.toList other.toList →
      generator.generate policy other = generator.generate policy table) ∧
    (List.Forall₂ Table.IsPadded (Table.lines table.toList) (Table.lines other.toList) →
      generator.generate policy other = generator.generate policy table) ∧
    generator.generate policy (table ++ "\n") = generator.generate policy table ∧
    (∀ front blanks back, (∀ line ∈ blanks, Table.AreBlanks line) →
      Table.rows (front ++ (blanks ++ back)) = Table.rows (front ++ back)) ∧
    (Table.rows (Table.lines table.toList) = Table.rows (Table.lines other.toList) →
      (∀ rules, generator.generate policy table = .ok rules ↔
        generator.generate policy other = .ok rules) ∧
      ∀ error, generator.generate policy table = .error error →
        ∃ front line before changed, Table.FirstBad table front line error ∧
          error.line = front.length + 1 ∧
          Table.FirstBad other before changed (error.renumber fun _ => before.length + 1) ∧
          Table.rows front = Table.rows before ∧ Table.fields line = Table.fields changed ∧
          generator.generate policy other =
            .error (error.renumber fun _ => before.length + 1)) := by
  refine ⟨?fields, ?returns, ?exchanged, ?padded, ?ended, ?blank, ?rows⟩
  case fields => exact generator.generate_congr policy
  case returns => exact generator.generate_congr policy (Table.sameFields_withReturns table)
  case exchanged =>
    intro exchanged
    exact generator.generate_congr policy (Table.sameFields_of_isExchanged exchanged)
  case padded =>
    intro padded
    exact generator.generate_congr policy (Table.sameFields_of_isPadded padded)
  case ended => rw [generate_eq, generate_eq, feed, feed, Table.entries_append_newline]
  case blank =>
    intro front blanks back areBlank
    rw [Table.rows_append, Table.rows_append, Table.rows_of_blank areBlank, List.nil_append,
      Table.rows_append]
  case rows =>
    intro sameRows
    refine ⟨?_, fun error failed => generator.exists_firstBad_of_rows policy sameRows failed⟩
    intro rules
    constructor
    · exact generator.generate_eq_ok_of_rows policy sameRows
    · exact generator.generate_eq_ok_of_rows policy sameRows.symm

end Generator

end SymbolRules
