import SymbolRules.Proofs.Generator.BadLines

/-!
# The verdict on a table

Whether a table is taken without skipping, and if not for which error, can be read off its lines
(`Table.verdict`). So it is the same for all generators: neither their configurations nor the
symbols collected before make a difference (`Generator.verdict_feed_abort`).
-/

namespace SymbolRules

namespace Table

/-- What is wrong with the first bad line of a table, if there is one. -/
def firstError? (table : String) : Option GenerateError :=
  ((lines table.toList).zipIdx 1).findSome? fun numbered => lineError? numbered.2 numbered.1

/-- A table is accepted unless it has a bad line, and the first one gives the error. -/
def verdict (table : String) : Except GenerateError Unit :=
  (firstError? table).elim (.ok ()) .error

theorem findSome?_entriesFrom_singleton (number : Nat) (text : List Char) :
    (entriesFrom number [text]).findSome? entryError? = lineError? number text := by
  cases bad : lineError? number text with
  | some error =>
      obtain ⟨entry, only, failing⟩ := entriesFrom_singleton_of_lineError? bad
      simp [only, failing]
  | none =>
      have sound := entryError?_of_not_isBad (lineError?_eq_none_iff.1 bad)
      rw [List.findSome?_eq_none_iff]
      exact sound

/-- The first entry that fails comes from the first bad line. -/
theorem findSome?_entriesFrom (first : Nat) (texts : List (List Char)) :
    (entriesFrom first texts).findSome? entryError? =
      (texts.zipIdx first).findSome? fun numbered => lineError? numbered.2 numbered.1 := by
  induction texts generalizing first with
  | nil => rfl
  | cons text rest ih =>
      rw [entriesFrom_cons, List.findSome?_append, findSome?_entriesFrom_singleton, ih,
        List.zipIdx_cons, List.findSome?_cons]
      cases lineError? first text <;> rfl

end Table

namespace Generator

/-- Whether a run succeeded, and if not with which error. -/
def verdict (outcome : Outcome) : Except GenerateError Unit := outcome.1.map fun _ => ()

/-- A run that does not skip ends with the error of the first entry that has one, wherever it
    started from. -/
theorem verdict_feedEntries_abort (generator : Generator)
    (entries : List (Except Malformed Record)) :
    verdict (generator.feedEntries .abort entries) =
      (entries.findSome? entryError?).elim (.ok ()) .error := by
  rw [feedEntries_eq, verdict, endingError?]
  cases entries.findSome? entryError? <;> rfl

/-- Two generators accept the same tables and report the same errors, whatever their
    configurations and whatever they have collected: the verdict is that of the table. -/
theorem verdict_feed_abort (first second : Generator) (table : String) :
    verdict (first.feed .abort table) = verdict (second.feed .abort table) ∧
      verdict (first.feed .abort table) = Table.verdict table := by
  have ofTable : ∀ generator : Generator,
      verdict (generator.feed .abort table) = Table.verdict table := by
    intro generator
    rw [feed, verdict_feedEntries_abort, Table.entries, Table.findSome?_entriesFrom]
    rfl
  exact ⟨(ofTable first).trans (ofTable second).symm, ofTable first⟩

end Generator

end SymbolRules
