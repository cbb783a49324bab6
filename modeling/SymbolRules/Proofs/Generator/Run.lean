import SymbolRules.Proofs.Generator.Step
import SymbolRules.Proofs.Table.Lines

/-!
# Runs of a generator

A generator that works through several items gives the rules of each, up to the first that
fails, and stays as it was left there (`Generator.runAll`). Feeding the entries of a table is
such a run, so it can be cut anywhere (`feedEntries_append`). Where the entries stand makes a
difference to the line number of an error only (`feedEntries_map_renumberEntry`).
-/

namespace SymbolRules

namespace GenerateError

/-- The number of the line that an error is about. -/
def line : GenerateError → Nat
  | malformed fault => fault.line
  | invalidCodePoint line _ => line

/-- The same error about a line with another number. -/
def renumber (number : Nat → Nat) : GenerateError → GenerateError
  | malformed fault => .malformed (fault.renumber number)
  | invalidCodePoint line fault => .invalidCodePoint (number line) fault

/-- The same error about a line that stands further down. -/
def shift (offset : Nat) (error : GenerateError) : GenerateError := error.renumber (· + offset)

end GenerateError

namespace Generator

/-- The rules or the error of a run, and the generator that the run leaves. -/
abbrev Outcome := Except GenerateError (List Rule) × Generator

/-- Goes on with the generator that a first part leaves, unless that part failed. -/
def andThen (first : Outcome) (next : Generator → Outcome) : Outcome :=
  match first with
  | (.ok rules, generator) => ((next generator).1.map (rules ++ ·), (next generator).2)
  | (.error error, generator) => (.error error, generator)

@[simp] theorem andThen_ok (rules : List Rule) (generator : Generator)
    (next : Generator → Outcome) :
    andThen (.ok rules, generator) next =
      ((next generator).1.map (rules ++ ·), (next generator).2) := rfl

@[simp] theorem andThen_error (error : GenerateError) (generator : Generator)
    (next : Generator → Outcome) :
    andThen (.error error, generator) next = (.error error, generator) := rfl

theorem andThen_ok_nil (generator : Generator) (next : Generator → Outcome) :
    andThen (.ok [], generator) next = next generator := by
  rcases ended : next generator with ⟨_ | rules, last⟩
  · simp [ended, Except.map]
  · simp [ended, Except.map]

theorem andThen_assoc (first : Outcome) (second third : Generator → Outcome) :
    andThen (andThen first second) third =
      andThen first fun generator => andThen (second generator) third := by
  rcases first with ⟨error | rules, generator⟩
  · rfl
  · rcases middle : second generator with ⟨error | others, next⟩
    · simp [middle, Except.map]
    · rcases ended : third next with ⟨error | more, last⟩
      · simp [middle, ended, Except.map]
      · simp [middle, ended, Except.map]

variable {α β : Type}

/-- Takes a step for each item in turn, up to the first step that fails. -/
def runAll (step : Generator → α → Outcome) (generator : Generator) : List α → Outcome
  | [] => (.ok [], generator)
  | item :: rest => andThen (step generator item) fun next => runAll step next rest

theorem runAll_append (step : Generator → α → Outcome) (generator : Generator)
    (front back : List α) :
    runAll step generator (front ++ back) =
      andThen (runAll step generator front) fun next => runAll step next back := by
  induction front generalizing generator with
  | nil => exact (andThen_ok_nil generator fun next => runAll step next back).symm
  | cons item front ih => simp only [List.cons_append, runAll, ih, andThen_assoc]

/-- A policy's view of what an item comes to: an error that is skipped gives no rules. -/
def settle (policy : Policy) (outcome : Outcome) : Outcome :=
  match policy, outcome with
  | .skip, (.error _, generator) => (.ok [], generator)
  | _, _ => outcome

theorem settle_ok (policy : Policy) (rules : List Rule) (generator : Generator) :
    settle policy (.ok rules, generator) = (.ok rules, generator) := by
  cases policy <;> rfl

theorem settle_abort (outcome : Outcome) : settle .abort outcome = outcome := rfl

theorem settle_skip_error (error : GenerateError) (generator : Generator) :
    settle .skip (.error error, generator) = (.ok [], generator) := rfl

/-- Feeding entries is a run that takes them one by one. -/
theorem feedEntries_eq_runAll (generator : Generator) (policy : Policy)
    (entries : List (Except Malformed Record)) :
    generator.feedEntries policy entries =
      runAll (fun current entry => settle policy (current.take entry)) generator entries := by
  induction entries generalizing generator with
  | nil => rfl
  | cons entry entries ih =>
      rw [runAll]
      rcases taken : generator.take entry with ⟨error | rules, next⟩
      · cases policy with
        | abort => rw [feedEntries_abort_cons_of_error taken, settle_abort, andThen_error]
        | skip => rw [feedEntries_skip_cons_of_error taken, settle_skip_error, andThen_ok_nil, ih]
      · rw [feedEntries_cons_of_ok taken, settle_ok, andThen_ok, ih]

/-- Entries can be fed in two parts. -/
theorem feedEntries_append (generator : Generator) (policy : Policy)
    (front back : List (Except Malformed Record)) :
    generator.feedEntries policy (front ++ back) =
      andThen (generator.feedEntries policy front) fun next => next.feedEntries policy back := by
  simp only [feedEntries_eq_runAll, runAll_append]

/-- Sound entries are all taken, whatever the policy. -/
theorem exists_feedEntries_of_sound (policy : Policy)
    {entries : List (Except Malformed Record)} (sound : ∀ entry ∈ entries, entryError? entry = none)
    (generator : Generator) :
    ∃ rules last, generator.feedEntries policy entries = (.ok rules, last) := by
  have noError : endingError? policy entries = none := by
    cases policy with
    | abort => exact List.findSome?_eq_none_iff.2 sound
    | skip => rfl
  rw [feedEntries_eq, noError]
  exact ⟨_, _, rfl⟩

/-- Skipping never fails. -/
theorem exists_feedEntries_skip (generator : Generator) (entries : List (Except Malformed Record)) :
    ∃ rules last, generator.feedEntries .skip entries = (.ok rules, last) :=
  ⟨_, _, generator.feedEntries_eq .skip entries⟩

/-- The same outcome for items on lines with other numbers. -/
def renumberOutcome (number : Nat → Nat) (outcome : Outcome) : Outcome :=
  (outcome.1.mapError (GenerateError.renumber number), outcome.2)

theorem andThen_renumberOutcome (number : Nat → Nat) (first : Outcome)
    (next : Generator → Outcome) :
    andThen (renumberOutcome number first)
        (fun generator => renumberOutcome number (next generator)) =
      renumberOutcome number (andThen first next) := by
  rcases first with ⟨error | rules, generator⟩
  · rfl
  · rcases ended : next generator with ⟨error | others, last⟩
    · simp [renumberOutcome, ended, Except.mapError, Except.map]
    · simp [renumberOutcome, ended, Except.mapError, Except.map]

theorem settle_renumberOutcome (number : Nat → Nat) (policy : Policy) (outcome : Outcome) :
    settle policy (renumberOutcome number outcome) =
      renumberOutcome number (settle policy outcome) := by
  rcases outcome with ⟨error | rules, generator⟩
  · cases policy <;> rfl
  · cases policy <;> rfl

theorem entryError?_renumberEntry (number : Nat → Nat) (entry : Except Malformed Record) :
    entryError? (Table.renumberEntry number entry) =
      (entryError? entry).map (GenerateError.renumber number) := by
  cases entry with
  | error malformed => rfl
  | ok record =>
      have sameText : (record.renumber number).escaped = record.escaped := rfl
      simp only [Table.renumberEntry, Except.map, Except.mapError, entryError?, sameText]
      cases record.escaped <;> rfl

theorem take_renumberEntry (generator : Generator) (number : Nat → Nat)
    (entry : Except Malformed Record) :
    generator.take (Table.renumberEntry number entry) =
      renumberOutcome number (generator.take entry) := by
  have moved := entryError?_renumberEntry number entry
  cases failing : entryError? entry with
  | some error =>
      rw [failing] at moved
      rw [take_of_entryError? generator failing, take_of_entryError? generator moved]
      rfl
  | none =>
      rw [failing] at moved
      obtain ⟨record, rfl, taken⟩ := generator.take_of_no_entryError? failing
      obtain ⟨other, isRenumbered, takenToo⟩ := generator.take_of_no_entryError? moved
      obtain rfl := Except.ok.inj isRenumbered
      rw [taken, takenToo]
      rfl

/-- Entries on lines with other numbers lead to the same rules and the same generator, and to the
    same error but for the number of its line. -/
theorem feedEntries_map_renumberEntry (generator : Generator) (policy : Policy)
    (number : Nat → Nat) (entries : List (Except Malformed Record)) :
    generator.feedEntries policy (entries.map (Table.renumberEntry number)) =
      renumberOutcome number (generator.feedEntries policy entries) := by
  simp only [feedEntries_eq_runAll]
  induction entries generalizing generator with
  | nil => rfl
  | cons entry entries ih =>
      simp only [List.map_cons, runAll, take_renumberEntry, settle_renumberOutcome, ih,
        andThen_renumberOutcome]

end Generator

end SymbolRules
