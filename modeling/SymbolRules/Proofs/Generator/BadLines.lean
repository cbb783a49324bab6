import SymbolRules.Proofs.Generator.Run

/-!
# Bad lines

A line is bad if it cannot be read as a record or if its record has a code point that is not a
scalar value. Such a line leaves no trace: skipping bad lines is the same as leaving them blank,
and without skipping the first of them ends the run where the lines before it led
(`Generator.feed_bad_lines`).
-/

namespace SymbolRules

namespace Table

/-- A line that cannot be read as a record, or whose record has a code point that is not a
    scalar value. -/
def IsBad (number : Nat) (line : List Char) : Prop :=
  (∃ malformed, Record.ofLine number line = .error malformed) ∨
    ∃ record, Record.ofLine number line = .ok (some record) ∧
      ∃ codePoint ∈ record.codePoints, ¬ IsScalar codePoint.toNat

/-- What is wrong with a line: how it is malformed, or its first code point that is not a scalar
    value. -/
def lineError? (number : Nat) (line : List Char) : Option GenerateError :=
  match Record.ofLine number line with
  | .error malformed => some (.malformed malformed)
  | .ok none => none
  | .ok (some record) =>
      record.firstInvalid?.map fun codePoint => .invalidCodePoint number ⟨codePoint.toNat⟩

theorem lineError?_eq_none_iff {number : Nat} {line : List Char} :
    lineError? number line = none ↔ ¬ IsBad number line := by
  unfold lineError? IsBad
  cases read : Record.ofLine number line with
  | error malformed => simp
  | ok found =>
      cases found with
      | none => simp
      | some record => simp [Record.firstInvalid?]

theorem isBad_iff {number : Nat} {line : List Char} :
    IsBad number line ↔ ∃ error, lineError? number line = some error := by
  rw [← not_iff_not, ← lineError?_eq_none_iff, Option.eq_none_iff_forall_ne_some, not_exists]

instance (number : Nat) (line : List Char) : Decidable (IsBad number line) :=
  decidable_of_iff (lineError? number line ≠ none) <| by
    rw [ne_eq, lineError?_eq_none_iff, not_not]

/-- A line is blamed under its own number. -/
theorem line_of_lineError? {number : Nat} {line : List Char} {error : GenerateError}
    (bad : lineError? number line = some error) : error.line = number := by
  unfold lineError? at bad
  split at bad
  · rename_i malformed unread
    obtain rfl := Option.some.inj bad
    exact Record.line_of_malformed unread
  · cases bad
  · obtain ⟨codePoint, -, rfl⟩ := Option.map_eq_some_iff.1 bad
    rfl

/-- A bad line contributes one entry, which fails for the reason that is wrong with the line. -/
theorem entriesFrom_singleton_of_lineError? {number : Nat} {line : List Char}
    {error : GenerateError} (bad : lineError? number line = some error) :
    ∃ entry, entriesFrom number [line] = [entry] ∧ entryError? entry = some error := by
  rw [entriesFrom_singleton]
  unfold lineError? at bad
  split at bad
  · rename_i malformed unread
    obtain rfl := Option.some.inj bad
    rw [unread]
    exact ⟨_, rfl, rfl⟩
  · cases bad
  · rename_i record read
    obtain ⟨codePoint, invalid, rfl⟩ := Option.map_eq_some_iff.1 bad
    have unwritten := Record.escaped_eq_error_iff.2 ⟨codePoint, invalid, rfl⟩
    rw [read]
    refine ⟨_, rfl, ?_⟩
    rw [entryError?, unwritten, Record.line_of_ofLine read]

/-- A line that is not bad contributes sound entries only. -/
theorem entryError?_of_not_isBad {number : Nat} {line : List Char} (sound : ¬ IsBad number line) :
    ∀ entry ∈ entriesFrom number [line], entryError? entry = none := by
  rw [entriesFrom_singleton]
  unfold IsBad at sound
  push Not at sound
  cases read : Record.ofLine number line with
  | error malformed => exact absurd read (sound.1 malformed)
  | ok found =>
      cases found with
      | none => simp
      | some record =>
          obtain ⟨text, written⟩ := Record.exists_escaped_iff.2 (sound.2 record read)
          simp [entryError?, written]

/-- No line of a list is bad, if the first has the given number. -/
def AllSound (first : Nat) (texts : List (List Char)) : Prop :=
  ∀ numbered ∈ texts.zipIdx first, ¬ IsBad numbered.2 numbered.1

theorem allSound_cons {first : Nat} {text : List Char} {rest : List (List Char)} :
    AllSound first (text :: rest) ↔ ¬ IsBad first text ∧ AllSound (first + 1) rest := by
  simp [AllSound, List.zipIdx_cons]

theorem allSound_iff {first : Nat} {texts : List (List Char)} :
    AllSound first texts ↔ ∀ entry ∈ entriesFrom first texts, entryError? entry = none := by
  induction texts generalizing first with
  | nil => simp [AllSound, entriesFrom]
  | cons text rest ih =>
      rw [allSound_cons, ih, entriesFrom_cons]
      constructor
      · rintro ⟨sound, later⟩ entry member
        rcases List.mem_append.1 member with here | below
        · exact entryError?_of_not_isBad sound entry here
        · exact later entry below
      · intro sound
        refine ⟨fun bad => ?_, fun entry member => sound entry (List.mem_append_right _ member)⟩
        obtain ⟨error, isError⟩ := isBad_iff.1 bad
        obtain ⟨entry, only, failing⟩ := entriesFrom_singleton_of_lineError? isError
        have none := sound entry (by simp [only])
        rw [failing] at none
        cases none

/-- If a line is bad, then there is a first one. -/
theorem exists_first_bad {first : Nat} {texts : List (List Char)}
    (bad : ¬ AllSound first texts) :
    ∃ front text back, texts = front ++ text :: back ∧ AllSound first front ∧
      IsBad (first + front.length) text := by
  induction texts generalizing first with
  | nil => simp [AllSound] at bad
  | cons text rest ih =>
      by_cases isBad : IsBad first text
      · exact ⟨[], text, rest, rfl, by simp [AllSound], isBad⟩
      · have later : ¬ AllSound (first + 1) rest := fun sound =>
          bad (allSound_cons.2 ⟨isBad, sound⟩)
        obtain ⟨front, other, back, rfl, sound, isBadLater⟩ := ih later
        refine ⟨text :: front, other, back, rfl, allSound_cons.2 ⟨isBad, sound⟩, ?_⟩
        rw [List.length_cons, Nat.add_comm front.length 1, ← Nat.add_assoc]
        exact isBadLater

/-- The same lines, except that bad ones are blank: they have no fields. -/
def Blanked (first : Nat) (texts others : List (List Char)) : Prop :=
  List.Forall₂ (fun numbered other =>
    (IsBad numbered.2 numbered.1 → fields other = []) ∧
      (¬ IsBad numbered.2 numbered.1 → other = numbered.1)) (texts.zipIdx first) others

/-- Leaving bad lines blank drops their entries and no others. -/
theorem entriesFrom_blanked {first : Nat} {texts others : List (List Char)}
    (blanked : Blanked first texts others) :
    entriesFrom first others = (entriesFrom first texts).filter isSound := by
  induction texts generalizing first others with
  | nil =>
      obtain rfl := List.forall₂_nil_left_iff.1 blanked
      rfl
  | cons text rest ih =>
      obtain ⟨other, later, ⟨whenBad, whenSound⟩, blankedLater, rfl⟩ :=
        List.forall₂_cons_left_iff.1 blanked
      rw [entriesFrom_cons, entriesFrom_cons first text, List.filter_append, ih blankedLater]
      congr 1
      by_cases bad : IsBad first text
      · obtain ⟨error, isError⟩ := isBad_iff.1 bad
        obtain ⟨entry, only, failing⟩ := entriesFrom_singleton_of_lineError? isError
        have dropped : isSound entry = false := by simp [isSound, failing]
        have blank : Record.ofLine first other = .ok none := by
          rw [Record.ofLine, whenBad bad]
          rfl
        rw [only, entriesFrom_singleton, blank]
        simp [dropped]
      · have kept : (entriesFrom first [text]).filter isSound = entriesFrom first [text] := by
          rw [List.filter_eq_self]
          intro entry member
          simp [isSound, entryError?_of_not_isBad bad entry member]
        rw [whenSound bad, kept]

/-- The table in which every bad line is blank. -/
def blankBadLines (table : String) : String :=
  ofLines (((lines table.toList).zipIdx 1).map fun numbered =>
    if IsBad numbered.2 numbered.1 then [] else numbered.1)

theorem blanked_blankBadLines (table : String) :
    Blanked 1 (lines table.toList) (lines (blankBadLines table).toList) := by
  have nonempty : lines table.toList ≠ [] := Text.splitWhen_ne_nil _
  rw [blankBadLines, lines_ofLines]
  · rw [Blanked, List.forall₂_map_right_iff, List.forall₂_same]
    intro numbered _
    refine ⟨fun bad => ?_, fun sound => if_neg sound⟩
    rw [if_pos bad]
    rfl
  · simpa using nonempty
  · intro line isLine
    obtain ⟨numbered, member, rfl⟩ := List.mem_map.1 isLine
    split
    · simp
    · exact newline_notMem_of_mem_lines (List.fst_mem_of_mem_zipIdx member)

end Table

namespace Generator

/-- Skipping bad entries is the same as not having them. -/
theorem feedEntries_skip_eq (generator : Generator) (entries : List (Except Malformed Record)) :
    generator.feedEntries .skip entries =
      generator.feedEntries .abort (entries.filter isSound) := by
  have sound : ∀ entry ∈ entries.filter isSound, isSound entry = true :=
    fun _ member => (List.mem_filter.1 member).2
  have noError : endingError? .abort (entries.filter isSound) = none := by
    rw [endingError?, List.findSome?_eq_none_iff]
    exact fun entry member => Option.isNone_iff_eq_none.1 (sound entry member)
  have takesAll : takenEntries .abort (entries.filter isSound) = entries.filter isSound :=
    List.takeWhile_eq_self_iff.2 sound
  rw [feedEntries_eq, feedEntries_eq, Config.symbolsOfEntries, Config.symbolsOfEntries, noError,
    takesAll]
  rfl

/-- Sound entries are taken alike under both policies. -/
theorem feedEntries_abort_of_sound {entries : List (Except Malformed Record)}
    (sound : ∀ entry ∈ entries, entryError? entry = none) (generator : Generator) :
    generator.feedEntries .abort entries = generator.feedEntries .skip entries := by
  have kept : entries.filter isSound = entries := by
    rw [List.filter_eq_self]
    intro entry member
    rw [isSound, sound entry member]
    rfl
  rw [feedEntries_skip_eq, kept]

/-- The first bad entry ends a run that does not skip, and leaves the generator as it was. -/
theorem feedEntries_abort_of_first_bad {front : List (Except Malformed Record)}
    {entry : Except Malformed Record} {error : GenerateError}
    (sound : ∀ other ∈ front, entryError? other = none) (failing : entryError? entry = some error)
    (back : List (Except Malformed Record)) (generator : Generator) :
    ∃ rules last, generator.feedEntries .abort front = (.ok rules, last) ∧
      generator.feedEntries .abort (front ++ entry :: back) = (.error error, last) := by
  obtain ⟨rules, last, fed⟩ := exists_feedEntries_of_sound .abort sound generator
  refine ⟨rules, last, fed, ?_⟩
  have taken := last.take_of_entryError? failing
  rw [feedEntries_append, fed, andThen_ok, feedEntries_abort_cons_of_error taken]
  rfl

/-- Skipping succeeds, and does what a run without skipping does on the table with its bad lines
    left blank. -/
theorem exists_feed_skip (generator : Generator) (table : String) :
    ∃ rules last, generator.feed .skip table = (.ok rules, last) ∧
      ∀ cleaned, Table.Blanked 1 (Table.lines table.toList) (Table.lines cleaned.toList) →
        generator.feed .abort cleaned = (.ok rules, last) := by
  obtain ⟨rules, last, fed⟩ := generator.exists_feedEntries_skip (Table.entries table)
  refine ⟨rules, last, fed, ?_⟩
  intro cleaned blanked
  rw [feed, Table.entries, Table.entriesFrom_blanked blanked, ← feedEntries_skip_eq]
  exact fed

theorem feed_abort_of_allSound {table : String}
    (sound : Table.AllSound 1 (Table.lines table.toList)) (generator : Generator) :
    generator.feed .abort table = generator.feed .skip table :=
  feedEntries_abort_of_sound (Table.allSound_iff.1 sound) generator

theorem feed_abort_of_not_allSound {table : String}
    (unsound : ¬ Table.AllSound 1 (Table.lines table.toList)) (generator : Generator) :
    ∃ front line back error rules last, Table.lines table.toList = front ++ line :: back ∧
      Table.AllSound 1 front ∧ Table.IsBad (front.length + 1) line ∧
      Table.lineError? (front.length + 1) line = some error ∧
      generator.feed .abort (Table.ofLines front) = (.ok rules, last) ∧
      generator.feed .abort table = (.error error, last) := by
  obtain ⟨front, line, back, cut, sound, bad⟩ := Table.exists_first_bad unsound
  rw [Nat.add_comm] at bad
  obtain ⟨error, isError⟩ := Table.isBad_iff.1 bad
  obtain ⟨entry, only, failing⟩ := Table.entriesFrom_singleton_of_lineError? isError
  have entries : Table.entries table =
      Table.entriesFrom 1 front ++ entry :: Table.entriesFrom (front.length + 1 + 1) back := by
    rw [Table.entries, cut, Table.entriesFrom_append, Table.entriesFrom_cons,
      Nat.add_comm 1 front.length, only]
    rfl
  have whole : ∀ other ∈ front, '\n' ∉ other := by
    intro other member
    have isLine : other ∈ Table.lines table.toList := by simp [cut, member]
    exact Table.newline_notMem_of_mem_lines isLine
  obtain ⟨rules, last, fed, ended⟩ := feedEntries_abort_of_first_bad (Table.allSound_iff.1 sound)
    failing (Table.entriesFrom (front.length + 1 + 1) back) generator
  refine ⟨front, line, back, error, rules, last, cut, sound, bad, isError, ?_, ?_⟩
  · rw [feed, Table.entries_ofLines whole, fed]
  · rw [feed, entries, ended]

/-- Skipping always succeeds, and is the same as feeding the table with its bad lines left blank.
    Without skipping, feeding succeeds exactly if no line is bad, and then does the same.
    Otherwise the first bad line is reported under its own number, and the generator stays as the
    lines before it have left it. -/
theorem feed_bad_lines (generator : Generator) (table : String) :
    (∃ rules last, generator.feed .skip table = (.ok rules, last) ∧
      ∀ cleaned, Table.Blanked 1 (Table.lines table.toList) (Table.lines cleaned.toList) →
        generator.feed .abort cleaned = (.ok rules, last)) ∧
    Table.Blanked 1 (Table.lines table.toList)
      (Table.lines (Table.blankBadLines table).toList) ∧
    ((∃ rules, (generator.feed .abort table).1 = .ok rules) ↔
      Table.AllSound 1 (Table.lines table.toList)) ∧
    (Table.AllSound 1 (Table.lines table.toList) →
      generator.feed .abort table = generator.feed .skip table) ∧
    (¬ Table.AllSound 1 (Table.lines table.toList) →
      ∃ front line back error rules last, Table.lines table.toList = front ++ line :: back ∧
        Table.AllSound 1 front ∧ Table.IsBad (front.length + 1) line ∧
        Table.lineError? (front.length + 1) line = some error ∧
        error.line = front.length + 1 ∧
        generator.feed .abort (Table.ofLines front) = (.ok rules, last) ∧
        generator.feed .abort table = (.error error, last)) := by
  have skipped := generator.exists_feed_skip table
  refine ⟨skipped, Table.blanked_blankBadLines table, ⟨?_, ?_⟩,
    fun sound => feed_abort_of_allSound sound generator, ?_⟩
  · rintro ⟨rules, succeeded⟩
    by_contra unsound
    obtain ⟨_, _, _, error, _, last, -, -, -, -, -, failed⟩ :=
      feed_abort_of_not_allSound unsound generator
    rw [failed] at succeeded
    cases succeeded
  · intro sound
    obtain ⟨rules, last, fed, -⟩ := skipped
    exact ⟨rules, by rw [feed_abort_of_allSound sound, fed]⟩
  · intro unsound
    obtain ⟨front, line, back, error, rules, last, cut, sound, bad, isError, fed, failed⟩ :=
      feed_abort_of_not_allSound unsound generator
    exact ⟨front, line, back, error, rules, last, cut, sound, bad, isError,
      Table.line_of_lineError? isError, fed, failed⟩

end Generator

end SymbolRules
