import SymbolRules.Proofs.Table.Lines
import SymbolRules.Proofs.Table.Writing

/-!
# The layout of a table

Of a line only its fields count, so blanks may be exchanged, added or left out wherever the fields
stay the same (`Table.entries_congr`). Blank lines have no entry, so but for the numbers of their
lines the entries of a table are those of its rows (`Table.map_renumber_entriesFrom`).
-/

namespace SymbolRules

namespace Text

/-- Texts that agree in where they are cut are cut into related pieces. -/
theorem forall₂_splitWhen {cut : Char → Bool} {r : Char → Char → Prop}
    (sameCut : ∀ c d, r c d → cut c = cut d) {text other : List Char}
    (related : List.Forall₂ r text other) :
    List.Forall₂ (List.Forall₂ fun c d => r c d ∧ cut c = false) (splitWhen cut text)
      (splitWhen cut other) := by
  induction related with
  | nil => exact .cons .nil .nil
  | @cons c d text other first later ih =>
      rw [splitWhen_cons, splitWhen_cons, ← sameCut c d first]
      by_cases isCut : cut c = true
      · rw [if_pos isCut, if_pos isCut]
        exact .cons .nil ih
      · rw [if_neg isCut, if_neg isCut]
        have kept := Bool.eq_false_iff.2 isCut
        generalize splitWhen cut text = pieces at ih
        generalize splitWhen cut other = others at ih
        cases ih with
        | nil => exact .cons (.cons ⟨first, kept⟩ .nil) .nil
        | cons piece later => exact .cons (.cons ⟨first, kept⟩ piece) later

end Text

namespace Table

/-- A blank that does not end a line. -/
def IsGap (c : Char) : Prop := isBlank c = true ∧ c ≠ '\n'

/-- A text in which blanks may have been exchanged for others, but not line feeds. -/
def IsExchanged (text other : List Char) : Prop :=
  List.Forall₂ (fun c d => c = d ∨ IsGap c ∧ IsGap d) text other

/-- A line with blanks added behind it. -/
def IsTrailed (line trailed : List Char) : Prop := ∃ back, AreBlanks back ∧ trailed = line ++ back

/-- A line with blanks added in front of it and behind it. -/
def IsPadded (line padded : List Char) : Prop :=
  ∃ front trailed, AreBlanks front ∧ IsTrailed line trailed ∧ padded = front ++ trailed

/-- A line feed with a carriage return in front of it, or another character alone. -/
def withReturn (c : Char) : List Char := if c = '\n' then ['\r', '\n'] else [c]

/-- A table with a carriage return in front of each line feed. -/
def withReturns (table : String) : String := String.ofList (table.toList.flatMap withReturn)

/-- Lines that have the same fields, one by one. -/
def SameFields (texts others : List (List Char)) : Prop :=
  List.Forall₂ (fun text other => fields text = fields other) texts others

/-- The rows of some lines: the fields of each line that has any. -/
def rows (texts : List (List Char)) : List (List (List Char)) :=
  (texts.map fields).filter (!·.isEmpty)

/-- What a line with the given number and fields contributes. -/
def rowEntries (number : Nat) (row : List (List Char)) : List (Except Malformed Record) :=
  match Record.ofFields number row with
  | .ok none => []
  | .ok (some record) => [.ok record]
  | .error malformed => [.error malformed]

theorem entriesFrom_singleton_eq (number : Nat) (text : List Char) :
    entriesFrom number [text] = rowEntries number (fields text) :=
  entriesFrom_singleton number text

/-- A blank ends a field, if there is one before it. -/
theorem fields_append_cons {c : Char} (blank : isBlank c = true) (front back : List Char) :
    fields (front ++ c :: back) = fields front ++ fields back := by
  rw [fields, Text.splitWhen_append_cons blank, List.filter_append]
  rfl

theorem fields_of_isTrailed {line trailed : List Char} (isTrailed : IsTrailed line trailed) :
    fields line = fields trailed := by
  obtain ⟨back, blanks, rfl⟩ := isTrailed
  cases back with
  | nil => rw [List.append_nil]
  | cons c back =>
      obtain ⟨blank, later⟩ := List.forall_mem_cons.1 blanks
      rw [fields_append_cons blank, fields_of_areBlanks later, List.append_nil]

theorem fields_of_isPadded {line padded : List Char} (isPadded : IsPadded line padded) :
    fields line = fields padded := by
  obtain ⟨front, trailed, leading, isTrailed, rfl⟩ := isPadded
  rw [fields_append_of_areBlanks leading, fields_of_isTrailed isTrailed]

/-- Blanks may be exchanged for others. -/
theorem fields_of_isExchanged {text other : List Char} (exchanged : IsExchanged text other) :
    fields text = fields other := by
  have sameCut : ∀ c d, (c = d ∨ IsGap c ∧ IsGap d) → isBlank c = isBlank d := by
    intro c d related
    rcases related with rfl | ⟨first, second⟩
    · rfl
    · rw [first.1, second.1]
  have pieces : Text.splitWhen isBlank text = Text.splitWhen isBlank other := by
    rw [← List.forall₂_eq_eq_eq]
    refine (Text.forall₂_splitWhen sameCut exchanged).imp ?_
    intro piece changed related
    rw [← List.forall₂_eq_eq_eq]
    refine related.imp ?_
    intro c d ⟨same, solid⟩
    rcases same with rfl | ⟨blank, -⟩
    · rfl
    · rw [blank.1] at solid
      cases solid
  rw [fields, fields, pieces]

section SameFields

/-- Lines with the same fields have the same entries. -/
theorem entriesFrom_congr {texts others : List (List Char)} (sameFields : SameFields texts others)
    (first : Nat) : entriesFrom first texts = entriesFrom first others := by
  induction sameFields generalizing first with
  | nil => rfl
  | @cons text other texts others same later ih =>
      rw [entriesFrom_cons, entriesFrom_cons first other, entriesFrom_singleton_eq,
        entriesFrom_singleton_eq, same, ih]

theorem entries_congr {table other : String}
    (sameFields : SameFields (lines table.toList) (lines other.toList)) :
    entries table = entries other :=
  entriesFrom_congr sameFields 1

theorem sameFields_of_isPadded {texts others : List (List Char)}
    (padded : List.Forall₂ IsPadded texts others) : SameFields texts others :=
  padded.imp fun _ _ => fields_of_isPadded

/-- Exchanging blanks leaves the line feeds where they are. -/
theorem sameFields_of_isExchanged {text other : List Char} (exchanged : IsExchanged text other) :
    SameFields (lines text) (lines other) := by
  have sameCut : ∀ c d, (c = d ∨ IsGap c ∧ IsGap d) → (c == '\n') = (d == '\n') := by
    intro c d related
    rcases related with rfl | ⟨first, second⟩
    · rfl
    · rw [beq_eq_false_iff_ne.2 first.2, beq_eq_false_iff_ne.2 second.2]
  refine (Text.forall₂_splitWhen sameCut exchanged).imp ?_
  intro line changed related
  exact fields_of_isExchanged (related.imp fun c d same => same.1)

theorem isTrailed_refl (line : List Char) : IsTrailed line line :=
  ⟨[], by simp [AreBlanks], (List.append_nil line).symm⟩

/-- The first line remains trailed with another character in front. -/
theorem forall₂_isTrailed_consFirst (c : Char) {texts others : List (List Char)}
    (trailed : List.Forall₂ IsTrailed texts others) :
    List.Forall₂ IsTrailed (Text.consFirst c texts) (Text.consFirst c others) := by
  cases trailed with
  | nil => exact .cons (isTrailed_refl [c]) .nil
  | cons first later =>
      obtain ⟨back, blanks, rfl⟩ := first
      exact .cons ⟨back, blanks, rfl⟩ later

/-- In front of a line feed a carriage return belongs to the line. -/
theorem forall₂_isTrailed_withReturns (text : List Char) :
    List.Forall₂ IsTrailed (lines text) (lines (text.flatMap withReturn)) := by
  unfold lines
  induction text with
  | nil => exact .cons (isTrailed_refl []) .nil
  | cons c text ih =>
      rw [List.flatMap_cons, Text.splitWhen_cons]
      by_cases newline : c = '\n'
      · subst newline
        have returned : IsTrailed [] ['\r'] := ⟨['\r'], by simp [AreBlanks, isBlank], rfl⟩
        exact .cons returned ih
      · have kept : withReturn c = [c] := if_neg newline
        rw [if_neg (by simpa using newline), kept, List.singleton_append, Text.splitWhen_cons,
          if_neg (by simpa using newline)]
        exact forall₂_isTrailed_consFirst c ih

theorem sameFields_withReturns (table : String) :
    SameFields (lines table.toList) (lines (withReturns table).toList) := by
  rw [withReturns, String.toList_ofList]
  exact (forall₂_isTrailed_withReturns table.toList).imp fun _ _ => fields_of_isTrailed

end SameFields

/-- A line feed at the end of a table has only a blank line behind it. -/
theorem entries_append_newline (table : String) : entries (table ++ "\n") = entries table := by
  have cut : lines (table ++ "\n").toList = lines table.toList ++ [[]] := by
    rw [String.toList_append]
    exact lines_append_newline table.toList []
  rw [entries, cut, entriesFrom_append]
  exact List.append_nil _

section Rows

theorem rows_cons_of_blank {text : List Char} (blank : fields text = [])
    (texts : List (List Char)) : rows (text :: texts) = rows texts := by
  simp [rows, blank]

theorem rows_cons_of_filled {text : List Char} (filled : fields text ≠ [])
    (texts : List (List Char)) : rows (text :: texts) = fields text :: rows texts := by
  simp [rows, filled]

theorem rows_append (texts others : List (List Char)) :
    rows (texts ++ others) = rows texts ++ rows others := by
  simp [rows]

/-- Blank lines are no rows. -/
theorem rows_of_blank {texts : List (List Char)} (blank : ∀ text ∈ texts, AreBlanks text) :
    rows texts = [] := by
  induction texts with
  | nil => rfl
  | cons text texts ih =>
      obtain ⟨isBlank, others⟩ := List.forall_mem_cons.1 blank
      rw [rows_cons_of_blank (fields_of_areBlanks isBlank), ih others]

/-- A row comes from a line. -/
theorem exists_cut_of_rows {texts : List (List Char)} {row : List (List Char)}
    {first later : List (List (List Char))} (areRows : rows texts = first ++ row :: later) :
    ∃ front text back, texts = front ++ text :: back ∧ rows front = first ∧
      fields text = row := by
  induction texts generalizing first with
  | nil => simp [rows] at areRows
  | cons text texts ih =>
      by_cases blank : fields text = []
      · rw [rows_cons_of_blank blank] at areRows
        obtain ⟨front, other, back, rfl, before, isRow⟩ := ih areRows
        refine ⟨text :: front, other, back, rfl, ?_, isRow⟩
        rw [rows_cons_of_blank blank, before]
      · rw [rows_cons_of_filled blank] at areRows
        cases first with
        | nil =>
            obtain ⟨isRow, -⟩ := List.cons.inj areRows
            exact ⟨[], text, texts, rfl, rfl, isRow⟩
        | cons next first =>
            obtain ⟨isNext, areRows⟩ := List.cons.inj areRows
            obtain ⟨front, other, back, rfl, before, isRow⟩ := ih areRows
            refine ⟨text :: front, other, back, rfl, ?_, isRow⟩
            rw [rows_cons_of_filled blank, before, isNext]

/-- The entries of lines that all get one number are those of the rows on a line with that
    number. -/
theorem map_renumber_entriesFrom (number first : Nat) (texts : List (List Char)) :
    (entriesFrom first texts).map (renumberEntry fun _ => number) =
      (rows texts).flatMap (rowEntries number) := by
  induction texts generalizing first with
  | nil => rfl
  | cons text texts ih =>
      have here : (entriesFrom first [text]).map (renumberEntry fun _ => number) =
          rowEntries number (fields text) := by
        rw [← entriesFrom_singleton_renumber, entriesFrom_singleton_eq]
      rw [entriesFrom_cons, List.map_append, here, ih]
      by_cases blank : fields text = []
      · rw [rows_cons_of_blank blank, blank]
        rfl
      · rw [rows_cons_of_filled blank, List.flatMap_cons]

/-- Lines with the same rows have the same entries, but for the numbers of the lines. -/
theorem map_renumber_entriesFrom_congr {texts others : List (List Char)}
    (sameRows : rows texts = rows others) (number first second : Nat) :
    (entriesFrom first texts).map (renumberEntry fun _ => number) =
      (entriesFrom second others).map (renumberEntry fun _ => number) := by
  rw [map_renumber_entriesFrom, map_renumber_entriesFrom, sameRows]

end Rows

end Table

end SymbolRules
