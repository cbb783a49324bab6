import SymbolRules.Proofs.Table.Records

/-!
# Lines of a table

A text that joins others at line feeds has all their lines, in order
(`Table.lines_intercalate`). What a line contributes depends on its place by its number alone,
so the entries of lines that stand further down are the same with higher numbers
(`Table.entriesFrom_add`).
-/

namespace SymbolRules

/-- The same complaint about a line with another number. -/
def Malformed.renumber (number : Nat → Nat) (malformed : Malformed) : Malformed :=
  { malformed with line := number malformed.line }

/-- The same record on a line with another number. -/
def Record.renumber (number : Nat → Nat) (record : Record) : Record :=
  { record with line := number record.line }

namespace Record

theorem ofLine_renumber (number : Nat → Nat) (line : Nat) (text : List Char) :
    ofLine (number line) text =
      ((ofLine line text).map (Option.map (renumber number))).mapError
        (Malformed.renumber number) := by
  unfold ofLine ofFields
  split
  · rfl
  · rfl
  · split
    · rfl
    · rfl

theorem line_of_ofLine {number : Nat} {text : List Char} {record : Record}
    (read : ofLine number text = .ok (some record)) : record.line = number := by
  obtain ⟨-, -, -, -, -, isLine, -⟩ := exists_of_ofFields read
  exact isLine

theorem line_of_malformed {number : Nat} {text : List Char} {malformed : Malformed}
    (unread : ofLine number text = .error malformed) : malformed.line = number := by
  unfold ofLine ofFields at unread
  split at unread
  · cases unread
  · obtain rfl := Except.error.inj unread
    rfl
  · split at unread
    · obtain rfl := Except.error.inj unread
      rfl
    · cases unread

end Record

namespace Table

/-- The same entry on a line with another number. -/
def renumberEntry (number : Nat → Nat) (entry : Except Malformed Record) :
    Except Malformed Record :=
  (entry.map (Record.renumber number)).mapError (Malformed.renumber number)

theorem lines_append_newline (front back : List Char) :
    lines (front ++ '\n' :: back) = lines front ++ lines back :=
  Text.splitWhen_append_cons rfl front back

theorem lines_intercalate {texts : List (List Char)} (nonempty : texts ≠ []) :
    lines (List.intercalate ['\n'] texts) = texts.flatMap lines := by
  induction texts with
  | nil => exact absurd rfl nonempty
  | cons text rest ih =>
      cases rest with
      | nil => simp
      | cons next rest =>
          rw [List.intercalate_cons_cons, List.append_assoc, List.singleton_append,
            lines_append_newline, ih (List.cons_ne_nil next rest)]
          exact List.flatMap_cons.symm

/-- There is one line more than there are line feeds. -/
theorem length_lines (text : List Char) : (lines text).length = text.count '\n' + 1 := by
  induction text with
  | nil => rfl
  | cons c text ih =>
      unfold lines at ih ⊢
      rw [Text.splitWhen_cons]
      by_cases newline : c = '\n'
      · simp [newline, ih]
      · have someLine : Text.splitWhen (· == '\n') text ≠ [] := Text.splitWhen_ne_nil text
        obtain ⟨first, rest, cut⟩ := List.exists_cons_of_ne_nil someLine
        rw [cut] at ih ⊢
        simpa [newline, Text.consFirst] using ih

theorem newline_notMem_of_mem_lines {text line : List Char} (isLine : line ∈ lines text) :
    '\n' ∉ line := by
  intro newline
  have notCut := Text.not_cut_of_mem_splitWhen isLine '\n' newline
  simp at notCut

theorem entriesFrom_append (first : Nat) (front back : List (List Char)) :
    entriesFrom first (front ++ back) =
      entriesFrom first front ++ entriesFrom (first + front.length) back := by
  simp [entriesFrom, List.zipIdx_append]

theorem entriesFrom_cons (first : Nat) (text : List Char) (rest : List (List Char)) :
    entriesFrom first (text :: rest) =
      entriesFrom first [text] ++ entriesFrom (first + 1) rest :=
  entriesFrom_append first [text] rest

theorem entriesFrom_singleton (number : Nat) (text : List Char) :
    entriesFrom number [text] =
      match Record.ofLine number text with
      | .ok none => []
      | .ok (some record) => [.ok record]
      | .error malformed => [.error malformed] := by
  cases read : Record.ofLine number text with
  | error malformed => simp [entriesFrom, entry?, read]
  | ok found => cases found <;> simp [entriesFrom, entry?, read]

/-- A line with another number has the same entry but for the number. -/
theorem entriesFrom_singleton_renumber (number : Nat → Nat) (line : Nat) (text : List Char) :
    entriesFrom (number line) [text] = (entriesFrom line [text]).map (renumberEntry number) := by
  rw [entriesFrom_singleton, entriesFrom_singleton, Record.ofLine_renumber]
  cases Record.ofLine line text with
  | error malformed => rfl
  | ok found => cases found <;> rfl

/-- Lines that stand further down have the same entries with higher numbers. -/
theorem entriesFrom_add (offset first : Nat) (texts : List (List Char)) :
    entriesFrom (first + offset) texts =
      (entriesFrom first texts).map (renumberEntry (· + offset)) := by
  induction texts generalizing first with
  | nil => rfl
  | cons text rest ih =>
      have next : first + offset + 1 = first + 1 + offset := by omega
      have here : entriesFrom (first + offset) [text] =
          (entriesFrom first [text]).map (renumberEntry (· + offset)) :=
        entriesFrom_singleton_renumber (· + offset) first text
      rw [entriesFrom_cons, entriesFrom_cons first, next, ih, here, List.map_append]

/-- The text that has the given lines. -/
def ofLines (lines : List (List Char)) : String :=
  String.ofList (List.intercalate ['\n'] lines)

theorem lines_ofLines {texts : List (List Char)} (nonempty : texts ≠ [])
    (whole : ∀ line ∈ texts, '\n' ∉ line) : lines (ofLines texts).toList = texts := by
  rw [ofLines, String.toList_ofList, lines]
  apply Text.splitWhen_intercalate rfl nonempty
  intro line isLine c inLine
  rw [beq_eq_false_iff_ne]
  rintro rfl
  exact whole line isLine inLine

/-- A text without lines has one blank line, which contributes nothing either. -/
theorem entries_ofLines {texts : List (List Char)} (whole : ∀ line ∈ texts, '\n' ∉ line) :
    entries (ofLines texts) = entriesFrom 1 texts := by
  by_cases none : texts = []
  · subst none
    rfl
  · rw [entries, lines_ofLines none whole]

end Table

end SymbolRules
