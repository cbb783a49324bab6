import SymbolRules.Table.Fields

/-!
# Fields of a line and pieces of a text

The fields of a line are its longest runs of characters that are not blank, with any blanks between
and around them (`Table.areFields_iff`). The pieces of a text at a character are what that character
joins to the text again (`Text.arePieces_iff`). Both are determined by the text.
-/

namespace SymbolRules

namespace Text

/-- The pieces of a text between the places where a character stands. -/
structure ArePieces (separator : Char) (text : List Char) (pieces : List (List Char)) : Prop where
  nonempty : pieces ≠ []
  whole : ∀ piece ∈ pieces, separator ∉ piece
  joined : List.intercalate [separator] pieces = text

theorem arePieces_iff {separator : Char} {text : List Char} {pieces : List (List Char)} :
    ArePieces separator text pieces ↔ pieces = splitWhen (· == separator) text := by
  constructor
  · rintro ⟨nonempty, whole, rfl⟩
    have isWhole : ∀ piece ∈ pieces, ∀ d ∈ piece, (d == separator) = false := by
      intro piece isPiece d inPiece
      simpa using ne_of_mem_of_not_mem inPiece (whole piece isPiece)
    refine Eq.symm (splitWhen_intercalate ?_ nonempty isWhole)
    exact beq_self_eq_true separator
  · rintro rfl
    refine ⟨splitWhen_ne_nil text, ?_, intercalate_splitWhen separator text⟩
    intro piece isPiece inPiece
    simpa using not_cut_of_mem_splitWhen isPiece separator inPiece

end Text

namespace Table

/-- The fields of a text, its longest runs of characters that are not blank: behind each field the
    text ends or goes on with a blank. -/
inductive AreFields : List Char → List (List Char) → Prop
  | nil : AreFields [] []
  | blank {c : Char} {text : List Char} {fields : List (List Char)} (blank : isBlank c = true)
      (later : AreFields text fields) : AreFields (c :: text) fields
  | field {field text : List Char} {fields : List (List Char)} (nonempty : field ≠ [])
      (solid : ∀ c ∈ field, isBlank c = false) (ends : ∀ c ∈ text.head?, isBlank c = true)
      (later : AreFields text fields) : AreFields (field ++ text) (field :: fields)

theorem fields_cons_of_blank {c : Char} (blank : isBlank c = true) (text : List Char) :
    fields (c :: text) = fields text := by
  rw [fields, Text.splitWhen_cons, if_pos blank]
  rfl

theorem fields_append_of_solid {field text : List Char} (nonempty : field ≠ [])
    (solid : ∀ c ∈ field, isBlank c = false) (ends : ∀ c ∈ text.head?, isBlank c = true) :
    fields (field ++ text) = field :: fields text := by
  have isWhole := Text.splitWhen_of_no_cut solid
  have isFilled : (!field.isEmpty) = true := by simpa using nonempty
  have first : ∀ pieces : List (List Char), (field :: pieces).filter (!·.isEmpty) =
      field :: pieces.filter (!·.isEmpty) := fun _ => List.filter_cons_of_pos isFilled
  cases text with
  | nil =>
      rw [List.append_nil, fields, isWhole, first]
      rfl
  | cons c text =>
      have blank := ends c rfl
      rw [fields_cons_of_blank blank, fields, Text.splitWhen_append_cons blank, isWhole,
        List.singleton_append, first, fields]

/-- A character that is not blank makes the first field longer, or is a field of its own. -/
theorem AreFields.exists_solid_cons {c : Char} {text : List Char} {fields : List (List Char)}
    (solid : isBlank c = false) (areFields : AreFields text fields) :
    ∃ others, AreFields (c :: text) others := by
  have alone : ∀ d ∈ [c], isBlank d = false := by simpa using solid
  have apart : (∀ d ∈ text.head?, isBlank d = true) → AreFields (c :: text) ([c] :: fields) :=
    fun ends => .field (List.cons_ne_nil c []) alone ends areFields
  -- Only if the text begins with a field does the character belong to that field.
  cases areFields with
  | nil => exact ⟨_, apart (by simp)⟩
  | blank isBlank later => exact ⟨_, apart (by simpa using isBlank)⟩
  | @field field text fields nonempty own ends later =>
      exact ⟨_, .field (List.cons_ne_nil c field) (List.forall_mem_cons.2 ⟨solid, own⟩) ends later⟩

theorem exists_areFields (text : List Char) : ∃ fields, AreFields text fields := by
  induction text with
  | nil => exact ⟨[], .nil⟩
  | cons c text ih =>
      obtain ⟨fields, areFields⟩ := ih
      cases blank : isBlank c with
      | true => exact ⟨fields, .blank blank areFields⟩
      | false => exact areFields.exists_solid_cons blank

theorem AreFields.eq_fields {text : List Char} {others : List (List Char)}
    (areFields : AreFields text others) : others = fields text := by
  induction areFields with
  | nil => rfl
  | blank blank _ ih => rw [fields_cons_of_blank blank, ih]
  | field nonempty solid ends _ ih => rw [fields_append_of_solid nonempty solid ends, ih]

theorem areFields_iff {text : List Char} {others : List (List Char)} :
    AreFields text others ↔ others = fields text := by
  constructor
  · exact AreFields.eq_fields
  · rintro rfl
    obtain ⟨others, areFields⟩ := exists_areFields text
    rw [← areFields.eq_fields]
    exact areFields

theorem isSolid_of_mem_fields {text field : List Char} (isField : field ∈ fields text) :
    field ≠ [] ∧ ∀ c ∈ field, isBlank c = false := by
  obtain ⟨isPiece, isFilled⟩ := List.mem_filter.1 isField
  exact ⟨by simpa using isFilled, Text.not_cut_of_mem_splitWhen isPiece⟩

end Table

end SymbolRules
