/-!
# Cutting texts

A text is cut at all characters of some kind. The pieces and the characters at the
cuts make up the text again, and no piece holds a character of that kind.
-/

namespace SymbolRules

namespace Text

/-- Puts a character in front of the first piece. -/
def consFirst (c : Char) : List (List Char) → List (List Char)
  | [] => [[c]]
  | piece :: pieces => (c :: piece) :: pieces

/-- Cuts a text at every character that satisfies `cut`, and drops those
    characters. There is always one piece more than there are cuts. -/
def splitWhen (cut : Char → Bool) (text : List Char) : List (List Char) :=
  text.foldr (fun c pieces => if cut c then [] :: pieces else consFirst c pieces) [[]]

variable {cut : Char → Bool}

@[simp] theorem splitWhen_nil : splitWhen cut [] = [[]] := rfl

theorem splitWhen_cons (c : Char) (text : List Char) :
    splitWhen cut (c :: text) =
      if cut c then [] :: splitWhen cut text else consFirst c (splitWhen cut text) := rfl

theorem consFirst_ne_nil (c : Char) (pieces : List (List Char)) :
    consFirst c pieces ≠ [] := by
  cases pieces <;> simp [consFirst]

theorem splitWhen_ne_nil (text : List Char) : splitWhen cut text ≠ [] := by
  cases text with
  | nil => simp
  | cons c text =>
      rw [splitWhen_cons]
      split
      · simp
      · exact consFirst_ne_nil c _

/-- A text without cuts is one piece. -/
theorem splitWhen_of_no_cut {text : List Char} (whole : ∀ c ∈ text, cut c = false) :
    splitWhen cut text = [text] := by
  induction text with
  | nil => rfl
  | cons c text ih =>
      simp only [List.mem_cons, forall_eq_or_imp] at whole
      simp [splitWhen_cons, whole.1, ih whole.2, consFirst]

/-- A character at a cut separates the pieces before it from those behind it. -/
theorem splitWhen_append_cons {c : Char} (isCut : cut c = true) (front back : List Char) :
    splitWhen cut (front ++ c :: back) = splitWhen cut front ++ splitWhen cut back := by
  induction front with
  | nil => simp [splitWhen_cons, isCut]
  | cons d front ih =>
      simp only [List.cons_append, splitWhen_cons, ih]
      split
      · rfl
      · cases pieces : splitWhen cut front with
        | nil => exact absurd pieces (splitWhen_ne_nil front)
        | cons piece pieces => rfl

/-- Pieces without cuts are found again in the text that joins them at cuts. -/
theorem splitWhen_intercalate {c : Char} (isCut : cut c = true) {pieces : List (List Char)}
    (nonempty : pieces ≠ []) (whole : ∀ piece ∈ pieces, ∀ d ∈ piece, cut d = false) :
    splitWhen cut (List.intercalate [c] pieces) = pieces := by
  induction pieces with
  | nil => exact absurd rfl nonempty
  | cons piece rest ih =>
      have first := splitWhen_of_no_cut (whole piece (List.mem_cons_self ..))
      cases rest with
      | nil => simpa [List.intercalate_singleton] using first
      | cons next rest =>
          rw [List.intercalate_cons_cons, List.append_assoc, List.singleton_append,
            splitWhen_append_cons isCut, first,
            ih (by simp) (fun other isOther => whole other (List.mem_cons_of_mem _ isOther))]
          rfl

theorem intercalate_consFirst (separator : List Char) (c : Char) {pieces : List (List Char)}
    (nonempty : pieces ≠ []) :
    List.intercalate separator (consFirst c pieces) = c :: List.intercalate separator pieces := by
  match pieces with
  | [] => exact absurd rfl nonempty
  | [piece] => simp [consFirst, List.intercalate_singleton]
  | piece :: next :: rest => simp [consFirst, List.intercalate_cons_cons]

/-- The pieces and the characters at the cuts make up the text again. -/
theorem intercalate_splitWhen (c : Char) (text : List Char) :
    List.intercalate [c] (splitWhen (· == c) text) = text := by
  induction text with
  | nil => simp [List.intercalate_singleton]
  | cons d text ih =>
      rw [splitWhen_cons]
      by_cases isCut : d = c
      · cases pieces : splitWhen (· == c) text with
        | nil => exact absurd pieces (splitWhen_ne_nil text)
        | cons piece rest =>
            rw [pieces] at ih
            simp [isCut, List.intercalate_cons_cons, ih]
      · simp [isCut, intercalate_consFirst [c] d (splitWhen_ne_nil text), ih]

/-- What holds of all characters of some pieces and of the character between them holds of all
    characters of the text that they make up. -/
theorem forall_mem_intercalate {motive : Char → Prop} {c : Char} {pieces : List (List Char)}
    (between : motive c) (inside : ∀ piece ∈ pieces, ∀ d ∈ piece, motive d) :
    ∀ d ∈ List.intercalate [c] pieces, motive d := by
  induction pieces with
  | nil => simp
  | cons piece rest ih =>
      have first := inside piece (List.mem_cons_self ..)
      have later := ih fun other member => inside other (List.mem_cons_of_mem piece member)
      cases rest with
      | nil => simpa [List.intercalate_singleton] using first
      | cons next rest =>
          intro d member
          simp only [List.intercalate_cons_cons, List.mem_append, List.mem_singleton] at member
          rcases member with (inPiece | rfl) | inRest
          · exact first d inPiece
          · exact between
          · exact later d inRest

/-- No piece holds a character at which the text is cut. -/
theorem not_cut_of_mem_splitWhen {text piece : List Char} (isPiece : piece ∈ splitWhen cut text) :
    ∀ c ∈ piece, cut c = false := by
  induction text generalizing piece with
  | nil => simp_all
  | cons d text ih =>
      rw [splitWhen_cons] at isPiece
      split at isPiece
      · rcases List.mem_cons.1 isPiece with rfl | later
        · simp
        · exact ih later
      · rename_i notCut
        cases pieces : splitWhen cut text with
        | nil => exact absurd pieces (splitWhen_ne_nil text)
        | cons first rest =>
            rw [pieces] at isPiece ih
            rcases List.mem_cons.1 isPiece with rfl | later
            · intro c inPiece
              rcases List.mem_cons.1 inPiece with rfl | inFirst
              · simpa using notCut
              · exact ih (List.mem_cons_self ..) c inFirst
            · exact ih (List.mem_cons_of_mem _ later)

end Text

end SymbolRules
