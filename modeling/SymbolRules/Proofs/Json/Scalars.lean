import SymbolRules.Proofs.Json.Automaton
import SymbolRules.Proofs.Json.Trees

/-!
# Reading words, numbers, strings and names

Behind a text of a word, number or string the automaton goes on with what the tree is read as,
whatever surrounds it. Behind a name it goes on with the value of that member.
-/

namespace SymbolRules

namespace Json

namespace State

variable {shape : Option Shape} {stack : List Frame} {frame : Frame} {c : Char}
  {text rest : List Char}

theorem endWord_eq (shape : Option Shape) (stack : List Frame) :
    endWord shape stack = (readWord shape).map (deliver stack) := by
  cases shape <;> rfl

theorem endNumber_eq (shape : Option Shape) (numeral : Numeral) (stack : List Frame) :
    endNumber shape numeral stack = (readNumber numeral shape).map (deliver stack) := by
  cases shape with
  | none => rfl
  | some shape =>
      unfold endNumber readNumber
      by_cases overflows : numeral.overflows
      · simp only [if_pos overflows]
        rfl
      · simp only [if_neg overflows]
        cases shape with
        | number =>
            cases numeral.natural? with
            | none => rfl
            | some n =>
                dsimp only
                split <;> rfl
        | string | list | record => rfl

theorem bind_deliver (read : Except Fault (Option Value)) (stack : List Frame)
    (rest : List Char) :
    (read.map (deliver stack)).bind (·.outcome rest) =
      read.bind fun value => (deliver stack value).outcome rest := by
  cases read <;> rfl

theorem outcome_isWord (word : Word) (shape : Option Shape) (stack : List Frame)
    (rest : List Char) :
    (State.reading (.value shape) stack).outcome (word.chars ++ rest) =
      (readWord shape).bind fun value => (deliver stack value).outcome rest := by
  have begins : ∃ c chars, word.chars = c :: chars ∧ chars ≠ [] ∧ isSpace c = false ∧
      beginValue shape stack c = .ok (.reading (.word shape chars) stack) := by
    cases word with
    | null => exact ⟨'n', _, rfl, by decide, by decide, rfl⟩
    | true => exact ⟨'t', _, rfl, by decide, by decide, rfl⟩
    | false => exact ⟨'f', _, rfl, by decide, by decide, rfl⟩
  obtain ⟨c, chars, isWord, nonempty, notSpace, begun⟩ := begins
  rw [isWord, List.cons_append, outcome_value notSpace, begun]
  show (State.reading (.word shape chars) stack).outcome (chars ++ rest) = _
  rw [outcome_word nonempty, endWord_eq, bind_deliver]

/-- The first character of a number is none of those that begin something else. -/
theorem beginValue_of_start? {scan : NumeralScan} (starts : NumeralScan.start? c = some scan)
    (shape : Option Shape) (stack : List Frame) :
    isSpace c = false ∧ beginValue shape stack c = .ok (.reading (.number shape scan) stack) := by
  have others : ∀ d ∈ [' ', '\t', '\n', '\r', '"', '[', '{'], NumeralScan.start? d = none := by
    simp [NumeralScan.start?, decimalDigit?]
  have notOther : c ∉ [' ', '\t', '\n', '\r', '"', '[', '{'] := by
    intro isOther
    rw [others c isOther] at starts
    cases starts
  simp only [List.mem_cons, List.not_mem_nil, or_false, not_or] at notOther
  obtain ⟨notBlank, notTab, notFeed, notReturn, notQuote, notBracket, notBrace⟩ := notOther
  refine ⟨by simp [isSpace, notBlank, notTab, notFeed, notReturn], ?_⟩
  rw [beginValue, if_neg notQuote, if_neg notBracket, if_neg notBrace, starts]

theorem outcome_isNumeral {numeral : Numeral} (written : numeral.IsText text)
    (delimited : IsDelimited rest) (shape : Option Shape) (stack : List Frame) :
    (State.reading (.value shape) stack).outcome (text ++ rest) =
      (readNumber numeral shape).bind fun value => (deliver stack value).outcome rest := by
  obtain ⟨first, later, scan, last, rfl, starts, complete, read⟩ :=
    NumeralScan.exists_start?_of_isText written delimited
  obtain ⟨notSpace, begun⟩ := beginValue_of_start? starts shape stack
  rw [List.cons_append, outcome_value notSpace, begun]
  show (State.reading (.number shape scan) stack).outcome (later ++ rest) = _
  rw [outcome_number read complete delimited stack, endNumber_eq, bind_deliver]

theorem outcome_isString {units : List CodeUnit} (written : IsQuoted units text)
    (shape : Option Shape) (stack : List Frame) (rest : List Char) :
    (State.reading (.value shape) stack).outcome (text ++ rest) =
      (readString units shape).bind fun value => (deliver stack value).outcome rest := by
  obtain ⟨spells⟩ := written
  rename_i inside
  rw [List.cons_append, outcome_value (by decide)]
  show (State.reading (.string shape (.plain [])) stack).outcome (inside ++ ['"'] ++ rest) = _
  rw [outcome_string, List.append_assoc]
  cases shape with
  | none =>
      obtain ⟨found, read⟩ := TextScan.readAll_skipped spells [] rest
      show (TextScan.readAll false (.plain []) (inside ++ '"' :: rest)).bind _ = _
      rw [read]
      rfl
  | some shape =>
      show (TextScan.readAll true (.plain []) (inside ++ '"' :: rest)).bind _ = _
      rw [TextScan.readAll_kept spells, readString]
      cases Utf16.text? units with
      | none => rfl
      | some found => cases shape <;> rfl

/-! ### Names -/

theorem endName_eq (name : String) (frame : Frame) (stack : List Frame) :
    endName name (frame :: stack) =
      (frame.enter name).map fun (shape, frame) => .reading (.colon shape) (frame :: stack) := by
  cases frame with
  | object members read current =>
      rw [endName, Frame.enter]
      cases members.find? (·.name == name) with
      | none => rfl
      | some member =>
          dsimp only
          split <;> rfl
  | list | tuple | skipped => rfl

/-- Behind a name comes the colon, for a value of the shape that the name tells. -/
theorem outcome_isQuoted {units : List CodeUnit} (named : IsQuoted units text) (frame : Frame)
    (stack : List Frame) (rest : List Char) :
    (State.reading .nextName (frame :: stack)).outcome (text ++ rest) =
      (frame.enterUnits units).bind fun (shape, frame) =>
        (State.reading (.colon shape) (frame :: stack)).outcome rest := by
  obtain ⟨spells⟩ := named
  rename_i inside
  have entered : ∀ name, (endName name (frame :: stack)).bind (·.outcome rest) =
      (frame.enter name).bind fun (shape, frame) =>
        (State.reading (.colon shape) (frame :: stack)).outcome rest := by
    intro name
    rw [endName_eq]
    cases frame.enter name <;> rfl
  rw [List.cons_append, outcome_token rfl (by decide)]
  show (State.reading (.name (.plain [])) (frame :: stack)).outcome (inside ++ ['"'] ++ rest) = _
  rw [outcome_name, List.append_assoc, List.singleton_append]
  cases frame with
  | skipped =>
      obtain ⟨found, read⟩ := TextScan.readAll_skipped spells [] rest
      show (TextScan.readAll false (.plain []) (inside ++ '"' :: _)).bind _ = _
      rw [read]
      exact entered found
  | list | tuple | object =>
      show (TextScan.readAll true (.plain []) (inside ++ '"' :: _)).bind _ = _
      rw [TextScan.readAll_kept spells]
      simp only [Frame.enterUnits]
      cases Utf16.text? units with
      | none => rfl
      | some name => exact entered name

theorem outcome_colon (shape : Option Shape) (stack : List Frame) (rest : List Char) :
    (State.reading (.colon shape) stack).outcome (':' :: rest) =
      (State.reading (.value shape) stack).outcome rest :=
  outcome_token rfl (by decide) stack rest

/-- A name with the colon behind it. -/
theorem outcome_isName {units : List CodeUnit} {nameText before : List Char}
    (named : IsQuoted units nameText) (spaces : AreSpaces before) (frame : Frame)
    (stack : List Frame) (rest : List Char) :
    (State.reading .nextName (frame :: stack)).outcome (nameText ++ (before ++ ':' :: rest)) =
      (frame.enterUnits units).bind fun (shape, frame) =>
        (State.reading (.value shape) (frame :: stack)).outcome rest := by
  rw [outcome_isQuoted named]
  cases frame.enterUnits units with
  | error fault => rfl
  | ok entered =>
      show (State.reading (.colon entered.1) (entered.2 :: stack)).outcome
        (before ++ ':' :: rest) = _
      rw [outcome_skip rfl spaces, outcome_colon]
      rfl

end State

end Json

end SymbolRules
