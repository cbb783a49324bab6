import SymbolRules.Proofs.Json.Numbers
import SymbolRules.Proofs.Json.Strings

/-!
# Runs of the automaton

What a state makes of the rest of a text (`State.outcome`), token by token: white space between
tokens changes nothing, and a string, name, number or word is taken as a whole.
-/

namespace SymbolRules

namespace Json

/-- Whether the automaton is between two tokens. -/
def Phase.isBetween : Phase → Bool
  | value _ | first | after | firstName | nextName | colon _ => true
  | name _ | string .. | number .. | word .. => false

namespace State

/-- What a state makes of the rest of a text. -/
def outcome (state : State) (text : List Char) : Except Fault Value :=
  (state.run text).bind finish

variable {phase : Phase} {shape : Option Shape} {stack : List Frame} {c : Char}
  {text before rest : List Char}

theorem outcome_nil (state : State) : state.outcome [] = state.finish := rfl

theorem outcome_cons (state : State) (c : Char) (rest : List Char) :
    state.outcome (c :: rest) = (state.step c).bind (·.outcome rest) := by
  unfold outcome run
  rw [List.foldlM_cons]
  cases state.step c <;> rfl

theorem outcome_of_step {state next : State} (taken : state.step c = .ok next)
    (rest : List Char) : state.outcome (c :: rest) = next.outcome rest := by
  rw [outcome_cons, taken]
  rfl

theorem step_of_isBetween (between : phase.isBetween) (stack : List Frame) (c : Char) :
    (State.reading phase stack).step c = stepBetween phase stack c := by
  cases phase <;> first | rfl | cases between

/-- A text does not end between two tokens. -/
theorem outcome_nil_of_isBetween (between : phase.isBetween) (stack : List Frame) :
    (State.reading phase stack).outcome [] = .error .truncated := by
  cases phase <;> first | rfl | cases between

/-- White space between two tokens changes nothing. -/
theorem outcome_skip (between : phase.isBetween) (spaces : AreSpaces before) (rest : List Char) :
    (State.reading phase stack).outcome (before ++ rest) =
      (State.reading phase stack).outcome rest := by
  induction before with
  | nil => rfl
  | cons c before ih =>
      obtain ⟨isSpace, later⟩ := List.forall_mem_cons.1 spaces
      have stays : (State.reading phase stack).step c = .ok (.reading phase stack) := by
        rw [step_of_isBetween between, stepBetween, if_pos isSpace]
      rw [List.cons_append, outcome_of_step stays, ih later]

/-- Nothing but white space may follow the outermost value. -/
theorem outcome_done {value : Value} (spaces : AreSpaces text) :
    (State.done value).outcome text = .ok value := by
  induction text with
  | nil => rfl
  | cons c text ih =>
      obtain ⟨isSpace, later⟩ := List.forall_mem_cons.1 spaces
      have stays : (State.done value).step c = .ok (.done value) := by
        rw [step, stepBehind, if_pos isSpace]
      rw [outcome_of_step stays, ih later]

/-- A character between two tokens that is not white space. -/
theorem outcome_token (between : phase.isBetween) (notSpace : isSpace c = false)
    (stack : List Frame) (rest : List Char) :
    (State.reading phase stack).outcome (c :: rest) =
      (stepToken phase stack c).bind (·.outcome rest) := by
  rw [outcome_cons, step_of_isBetween between, stepBetween, notSpace]
  rfl

/-- The rest of a string is taken as a whole. -/
theorem outcome_string (scan : TextScan) (stack : List Frame) (text : List Char) :
    (State.reading (.string shape scan) stack).outcome text =
      (scan.readAll shape.isSome text).bind fun (found, rest) =>
        (endString shape found stack).bind (·.outcome rest) := by
  induction text generalizing scan with
  | nil => rfl
  | cons c text ih =>
      rw [outcome_cons, step, TextScan.readAll_cons]
      dsimp only
      cases scan.step shape.isSome c with
      | more next => exact ih next
      | ended found => rfl
      | malformed => rfl

/-- The rest of a name is taken as a whole. -/
theorem outcome_name (scan : TextScan) (stack : List Frame) (text : List Char) :
    (State.reading (.name scan) stack).outcome text =
      (scan.readAll (keepsNames stack) text).bind fun (name, rest) =>
        (endName name stack).bind (·.outcome rest) := by
  induction text generalizing scan with
  | nil => rfl
  | cons c text ih =>
      rw [outcome_cons, step, TextScan.readAll_cons]
      dsimp only
      cases scan.step (keepsNames stack) c with
      | more next => exact ih next
      | ended found => rfl
      | malformed => rfl

/-- The rest of a word is taken as a whole. -/
theorem outcome_word {chars : List Char} (nonempty : chars ≠ []) (stack : List Frame)
    (rest : List Char) :
    (State.reading (.word shape chars) stack).outcome (chars ++ rest) =
      (endWord shape stack).bind (·.outcome rest) := by
  induction chars with
  | nil => exact absurd rfl nonempty
  | cons c chars ih =>
      rw [List.cons_append, outcome_cons, step, if_neg (not_not_intro rfl)]
      cases chars with
      | nil => rfl
      | cons next chars => exact ih (by simp)

theorem endNumber_eq_error_or (shape : Option Shape) (numeral : Numeral) (stack : List Frame) :
    (∃ fault, endNumber shape numeral stack = .error fault) ∨
      ∃ value, endNumber shape numeral stack = .ok (deliver stack value) := by
  unfold endNumber
  split
  · exact .inr ⟨none, rfl⟩
  · split
    · exact .inl ⟨_, rfl⟩
    · split
      · split
        · exact .inr ⟨_, rfl⟩
        · exact .inl ⟨_, rfl⟩
      · exact .inl ⟨_, rfl⟩

/-- Behind a value a character is taken in the same way wherever the value ended: with its last
    character, or, as a number does, before this one. -/
theorem step_deliver (stack : List Frame) (value : Option Value) (c : Char) :
    (deliver stack value).step c = stepBehind (deliver stack value) c := by
  cases value with
  | none => rfl
  | some value => cases stack <;> rfl

theorem finish_deliver (stack : List Frame) (value : Option Value) :
    (deliver stack value).finish = State.value (deliver stack value) := by
  cases value with
  | none => rfl
  | some value => cases stack <;> rfl

/-- A number that is complete ends at a delimiter or at the end of the text. -/
theorem outcome_number_of_isComplete {stage : NumeralStage} {numeral : Numeral}
    (complete : stage.isComplete) (delimited : IsDelimited rest) (stack : List Frame) :
    (State.reading (.number shape ⟨stage, numeral⟩) stack).outcome rest =
      (endNumber shape numeral stack).bind (·.outcome rest) := by
  have ended := endNumber_eq_error_or shape numeral stack
  cases rest with
  | nil =>
      rw [outcome_nil, finish]
      dsimp only
      rw [if_pos complete]
      obtain ⟨fault, ended⟩ | ⟨value, ended⟩ := ended <;> rw [ended]
      · rfl
      · exact (finish_deliver stack value).symm
  | cons c rest =>
      have stops : (⟨stage, numeral⟩ : NumeralScan).step c = .ended :=
        NumeralScan.step_of_delimiter complete (delimited c rfl)
      rw [outcome_cons, step]
      dsimp only
      rw [stops]
      dsimp only
      obtain ⟨fault, ended⟩ | ⟨value, ended⟩ := ended <;> rw [ended]
      · rfl
      · show (stepBehind (deliver stack value) c).bind (·.outcome rest) = _
        rw [← step_deliver, ← outcome_cons]
        rfl

/-- The rest of a number is taken as a whole. -/
theorem outcome_number {scan last : NumeralScan} (read : scan.upTo text = some (last, rest))
    (complete : last.stage.isComplete) (delimited : IsDelimited rest) (stack : List Frame) :
    (State.reading (.number shape scan) stack).outcome text =
      (endNumber shape last.numeral stack).bind (·.outcome rest) := by
  induction text generalizing scan with
  | nil =>
      obtain ⟨rfl, rfl⟩ := Prod.mk.inj (Option.some.inj read)
      exact outcome_number_of_isComplete complete delimited stack
  | cons c text ih =>
      rw [NumeralScan.upTo] at read
      split at read
      · rename_i next taken
        have goesOn : (State.reading (.number shape scan) stack).step c =
            .ok (.reading (.number shape next) stack) := by
          rw [step, taken]
        rw [outcome_of_step goesOn]
        exact ih read
      · obtain ⟨rfl, rfl⟩ := Prod.mk.inj (Option.some.inj read)
        exact outcome_number_of_isComplete complete delimited stack
      · cases read

/-- What begins a value. -/
theorem outcome_value (notSpace : isSpace c = false) (stack : List Frame) (rest : List Char) :
    (State.reading (.value shape) stack).outcome (c :: rest) =
      (beginValue shape stack c).bind (·.outcome rest) :=
  outcome_token rfl notSpace stack rest

end State

end Json

end SymbolRules
