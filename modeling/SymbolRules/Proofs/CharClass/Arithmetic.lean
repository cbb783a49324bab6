import SymbolRules.Proofs.CharClass.Invariant

/-!
# Differences of code units

Widths, patterns and scalar values are computed from differences of code units, which in 16 bits
must not be negative. They are repeated here with a difference that fails in that case. For
the groups of a compressor nothing fails, whatever its history, and the results are the same
(`Compressor.representation_run`).
-/

namespace SymbolRules

namespace Checked

/-- The difference of two units in 16 bits, unless it is negative. -/
def difference? (unit less : CodeUnit) : Option CodeUnit :=
  if less ≤ unit then some (unit - less) else none

/-- `Interval.width` with a checked difference. -/
def width? (interval : Interval) : Option Nat :=
  (difference? interval.stop interval.start).map fun gap => gap.toNat + 1

/-- `Interval.chars` with a checked difference. -/
def intervalChars? (interval : Interval) : Option (List Char) :=
  (difference? interval.stop interval.start).map fun gap =>
    match gap.toNat with
    | 0 => Escape.unit interval.start
    | 1 => Escape.unit interval.start ++ Escape.unit interval.stop
    | _ => Escape.unit interval.start ++ '-' :: Escape.unit interval.stop

/-- `Group.chars` with checked differences. -/
def groupChars? (group : Group) : Option (List Char) := do
  let bodies ← group.intervals.mapM intervalChars?
  let written := if group.isSingleUnit then bodies.flatten else '[' :: bodies.flatten ++ [']']
  return if group.high == 0 then written else Escape.unit group.high ++ written

/-- `Pair.decode` with checked differences. -/
def decode? (pair : Pair) : Option Nat :=
  if pair.isBmp then some pair.low.toNat
  else do
    let quotient ← difference? pair.high 0xD800
    let remainder ← difference? pair.low 0xDC00
    return quotient.toNat * 0x400 + remainder.toNat + 0x10000

theorem exists_difference? {unit less : CodeUnit} (ordered : less ≤ unit) :
    ∃ gap, difference? unit less = some gap ∧ gap.toNat = unit.toNat - less.toNat := by
  refine ⟨unit - less, ?_, UInt16.toNat_sub_of_le _ _ ordered⟩
  rw [difference?, if_pos ordered]

theorem width?_eq {interval : Interval} (ordered : interval.start ≤ interval.stop) :
    width? interval = some interval.width := by
  obtain ⟨gap, isGap, same⟩ := exists_difference? ordered
  rw [width?, isGap, Interval.width, ← same]
  rfl

theorem intervalChars?_eq {interval : Interval} (ordered : interval.start ≤ interval.stop) :
    intervalChars? interval = some interval.chars := by
  obtain ⟨gap, isGap, same⟩ := exists_difference? ordered
  rw [intervalChars?, isGap, Interval.chars, ← same]
  rfl

theorem groupChars?_eq {group : Group}
    (ordered : ∀ interval ∈ group.intervals, interval.start ≤ interval.stop) :
    groupChars? group = some group.chars := by
  have bodies : ∀ intervals : List Interval,
      (∀ interval ∈ intervals, interval.start ≤ interval.stop) →
        intervals.mapM intervalChars? = some (intervals.map Interval.chars) := by
    intro intervals areOrdered
    induction intervals with
    | nil => rfl
    | cons interval rest ih =>
        have first := intervalChars?_eq (areOrdered interval (List.mem_cons_self ..))
        have later := ih fun other member => areOrdered other (List.mem_cons_of_mem interval member)
        rw [List.mapM_cons, first, later]
        rfl
  rw [groupChars?, bodies group.intervals ordered]
  rfl

theorem decode?_eq {pair : Pair}
    (surrogates : pair.high ≠ 0 → 0xD800 ≤ pair.high ∧ 0xDC00 ≤ pair.low) :
    decode? pair = some pair.decode := by
  unfold decode? Pair.decode
  by_cases single : pair.isBmp = true
  · rw [if_pos single, if_pos single]
  · have isPair : pair.high ≠ 0 := by simpa [Pair.isBmp] using single
    obtain ⟨quotient, isQuotient, sameHigh⟩ := exists_difference? (surrogates isPair).1
    obtain ⟨remainder, isRemainder, sameLow⟩ := exists_difference? (surrogates isPair).2
    rw [if_neg single, if_neg single, isQuotient, isRemainder]
    simp only [Option.bind_eq_bind, Option.bind_some, sameHigh, sameLow]
    rfl

/-- A unit that an interval covers is decoded under its high unit. -/
theorem decode?_eq_of_contains {interval : Interval} {high low : CodeUnit}
    (isUnder : interval.IsUnder high) (covered : interval.Contains low) :
    decode? ⟨high, low⟩ = some (Pair.decode ⟨high, low⟩) := by
  apply decode?_eq
  intro isPair
  obtain ⟨isHigh, isLow, -⟩ := isUnder.paired isPair
  exact ⟨isHigh.1, UInt16.le_trans isLow.1 covered.1⟩

end Checked

namespace Compressor

open History (accepted)

theorem isTaken_perform (compressor : Compressor) (operation : Operation) :
    (compressor.perform operation).1.isTaken = operation.scalar?.isSome := by
  cases operation with
  | add value =>
      by_cases isScalar : IsScalar value
      · simp [perform, add, Pair.encode, Operation.scalar?, isScalar, Except.map, Answer.isTaken]
      · simp [perform, add, Pair.encode, Operation.scalar?, isScalar, Except.map, Answer.isTaken]
  | close => rfl
  | serialize => rfl
  | isEmpty => rfl

/-- The scalar values of a history are those that were taken. -/
theorem countP_isTaken_answers (history : List Operation) (compressor : Compressor) :
    (compressor.answers history).countP Answer.isTaken = (accepted history).length := by
  induction history generalizing compressor with
  | nil => rfl
  | cons operation history ih =>
      rw [answers, List.countP_cons, ih, isTaken_perform, History.accepted_cons]
      cases operation.scalar? <;> simp [Nat.add_comm]

/-- After any history the representation is sound, and a compressor is empty exactly if no value
    was taken. Widths, patterns and scalar values of its groups are computed without a negative
    difference. An interval that is extended grows by one unit, and the widths of the closed groups
    sum to the number of values taken. -/
theorem representation_run (history : List Operation) :
    (run history).IsSound ∧
      ((run history).isEmpty = true ↔
        ∀ answer ∈ empty.answers history, answer.isTaken = false) ∧
      (∀ group ∈ (run history).closedGroups,
        Checked.groupChars? group = some group.chars ∧
          ∀ interval ∈ group.intervals, Checked.width? interval = some interval.width ∧
            ∀ low, interval.Contains low →
              Checked.decode? ⟨group.high, low⟩ = some (Pair.decode ⟨group.high, low⟩)) ∧
      (∀ value next, (run history).add value = .ok next →
        ∃ current, next.current = some current ∧
          ((∃ unit, current.interval = .single unit) ∨
            ∃ held, (run history).current = some held ∧ held.Grows current)) ∧
      Group.totalWidth (run history).closedGroups =
        (empty.answers history).countP Answer.isTaken := by
  have sound := isSound_run history
  refine ⟨sound, ?_, ?_, ?_, ?_⟩
  · rw [isEmpty_run_iff, ← List.length_eq_zero_iff, ← countP_isTaken_answers history empty,
      List.countP_eq_zero]
    simp
  · intro group member
    have intervals := (sound.close.groups group member).intervals
    refine ⟨Checked.groupChars?_eq fun interval isIn => (intervals interval isIn).ordered, ?_⟩
    intro interval isIn
    refine ⟨Checked.width?_eq (intervals interval isIn).ordered, ?_⟩
    intro low covered
    exact Checked.decode?_eq_of_contains (intervals interval isIn) covered
  · intro value next added
    obtain ⟨-, rfl⟩ := add_eq_ok_iff.1 added
    obtain ⟨current, isCurrent, rfl | grows⟩ := exists_current_insert (run history) _
    · exact ⟨_, isCurrent, .inl ⟨_, rfl⟩⟩
    · exact ⟨current, isCurrent, .inr grows⟩
  · rw [totalWidth_run, countP_isTaken_answers]

end Compressor

end SymbolRules
