import SymbolRules.CharClass.Pattern
import SymbolRules.Proofs.CharClass.History

/-!
# Blocks of consecutive scalar values

A block is a nonempty run of scalar values each of which follows the one before it. All of
them share one high unit, and their low units are exactly those of the interval of the
block (`IsBlock.units_blockInterval`). A history falls into blocks without loss
(`flatten_blocks`).
-/

namespace SymbolRules

namespace Interval

theorem units_single (unit : CodeUnit) : (single unit).units = [unit] := by
  simp [units, single, width]

theorem units_cons {start next stop : CodeUnit} (neighbours : start.toNat + 1 = next.toNat)
    (bounded : next ≤ stop) : units ⟨start, stop⟩ = start :: units ⟨next, stop⟩ := by
  rw [UInt16.le_iff_toNat_le] at bounded
  have wider : width ⟨start, stop⟩ = width ⟨next, stop⟩ + 1 := by
    simp only [width]
    omega
  rw [units, wider, List.range_succ_eq_map, List.map_cons, List.map_map]
  congr 1
  · simp
  · apply List.map_congr_left
    intro offset _
    simp only [Function.comp_apply, Nat.succ_eq_add_one]
    congr 1
    omega

theorem mem_units {interval : Interval} {unit : CodeUnit}
    (ordered : interval.start ≤ interval.stop) :
    unit ∈ interval.units ↔ interval.Contains unit := by
  simp only [units, Contains, List.mem_map, List.mem_range, width, UInt16.le_iff_toNat_le] at *
  have bound := interval.stop.toNat_lt
  constructor
  · rintro ⟨offset, inside, rfl⟩
    rw [UInt16.toNat_ofNat']
    omega
  · rintro ⟨above, below⟩
    refine ⟨unit.toNat - interval.start.toNat, by omega, ?_⟩
    rw [Nat.add_sub_cancel' above, UInt16.ofNat_toNat]

end Interval

namespace History

open Compressor (Operation)

theorem isScalar_of_mem_accepted {history : List Operation} {scalar : Nat}
    (member : scalar ∈ accepted history) : IsScalar scalar := by
  obtain ⟨operation, -, adds⟩ := List.mem_filterMap.1 member
  cases operation with
  | add value =>
      simp only [Operation.scalar?] at adds
      split at adds
      · rename_i isScalar
        obtain rfl := Option.some.inj adds
        rwa [Int.toNat_of_nonneg isScalar.1]
      · cases adds
  | close => cases adds
  | serialize => cases adds
  | isEmpty => cases adds

theorem scalar?_of_closes {operation : Operation} (closing : operation.closes = true) :
    operation.scalar? = none := by
  cases operation with
  | add value => cases closing
  | close => rfl
  | serialize => rfl
  | isEmpty => rfl

theorem stretches_cons_of_closes {operation : Operation} (closing : operation.closes = true)
    (history : List Operation) : stretches (operation :: history) = [] :: stretches history := by
  rw [stretches, List.splitOnP_cons_eq_if_modifyHead, if_pos closing]
  rfl

theorem exists_stretches_cons {operation : Operation} (open' : operation.closes = false)
    (history : List Operation) : ∃ first rest, stretches history = first :: rest ∧
      stretches (operation :: history) = (operation.scalar?.toList ++ first) :: rest := by
  obtain ⟨first, rest, cut⟩ := List.exists_cons_of_ne_nil
    (List.splitOnP_ne_nil Operation.closes history)
  refine ⟨accepted first, rest.map accepted, by rw [stretches, cut, List.map_cons], ?_⟩
  rw [stretches, List.splitOnP_cons_eq_if_modifyHead, open', cut]
  simp only [Bool.false_eq_true, if_false, List.modifyHead_cons, List.map_cons]
  congr 1
  cases adds : operation.scalar? <;> simp [accepted, adds]

theorem accepted_cons (operation : Operation) (history : List Operation) :
    accepted (operation :: history) = operation.scalar?.toList ++ accepted history := by
  cases adds : operation.scalar? <;> simp [accepted, adds]

theorem accepted_singleton (operation : Operation) :
    accepted [operation] = operation.scalar?.toList := by
  rw [accepted_cons]
  exact List.append_nil _

theorem accepted_append (before after : List Operation) :
    accepted (before ++ after) = accepted before ++ accepted after :=
  List.filterMap_append

theorem flatten_stretches (history : List Operation) :
    (stretches history).flatten = accepted history := by
  induction history with
  | nil => rfl
  | cons operation history ih =>
      cases closing : operation.closes with
      | true =>
          rw [stretches_cons_of_closes closing, accepted_cons, scalar?_of_closes closing,
            List.flatten_cons, ih]
          rfl
      | false =>
          obtain ⟨first, rest, cut, extended⟩ := exists_stretches_cons closing history
          rw [extended, accepted_cons, ← ih, cut]
          simp

theorem flatten_blocks (history : List Operation) :
    (blocks history).flatten = accepted history := by
  rw [← flatten_stretches, blocks, List.flatMap_def, List.flatten_flatten, List.map_map]
  congr 1
  apply List.map_id''
  exact List.flatten_splitBy follows

theorem follows_iff {first second : Nat} (isFirst : IsScalar first) (isSecond : IsScalar second) :
    follows first second = true ↔
      high first = high second ∧ (low first).toNat + 1 = (low second).toNat := by
  rw [high, high, low, low, Pair.neighbours_iff isFirst isSecond]
  simp only [follows, Bool.and_eq_true, beq_iff_eq, Bool.not_eq_true', Bool.and_eq_false_iff,
    decide_eq_false_iff_not, beq_eq_false_iff_ne]
  omega

/-- A nonempty run of scalar values, each of which follows the one before it. -/
structure IsBlock (block : List Nat) : Prop where
  nonempty : block ≠ []
  scalars : ∀ scalar ∈ block, IsScalar scalar
  chain : block.IsChain fun first second => follows first second

theorem isBlock_of_mem_splitBy {stretch block : List Nat}
    (scalars : ∀ scalar ∈ stretch, IsScalar scalar) (member : block ∈ stretch.splitBy follows) :
    IsBlock block := by
  refine ⟨List.ne_nil_of_mem_splitBy member, ?_, List.isChain_of_mem_splitBy member⟩
  intro scalar inBlock
  have inStretch : scalar ∈ (stretch.splitBy follows).flatten :=
    List.mem_flatten.2 ⟨block, member, inBlock⟩
  rw [List.flatten_splitBy] at inStretch
  exact scalars scalar inStretch

theorem isScalar_of_mem_stretches {history : List Operation} {stretch : List Nat}
    (isStretch : stretch ∈ stretches history) : ∀ scalar ∈ stretch, IsScalar scalar := by
  intro scalar member
  have inHistory : scalar ∈ (stretches history).flatten :=
    List.mem_flatten.2 ⟨stretch, isStretch, member⟩
  rw [flatten_stretches] at inHistory
  exact isScalar_of_mem_accepted inHistory

theorem isBlock_of_mem_blocks {history : List Operation} {block : List Nat}
    (member : block ∈ blocks history) : IsBlock block := by
  obtain ⟨stretch, isStretch, isPart⟩ := List.mem_flatMap.1 member
  exact isBlock_of_mem_splitBy (isScalar_of_mem_stretches isStretch) isPart

theorem blockInterval_of_ne_nil {block : List Nat} (nonempty : block ≠ []) :
    blockInterval block = ⟨low (block.head nonempty), low (block.getLast nonempty)⟩ := by
  rw [blockInterval, List.headD_eq_head?_getD, List.head?_eq_some_head nonempty,
    List.getLastD_eq_getLast?, List.getLast?_eq_some_getLast nonempty]
  rfl

namespace IsBlock

theorem second_of_cons_cons {first second : Nat} {rest : List Nat}
    (isBlock : IsBlock (first :: second :: rest)) :
    high first = high second ∧ (low first).toNat + 1 = (low second).toNat :=
  (follows_iff (isBlock.scalars first (by simp)) (isBlock.scalars second (by simp))).1
    (List.isChain_cons_cons.1 isBlock.chain).1

theorem tail_of_cons_cons {first second : Nat} {rest : List Nat}
    (isBlock : IsBlock (first :: second :: rest)) : IsBlock (second :: rest) where
  nonempty := by simp
  scalars scalar member := isBlock.scalars scalar (List.mem_cons_of_mem first member)
  chain := (List.isChain_cons_cons.1 isBlock.chain).2

theorem high_eq {block : List Nat} (isBlock : IsBlock block) :
    ∀ scalar ∈ block, high scalar = blockHigh block := by
  induction block with
  | nil => simp
  | cons first rest ih =>
      intro scalar member
      rcases List.mem_cons.1 member with rfl | later
      · rfl
      · cases rest with
        | nil => simp at later
        | cons second rest =>
            have shared := ih isBlock.tail_of_cons_cons scalar later
            rw [shared]
            exact isBlock.second_of_cons_cons.1.symm

/-- A block begins and ends in order, and its interval holds the low units of its scalar
    values and no others. -/
theorem units_blockInterval {block : List Nat} (isBlock : IsBlock block) :
    (blockInterval block).start ≤ (blockInterval block).stop ∧
      (blockInterval block).units = block.map low := by
  induction block with
  | nil => exact absurd rfl isBlock.nonempty
  | cons first rest ih =>
      cases rest with
      | nil => exact ⟨UInt16.le_refl _, Interval.units_single _⟩
      | cons second rest =>
          obtain ⟨ordered, units⟩ := ih isBlock.tail_of_cons_cons
          have neighbours := isBlock.second_of_cons_cons.2
          refine ⟨?_, ?_⟩
          · rw [UInt16.le_iff_toNat_le] at ordered ⊢
            exact Nat.le_trans (by simp [blockInterval]; omega) ordered
          · rw [List.map_cons, ← units]
            exact Interval.units_cons neighbours ordered

/-- A block extends the interval of another exactly if it begins with the scalar value that
    follows the last one there. -/
theorem extends_iff {block next : List Nat} (isBlock : IsBlock block)
    (isNext : IsBlock next) :
    OpenInterval.Extends ⟨blockHigh block, blockInterval block⟩ (Pair.ofNat (next.headD 0)) ↔
      follows (block.getLast isBlock.nonempty) (next.head isNext.nonempty) = true := by
  have first : next.headD 0 = next.head isNext.nonempty := by
    rw [List.headD_eq_head?_getD, List.head?_eq_some_head isNext.nonempty, Option.getD_some]
  have isLast := List.getLast_mem isBlock.nonempty
  have isFirst := List.head_mem isNext.nonempty
  rw [follows_iff (isBlock.scalars _ isLast) (isNext.scalars _ isFirst),
    isBlock.high_eq _ isLast, first, OpenInterval.Extends, blockInterval_of_ne_nil isBlock.nonempty]
  rfl

end IsBlock

end History

end SymbolRules
