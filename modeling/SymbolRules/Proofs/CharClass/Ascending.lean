import Mathlib.Data.List.Sort
import SymbolRules.Proofs.CharClass.Coverage

/-!
# Ascending scalar values

Scalar values that are taken in ascending order, with nothing closed in between, are compressed as
far as possible. Groups ascend and so do the intervals of a group, with a gap between each and the
next, and no shorter list of intervals covers the same units (`Interval.length_le_of_sameCover`).
The pattern is then a normal form: it is the same for two ascending sequences only if they are the
same (`Compressor.canonical_run_ascending`).
-/

namespace SymbolRules

namespace Interval

/-- Whether a unit lies in one of some intervals. -/
def IsCovered (intervals : List Interval) (unit : CodeUnit) : Prop :=
  ∃ interval ∈ intervals, interval.Contains unit

theorem isCovered_iff {intervals : List Interval}
    (ordered : ∀ interval ∈ intervals, interval.start ≤ interval.stop) {unit : CodeUnit} :
    IsCovered intervals unit ↔ unit ∈ intervals.flatMap units := by
  rw [IsCovered, List.mem_flatMap]
  refine exists_congr fun interval => and_congr_right fun member => ?_
  exact (mem_units (ordered interval member)).symm

/-- Intervals that ascend, with at least one unit between an interval and any later one. -/
def AreApart (intervals : List Interval) : Prop :=
  intervals.Pairwise fun first next => first.stop.toNat + 1 < next.start.toNat

/-- The unit behind an interval is not covered. -/
theorem AreApart.not_isCovered {intervals : List Interval} (apart : AreApart intervals)
    {interval : Interval} (member : interval ∈ intervals) (ordered : interval.start ≤ interval.stop)
    {unit : CodeUnit} (behind : unit.toNat = interval.stop.toNat + 1) :
    ¬ IsCovered intervals unit := by
  intro ⟨other, isOther, contains⟩
  have sides : other = interval ∨ other.stop.toNat + 1 < interval.start.toNat ∨
      interval.stop.toNat + 1 < other.start.toNat := by
    obtain ⟨front, back, rfl⟩ := List.append_of_mem member
    obtain ⟨-, later, earlier⟩ := List.pairwise_append.1 apart
    rcases List.mem_append.1 isOther with before | after
    · exact .inr (.inl (earlier other before interval (List.mem_cons_self ..)))
    · rcases List.mem_cons.1 after with same | after
      · exact .inl same
      · exact .inr (.inr ((List.pairwise_cons.1 later).1 other after))
  simp only [Contains, UInt16.le_iff_toNat_le] at contains ordered
  rcases sides with rfl | before | after
  · omega
  · omega
  · omega

/-- No list of intervals that covers the same units as intervals with gaps between them is
    shorter: an interval that contains the first units of two of them contains the gap as well. -/
theorem length_le_of_sameCover {intervals others : List Interval}
    (ordered : ∀ interval ∈ intervals, interval.start ≤ interval.stop) (apart : AreApart intervals)
    (same : ∀ unit, IsCovered others unit ↔ IsCovered intervals unit) :
    intervals.length ≤ others.length := by
  have found : ∀ interval ∈ intervals, ∃ other ∈ others, other.Contains interval.start :=
    fun interval member => (same interval.start).2
      ⟨interval, member, UInt16.le_refl _, ordered interval member⟩
  choose! pick isOther contains using found
  have distinct : (intervals.map pick).Nodup := by
    rw [List.Nodup, List.pairwise_map]
    refine apart.imp_of_mem ?_
    intro first next isFirst isNext gap samePick
    have bound := next.start.toNat_lt
    have behind : (UInt16.ofNat (first.stop.toNat + 1)).toNat = first.stop.toNat + 1 := by
      rw [UInt16.toNat_ofNat']
      omega
    apply apart.not_isCovered isFirst (ordered first isFirst) behind
    rw [← same]
    refine ⟨pick first, isOther first isFirst, ?_⟩
    have fromFirst := (contains first isFirst).1
    have toNext := (contains next isNext).2
    have isOrdered := ordered first isFirst
    rw [← samePick] at toNext
    rw [UInt16.le_iff_toNat_le] at fromFirst toNext isOrdered
    rw [Contains, UInt16.le_iff_toNat_le, UInt16.le_iff_toNat_le, behind]
    omega
  have inside : intervals.map pick ⊆ others := by
    intro other member
    obtain ⟨interval, isInterval, rfl⟩ := List.mem_map.1 member
    exact isOther interval isInterval
  calc intervals.length = (intervals.map pick).length := (List.length_map pick).symm
    _ ≤ others.length := (List.subperm_of_subset distinct inside).length_le

end Interval

/-- Groups that cover the units of scalar values, and no others, with as few intervals as possible:
    groups ascend by their high units, the intervals of a group ascend with gaps between them, and
    no list of intervals that covers the same units is shorter. -/
structure Group.AreCanonical (groups : List Group) (scalars : List Nat) : Prop where
  ascending : (groups.map Group.high).Pairwise (· < ·)
  ordered : ∀ group ∈ groups, ∀ interval ∈ group.intervals, interval.start ≤ interval.stop
  apart : ∀ group ∈ groups, Interval.AreApart group.intervals
  covers : ∀ first second,
    (∃ group ∈ groups, group.high = first ∧ Interval.IsCovered group.intervals second) ↔
      ∃ scalar ∈ scalars, History.high scalar = first ∧ History.low scalar = second
  shortest : ∀ group ∈ groups, ∀ others : List Interval,
    (∀ unit, Interval.IsCovered others unit ↔ Interval.IsCovered group.intervals unit) →
      group.intervals.length ≤ others.length

namespace History

open Compressor (Operation)

theorem stretches_of_not_closes {history : List Operation}
    (unclosed : ∀ operation ∈ history, operation.closes = false) :
    stretches history = [accepted history] := by
  induction history with
  | nil => rfl
  | cons operation history ih =>
      obtain ⟨first, rest, cut, grown⟩ :=
        exists_stretches_cons (unclosed operation (List.mem_cons_self ..)) history
      rw [ih fun other member => unclosed other (List.mem_cons_of_mem operation member)] at cut
      obtain ⟨rfl, rfl⟩ := List.cons.inj cut
      rw [grown, accepted_cons]

theorem blocks_of_not_closes {history : List Operation}
    (unclosed : ∀ operation ∈ history, operation.closes = false) :
    blocks history = (accepted history).splitBy follows := by
  rw [blocks, stretches_of_not_closes unclosed, List.flatMap_singleton]

theorem exists_mem_underHighs_iff {scalars : List Nat} {scalar : Nat} :
    (∃ row ∈ underHighs scalars, scalar ∈ row.2) ↔ scalar ∈ scalars := by
  constructor
  · intro ⟨row, isRow, inRow⟩
    obtain ⟨unit, -, rfl⟩ := List.mem_map.1 isRow
    exact List.mem_of_mem_filter inRow
  · intro member
    have used : high scalar ∈ (scalars.map high).eraseDups :=
      List.mem_eraseDups.2 (List.mem_map_of_mem member)
    exact ⟨_, List.mem_map_of_mem used, List.mem_filter.2 ⟨member, beq_self_eq_true _⟩⟩

/-- No block of ascending scalar values is continued by the first of any later block. -/
theorem pairwise_blocks {blocks : List (List Nat)} (nonempty : ∀ block ∈ blocks, block ≠ [])
    (ascending : blocks.Pairwise fun first second => ∀ x ∈ first, ∀ y ∈ second, x < y)
    (separate : blocks.IsChain fun first second =>
      ∃ hasLast hasHead, follows (first.getLast hasLast) (second.head hasHead) = false) :
    blocks.Pairwise fun first second =>
      ∃ hasLast hasHead, follows (first.getLast hasLast) (second.head hasHead) = false := by
  induction blocks with
  | nil => exact .nil
  | cons block blocks ih =>
      obtain ⟨later, ascendingLater⟩ := List.pairwise_cons.1 ascending
      have nonemptyLater : ∀ other ∈ blocks, other ≠ [] :=
        fun other member => nonempty other (List.mem_cons_of_mem block member)
      refine List.pairwise_cons.2 ⟨?_, ih nonemptyLater ascendingLater separate.tail⟩
      intro other member
      cases blocks with
      | nil => cases member
      | cons next blocks =>
          rcases List.mem_cons.1 member with rfl | behind
          · exact (List.isChain_cons_cons.1 separate).1
          · -- The next block lies in between, so there is a scalar value between the two.
            have hasLast := nonempty block (List.mem_cons_self ..)
            have hasHead := nonemptyLater other member
            obtain ⟨middle, isMiddle⟩ :=
              List.exists_mem_of_ne_nil next (nonemptyLater next (List.mem_cons_self ..))
            have above := later next (List.mem_cons_self ..) _ (List.getLast_mem hasLast) _ isMiddle
            have below := (List.pairwise_cons.1 ascendingLater).1 other behind _ isMiddle _
              (List.head_mem hasHead)
            refine ⟨hasLast, hasHead, ?_⟩
            simp only [follows, Bool.and_eq_false_iff, beq_eq_false_iff_ne]
            left
            omega

/-- Between the intervals of two blocks with the same high unit there is a gap, if the second begins
    further on and does not continue the first. -/
theorem IsBlock.gap {first second : List Nat} (isFirst : IsBlock first) (isSecond : IsBlock second)
    (ascending : ∀ x ∈ first, ∀ y ∈ second, x < y)
    (separate : ∃ hasLast hasHead, follows (first.getLast hasLast) (second.head hasHead) = false)
    (sameHigh : blockHigh first = blockHigh second) :
    (blockInterval first).stop.toNat + 1 < (blockInterval second).start.toNat := by
  obtain ⟨hasLast, hasHead, cut⟩ := separate
  have isLast := List.getLast_mem hasLast
  have isHead := List.head_mem hasHead
  have lastIsScalar := isFirst.scalars _ isLast
  have headIsScalar := isSecond.scalars _ isHead
  have highs : high (first.getLast hasLast) = high (second.head hasHead) := by
    rw [isFirst.high_eq _ isLast, isSecond.high_eq _ isHead, sameHigh]
  have apart : ¬ (low (first.getLast hasLast)).toNat + 1 = (low (second.head hasHead)).toNat := by
    intro next
    rw [(follows_iff lastIsScalar headIsScalar).2 ⟨highs, next⟩] at cut
    cases cut
  have above := (Pair.lt_iff lastIsScalar headIsScalar).1 (ascending _ isLast _ isHead)
  rw [blockInterval_of_ne_nil hasLast, blockInterval_of_ne_nil hasHead]
  show (low (first.getLast hasLast)).toNat + 1 < (low (second.head hasHead)).toNat
  rw [high, high, ← UInt16.toNat_inj] at highs
  rw [low, low] at apart ⊢
  omega

section Unclosed

variable {history : List Operation} (unclosed : ∀ operation ∈ history, operation.closes = false)
  (ascending : (accepted history).Pairwise (· < ·))

include unclosed ascending

theorem areApart_of_mem_groups {group : Group} (member : group ∈ groups history) :
    Interval.AreApart group.intervals := by
  have areBlocks : ∀ block ∈ blocks history, IsBlock block := fun _ => isBlock_of_mem_blocks
  have inOrder : (blocks history).Pairwise
      fun first second => ∀ x ∈ first, ∀ y ∈ second, x < y := by
    rw [← flatten_blocks] at ascending
    exact (List.pairwise_flatten.1 ascending).2
  have separate := List.isChain_getLast_head_splitBy follows (accepted history)
  rw [← blocks_of_not_closes unclosed] at separate
  have cuts := pairwise_blocks (fun block isBlock => (areBlocks block isBlock).nonempty) inOrder
    separate
  obtain ⟨unit, -, rfl⟩ := List.mem_map.1 member
  rw [Interval.AreApart, List.pairwise_map, List.pairwise_filter]
  refine (inOrder.and cuts).imp_of_mem ?_
  intro first second isFirst isSecond ⟨order, cut⟩ firstHigh secondHigh
  exact (areBlocks first isFirst).gap (areBlocks second isSecond) order cut
    ((beq_iff_eq.1 firstHigh).trans (beq_iff_eq.1 secondHigh).symm)

omit unclosed in
theorem pairwise_map_high_groups : ((groups history).map Group.high).Pairwise (· < ·) := by
  have highs : (groups history).map Group.high = ((accepted history).map high).eraseDups := by
    rw [groups, List.map_map]
    exact List.map_id _
  have weakly : ((accepted history).map high).Pairwise (· ≤ ·) := by
    rw [List.pairwise_map]
    refine ascending.imp_of_mem ?_
    intro first second isFirst isSecond less
    have units := (Pair.lt_iff (isScalar_of_mem_accepted isFirst)
      (isScalar_of_mem_accepted isSecond)).1 less
    rw [← UInt16.toNat_inj] at units
    rw [high, high, UInt16.le_iff_toNat_le]
    omega
  rw [highs]
  refine ((weakly.sublist (Keyed.eraseDups_sublist _)).and (Keyed.nodup_eraseDups _)).imp ?_
  rintro first second ⟨notAbove, different⟩
  exact UInt16.lt_of_le_of_ne notAbove different

end Unclosed

end History

namespace Compressor

open History

/-- The text of ascending scalar values determines them, if nothing is closed in between. -/
theorem pattern_run_eq_iff_of_ascending {first second : List Operation}
    (firstUnclosed : ∀ operation ∈ first, operation.closes = false)
    (secondUnclosed : ∀ operation ∈ second, operation.closes = false)
    (firstAscending : (accepted first).Pairwise (· < ·))
    (secondAscending : (accepted second).Pairwise (· < ·)) :
    (run first).pattern = (run second).pattern ↔ accepted first = accepted second := by
  constructor
  · intro sameText
    have listed := read?_pattern_run first
    rw [sameText, read?_pattern_run second] at listed
    have sameRows : underHighs (accepted first) = underHighs (accepted second) := by
      rw [← map_scalars_groups, ← map_scalars_groups, Option.some.inj listed]
    apply firstAscending.eq_of_mem_iff secondAscending
    intro scalar
    rw [← exists_mem_underHighs_iff, sameRows, exists_mem_underHighs_iff]
  · intro same
    have sameGroups : History.groups first = History.groups second := by
      rw [History.groups, History.groups, blocks_of_not_closes firstUnclosed,
        blocks_of_not_closes secondUnclosed, same]
    rw [pattern, pattern, closedGroups, closedGroups, groups_close_run, groups_close_run,
      sameGroups]

theorem areCanonical_groups {history : List Operation}
    (unclosed : ∀ operation ∈ history, operation.closes = false)
    (ascending : (accepted history).Pairwise (· < ·)) :
    Group.AreCanonical (History.groups history) (accepted history) := by
  have ordered : ∀ group ∈ History.groups history, ∀ interval ∈ group.intervals,
      interval.start ≤ interval.stop :=
    fun group member => (ordered_and_lowUnits_of_mem_groups member).1
  have apart : ∀ group ∈ History.groups history, Interval.AreApart group.intervals :=
    fun group member => areApart_of_mem_groups unclosed ascending member
  refine ⟨pairwise_map_high_groups ascending, ordered, apart, ?_, ?_⟩
  · intro first second
    rw [← exists_mem_lowUnits_iff]
    refine exists_congr fun group => and_congr_right fun member => ?_
    rw [Interval.isCovered_iff (ordered group member), Group.lowUnits]
  · intro group member others same
    exact Interval.length_le_of_sameCover (ordered group member) (apart group member) same

/-- Ascending scalar values that are taken without closing give canonical groups. Two such
    sequences give the same text exactly if they are the same. -/
theorem canonical_run_ascending {history : List Operation}
    (unclosed : ∀ operation ∈ history, operation.closes = false)
    (ascending : (accepted history).Pairwise (· < ·)) :
    ∃ groups text, ((run history).perform .close).1 = .groups groups ∧
      ((run history).perform .serialize).1 = .text text ∧
      Group.AreCanonical groups (accepted history) ∧
      ∀ other : List Operation, (∀ operation ∈ other, operation.closes = false) →
        (accepted other).Pairwise (· < ·) →
          (((run other).perform .serialize).1 = .text text ↔
            accepted other = accepted history) := by
  refine ⟨History.groups history, (run history).pattern, perform_close_run history, rfl,
    areCanonical_groups unclosed ascending, ?_⟩
  intro other otherUnclosed otherAscending
  rw [← pattern_run_eq_iff_of_ascending otherUnclosed unclosed otherAscending ascending]
  constructor
  · intro sameAnswer
    exact Answer.text.inj sameAnswer
  · intro sameText
    exact congrArg Answer.text sameText

theorem canonical_run_ascending_planes :
    let history : List Operation :=
      [.add 0x41, .add 0x42, .isEmpty, .add 0xD7FF, .add 0xD800, .add 0xE000, .add 0xFFFF,
        .add 0x10000, .add 0x103FE, .add 0x103FF, .add 0x10400]
    (∀ operation ∈ history, operation.closes = false) ∧ (accepted history).Pairwise (· < ·) ∧
      ∃ groups text, ((run history).perform .close).1 = .groups groups ∧
        ((run history).perform .serialize).1 = .text text ∧
        Group.AreCanonical groups (accepted history) ∧
        ∀ other : List Operation, (∀ operation ∈ other, operation.closes = false) →
          (accepted other).Pairwise (· < ·) →
            (((run other).perform .serialize).1 = .text text ↔
              accepted other = accepted history) := by
  intro history
  have unclosed : ∀ operation ∈ history, operation.closes = false := by decide
  have ascending : (accepted history).Pairwise (· < ·) := by decide +kernel
  exact ⟨unclosed, ascending, canonical_run_ascending unclosed ascending⟩

end Compressor

end SymbolRules
