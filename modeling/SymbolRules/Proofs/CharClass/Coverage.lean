import SymbolRules.Proofs.CharClass.Reading

/-!
# What the pattern of a compressor covers

The pattern of a compressor lists exactly the scalar values that its history added: for each
high unit in order of first use, those under it in order and as often as they were added. So
it matches their encodings and nothing else (`matches_pattern_run_iff`).
-/

namespace SymbolRules

namespace History

open Compressor (Operation)

/-- Scalar values sorted under their high units, in the order of first use. -/
def underHighs (scalars : List Nat) : List (CodeUnit × List Nat) :=
  (scalars.map high).eraseDups.map fun unit => (unit, scalars.filter (high · == unit))

theorem decode_high_low {scalar : Nat} (isScalar : IsScalar scalar) :
    Pair.decode ⟨high scalar, low scalar⟩ = scalar := by
  have bound := isScalar.2.1
  exact Pair.decode_ofNat (by omega)

theorem flatten_filter_blocks (history : List Operation) (unit : CodeUnit) :
    ((blocks history).filter (blockHigh · == unit)).flatten =
      (accepted history).filter (high · == unit) := by
  have areBlocks : ∀ block ∈ blocks history, IsBlock block := fun _ => isBlock_of_mem_blocks
  rw [← flatten_blocks]
  generalize blocks history = blocks at areBlocks
  induction blocks with
  | nil => rfl
  | cons block blocks ih =>
      have isBlock := areBlocks block (List.mem_cons_self ..)
      have rest := ih fun other member => areBlocks other (List.mem_cons_of_mem block member)
      rw [List.flatten_cons, List.filter_append, ← rest, List.filter_cons]
      by_cases under : blockHigh block == unit
      · have all : block.filter (high · == unit) = block := by
          rw [List.filter_eq_self]
          intro scalar member
          rw [isBlock.high_eq scalar member]
          exact under
        rw [if_pos under, all, List.flatten_cons]
      · have none : block.filter (high · == unit) = [] := by
          rw [List.filter_eq_nil_iff]
          intro scalar member
          rw [isBlock.high_eq scalar member]
          exact under
        rw [if_neg under, none, List.nil_append]

/-- The intervals of the groups of a history begin and end in order, and hold the low units of
    the scalar values under their high unit. -/
theorem ordered_and_lowUnits_of_mem_groups {history : List Operation} {group : Group}
    (member : group ∈ groups history) :
    (∀ interval ∈ group.intervals, interval.start ≤ interval.stop) ∧
      group.lowUnits = ((accepted history).filter (high · == group.high)).map low := by
  obtain ⟨unit, -, rfl⟩ := List.mem_map.1 member
  have isBlock : ∀ block ∈ (blocks history).filter (blockHigh · == unit), IsBlock block :=
    fun block isIn => isBlock_of_mem_blocks (List.mem_of_mem_filter isIn)
  constructor
  · intro interval isInterval
    obtain ⟨block, isIn, rfl⟩ := List.mem_map.1 isInterval
    exact (isBlock block isIn).units_blockInterval.1
  · rw [← flatten_filter_blocks, Group.lowUnits, List.flatMap_map, List.map_flatten,
      ← List.flatMap_def]
    apply List.flatMap_congr
    intro block isIn
    exact (isBlock block isIn).units_blockInterval.2

/-- A low unit stands in a group under a high unit exactly if a scalar value with these units was
    added. -/
theorem exists_mem_lowUnits_iff {history : List Operation} {first second : CodeUnit} :
    (∃ group ∈ groups history, group.high = first ∧ second ∈ group.lowUnits) ↔
      ∃ scalar ∈ accepted history, high scalar = first ∧ low scalar = second := by
  constructor
  · rintro ⟨group, isGroup, rfl, inGroup⟩
    rw [(ordered_and_lowUnits_of_mem_groups isGroup).2] at inGroup
    obtain ⟨scalar, inHigh, rfl⟩ := List.mem_map.1 inGroup
    obtain ⟨inHistory, under⟩ := List.mem_filter.1 inHigh
    exact ⟨scalar, inHistory, beq_iff_eq.1 under, rfl⟩
  · rintro ⟨scalar, inHistory, rfl, rfl⟩
    obtain ⟨group, isGroup, sameHigh⟩ : ∃ group ∈ groups history, group.high = high scalar := by
      refine ⟨_, List.mem_map_of_mem (List.mem_eraseDups.2 (List.mem_map_of_mem inHistory)), rfl⟩
    refine ⟨group, isGroup, sameHigh, ?_⟩
    rw [(ordered_and_lowUnits_of_mem_groups isGroup).2]
    exact List.mem_map_of_mem (List.mem_filter.2 ⟨inHistory, by simp [sameHigh]⟩)

theorem groups_eq_nil_iff {history : List Operation} :
    groups history = [] ↔ accepted history = [] := by
  rw [groups, List.map_eq_nil_iff]
  constructor
  · intro unused
    rw [List.eq_nil_iff_forall_not_mem] at unused ⊢
    intro scalar member
    exact unused (high scalar) (List.mem_eraseDups.2 (List.mem_map_of_mem member))
  · intro nothing
    rw [nothing]
    rfl

end History

namespace Group

theorem high_alternative (group : Group) : group.alternative.high = group.high := by
  unfold alternative Alternative.high
  dsimp only
  split
  · rename_i isZero
    exact (beq_iff_eq.1 isZero).symm
  · rfl

theorem flatMap_units_alternative {group : Group}
    (ordered : ∀ interval ∈ group.intervals, interval.start ≤ interval.stop) :
    group.alternative.spans.flatMap Interval.units = group.lowUnits := by
  rw [alternative, lowUnits, List.flatMap_assoc]
  apply List.flatMap_congr
  intro interval member
  exact Interval.flatMap_units_spans (ordered interval member)

theorem ordered_of_mem_spans {interval span : Interval} (ordered : interval.start ≤ interval.stop)
    (member : span ∈ interval.spans) : span.start ≤ span.stop := by
  unfold Interval.spans at member
  split at member
  · obtain rfl := List.mem_singleton.1 member
    exact UInt16.le_refl _
  · rcases List.mem_cons.1 member with rfl | second
    · exact UInt16.le_refl _
    · obtain rfl := List.mem_singleton.1 second
      exact UInt16.le_refl _
  · obtain rfl := List.mem_singleton.1 member
    exact ordered

theorem matches_alternative_iff {group : Group}
    (ordered : ∀ interval ∈ group.intervals, interval.start ≤ interval.stop)
    (units : List CodeUnit) :
    group.alternative.Matches units ↔
      ∃ unit ∈ group.lowUnits, units = (Pair.mk group.high unit).units := by
  have written : ∀ unit, group.alternative.lead.toList ++ [unit] =
      (Pair.mk group.high unit).units := by
    intro unit
    unfold alternative Pair.units Pair.isBmp
    dsimp only
    split
    · rfl
    · rfl
  have covered : ∀ unit, (∃ span ∈ group.alternative.spans, span.Contains unit) ↔
      unit ∈ group.lowUnits := by
    intro unit
    rw [← flatMap_units_alternative ordered, List.mem_flatMap]
    refine exists_congr fun span => and_congr_right fun isSpan => ?_
    obtain ⟨interval, isInterval, isPart⟩ := List.mem_flatMap.1 isSpan
    exact (Interval.mem_units (ordered_of_mem_spans (ordered interval isInterval) isPart)).symm
  unfold Alternative.Matches
  refine exists_congr fun unit => ?_
  rw [covered, written]

end Group

namespace Compressor

open History

theorem read?_pattern_run (history : List Operation) :
    Pattern.read? (run history).pattern.toList =
      some ((History.groups history).map Group.alternative) := by
  rw [pattern, String.toList_ofList, closedGroups, groups_close_run, Pattern.read?_patternChars]

theorem pattern_run_eq_empty_iff {history : List Operation} :
    (run history).pattern = "" ↔ accepted history = [] := by
  rw [pattern, closedGroups, groups_close_run, ← History.groups_eq_nil_iff,
    ← Pattern.patternChars_eq_nil_iff, ← String.toList_inj, String.toList_ofList]
  rfl

theorem isEmpty_iff {compressor : Compressor} :
    compressor.isEmpty = true ↔ compressor.close.groups = [] := by
  rw [groups_close, isEmpty, groups, Bool.and_eq_true, List.isEmpty_iff, Option.isNone_iff_eq_none]
  cases held : compressor.current with
  | none => simp
  | some current =>
      have filled : Group.insertInto current.high current.interval
          (compressor.builders.map GroupBuilder.toGroup) ≠ [] := by
        cases compressor.builders with
        | nil => simp [Group.insertInto]
        | cons builder rest =>
            rw [List.map_cons, Group.insertInto]
            split <;> simp
      simp [filled]

theorem isEmpty_run_iff {history : List Operation} :
    (run history).isEmpty = true ↔ accepted history = [] := by
  rw [isEmpty_iff, groups_close_run, History.groups_eq_nil_iff]

theorem scalars_alternative {history : List Operation} {group : Group}
    (member : group ∈ History.groups history) :
    group.alternative.scalars = (accepted history).filter (high · == group.high) := by
  obtain ⟨ordered, lowUnits⟩ := ordered_and_lowUnits_of_mem_groups member
  rw [Alternative.scalars, Group.flatMap_units_alternative ordered, lowUnits, List.map_map,
    group.high_alternative]
  have back : ∀ scalar ∈ (accepted history).filter (high · == group.high),
      ((fun unit => Pair.decode ⟨group.high, unit⟩) ∘ low) scalar = id scalar := by
    intro scalar inGroup
    obtain ⟨inHistory, under⟩ := List.mem_filter.1 inGroup
    rw [Function.comp_apply, ← beq_iff_eq.1 under]
    exact decode_high_low (isScalar_of_mem_accepted inHistory)
  rw [List.map_congr_left back, List.map_id]

/-- The pattern of a history matches the encodings of the scalar values that it added. -/
theorem matches_pattern_run_iff (history : List Operation) (units : List CodeUnit) :
    Pattern.Matches (run history).pattern.toList units ↔
      ∃ scalar ∈ accepted history, units = (Pair.ofNat scalar).units := by
  have written : ∀ scalar, (Pair.mk (high scalar) (low scalar)) = Pair.ofNat scalar := fun _ => rfl
  unfold Pattern.Matches
  rw [read?_pattern_run history]
  constructor
  · rintro ⟨alternatives, read, alternative, member, isMatch⟩
    obtain rfl := Option.some.inj read
    obtain ⟨group, isGroup, rfl⟩ := List.mem_map.1 member
    have ordered := (ordered_and_lowUnits_of_mem_groups isGroup).1
    obtain ⟨unit, inGroup, rfl⟩ := (Group.matches_alternative_iff ordered units).1 isMatch
    obtain ⟨scalar, inHistory, isHigh, isLow⟩ :=
      exists_mem_lowUnits_iff.1 ⟨group, isGroup, rfl, inGroup⟩
    exact ⟨scalar, inHistory, by rw [← written, isHigh, isLow]⟩
  · rintro ⟨scalar, inHistory, rfl⟩
    obtain ⟨group, isGroup, sameHigh, inGroup⟩ :=
      exists_mem_lowUnits_iff.2 ⟨scalar, inHistory, rfl, rfl⟩
    have ordered := (ordered_and_lowUnits_of_mem_groups isGroup).1
    refine ⟨_, rfl, group.alternative, List.mem_map_of_mem isGroup, ?_⟩
    rw [Group.matches_alternative_iff ordered]
    exact ⟨low scalar, inGroup, by rw [sameHigh, written]⟩

/-- Whether a scalar value lies in an interval of a compressor. -/
def Covers (compressor : Compressor) (scalar : Nat) : Prop :=
  ∃ group ∈ compressor.closedGroups, ∃ interval ∈ group.intervals,
    ∃ unit, interval.Contains unit ∧ scalar = Pair.decode ⟨group.high, unit⟩

/-- A compressor covers the scalar values of its history and no others. -/
theorem covers_run_iff {history : List Operation} {scalar : Nat} :
    (run history).Covers scalar ↔ scalar ∈ accepted history := by
  unfold Covers closedGroups
  rw [groups_close_run]
  constructor
  · rintro ⟨group, isGroup, interval, isIn, unit, covered, rfl⟩
    have ordered := (ordered_and_lowUnits_of_mem_groups isGroup).1 interval isIn
    have inGroup : unit ∈ group.lowUnits :=
      List.mem_flatMap.2 ⟨interval, isIn, (Interval.mem_units ordered).2 covered⟩
    obtain ⟨scalar, inHistory, isHigh, isLow⟩ :=
      exists_mem_lowUnits_iff.1 ⟨group, isGroup, rfl, inGroup⟩
    rw [← isHigh, ← isLow, decode_high_low (isScalar_of_mem_accepted inHistory)]
    exact inHistory
  · intro inHistory
    obtain ⟨group, isGroup, sameHigh, inGroup⟩ :=
      exists_mem_lowUnits_iff.2 ⟨scalar, inHistory, rfl, rfl⟩
    obtain ⟨interval, isIn, inInterval⟩ := List.mem_flatMap.1 inGroup
    have ordered := (ordered_and_lowUnits_of_mem_groups isGroup).1 interval isIn
    refine ⟨group, isGroup, interval, isIn, low scalar,
      (Interval.mem_units ordered).1 inInterval, ?_⟩
    rw [sameHigh, decode_high_low (isScalar_of_mem_accepted inHistory)]

theorem map_scalars_groups (history : List Operation) :
    ((History.groups history).map Group.alternative).map
        (fun alternative => (alternative.high, alternative.scalars)) =
      underHighs (accepted history) := by
  have each : ∀ group ∈ History.groups history,
      (group.alternative.high, group.alternative.scalars) =
        (group.high, (accepted history).filter (high · == group.high)) := by
    intro group member
    rw [group.high_alternative, scalars_alternative member]
  rw [List.map_map, Function.comp_def, List.map_congr_left each, History.groups, List.map_map]
  rfl

/-- Serializing loses nothing: the text can be read, and lists under each high unit the scalar
    values added, in order and as often as they were added. So equal texts come from the same
    scalar values under each high unit, and only an unused compressor gives the empty text. -/
theorem read?_serialize (history : List Operation) :
    ∃ text alternatives, ((run history).perform .serialize).1 = .text text ∧
      Pattern.read? text.toList = some alternatives ∧
      alternatives.map (fun alternative => (alternative.high, alternative.scalars)) =
        underHighs (accepted history) ∧
      (∀ other, ((run other).perform .serialize).1 = .text text →
        underHighs (accepted other) = underHighs (accepted history)) ∧
      (text = "" ↔ accepted history = []) := by
  refine ⟨(run history).pattern, (History.groups history).map Group.alternative, rfl,
    read?_pattern_run history, map_scalars_groups history, ?_, pattern_run_eq_empty_iff⟩
  intro other same
  have sameText : (run other).pattern = (run history).pattern := Answer.text.inj same
  have read := read?_pattern_run other
  rw [sameText, read?_pattern_run history] at read
  rw [← map_scalars_groups other, ← map_scalars_groups history, Option.some.inj read]

end Compressor

end SymbolRules
