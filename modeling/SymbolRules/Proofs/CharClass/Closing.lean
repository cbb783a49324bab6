import SymbolRules.Proofs.CharClass.Cuts

/-!
# Closing between two parts of a history

Two patterns are the same text exactly if their alternatives list the same spans
(`Compressor.pattern_run_eq_iff`). A closing operation in the middle of a history changes at
most the spans of the block that it cuts, and these stay the same exactly if the block has
two scalar values, which are written one by one anyway (`History.spans_append_iff`).
-/

namespace SymbolRules

namespace Interval

theorem flatMap_chars_spans (interval : Interval) :
    interval.spans.flatMap chars = interval.chars := by
  rcases width : interval.stop.toNat - interval.start.toNat with _ | _ | more
  · simp [spans, chars, width, single]
  · simp [spans, chars, width, single]
  · simp [spans, width]

theorem spans_ne_nil (interval : Interval) : interval.spans ≠ [] := by
  unfold spans
  split <;> exact List.cons_ne_nil _ _

/-- Two neighbouring units are written as two spans, any other interval as one. -/
theorem length_spans (interval : Interval) :
    interval.spans.length = if interval.width = 2 then 2 else 1 := by
  rcases width : interval.stop.toNat - interval.start.toNat with _ | _ | more
  · simp [spans, Interval.width, width]
  · simp [spans, Interval.width, width]
  · simp [spans, Interval.width, width]

theorem spans_eq_single_iff {interval : Interval} (ordered : interval.start ≤ interval.stop)
    {unit : CodeUnit} : interval.spans = [.single unit] ↔ interval = .single unit := by
  obtain ⟨start, stop⟩ := interval
  rw [UInt16.le_iff_toNat_le] at ordered
  rcases width : stop.toNat - start.toNat with _ | _ | more
  · obtain rfl : start = stop :=
      UInt16.toNat_inj.1 (Nat.le_antisymm ordered (Nat.sub_eq_zero_iff_le.1 width))
    simp [spans, single]
  · simp only [spans, width]
    constructor
    · intro two
      cases two
    · rintro ⟨⟩
      omega
  · simp [spans, width]

end Interval

namespace Group

theorem isSingleUnit_iff {group : Group} :
    group.isSingleUnit = true ↔ ∃ unit, group.intervals = [.single unit] := by
  constructor
  · exact exists_single_of_isSingleUnit
  · rintro ⟨unit, isOnly⟩
    simp [isSingleUnit, isOnly, Interval.single]

theorem flatMap_spans_eq_single_iff {intervals : List Interval}
    (ordered : ∀ interval ∈ intervals, interval.start ≤ interval.stop) {unit : CodeUnit} :
    intervals.flatMap Interval.spans = [.single unit] ↔ intervals = [.single unit] := by
  match intervals with
  | [] => simp
  | [interval] =>
      rw [List.flatMap_singleton, List.singleton_inj]
      exact Interval.spans_eq_single_iff (ordered interval (List.mem_singleton_self _))
  | first :: second :: rest =>
      have hasFirst := List.length_pos_iff.2 first.spans_ne_nil
      have hasSecond := List.length_pos_iff.2 second.spans_ne_nil
      constructor
      · intro alone
        have one := congrArg List.length alone
        simp only [List.flatMap_cons, List.length_append, List.length_singleton] at one
        omega
      · intro alone
        cases alone

/-- The text of a group can be read off its alternative. -/
theorem chars_eq_of_alternative {group : Group}
    (ordered : ∀ interval ∈ group.intervals, interval.start ≤ interval.stop) :
    group.chars = chars ⟨group.alternative.high, group.alternative.spans⟩ := by
  have body : (group.intervals.flatMap Interval.spans).flatMap Interval.chars =
      group.intervals.flatMap Interval.chars := by
    rw [List.flatMap_assoc]
    exact congrArg group.intervals.flatMap (funext Interval.flatMap_chars_spans)
  have bare : isSingleUnit ⟨group.high, group.intervals.flatMap Interval.spans⟩ =
      group.isSingleUnit := by
    rw [Bool.eq_iff_iff, isSingleUnit_iff, isSingleUnit_iff]
    exact exists_congr fun unit => flatMap_spans_eq_single_iff ordered
  rw [high_alternative, alternative, chars, chars, classChars, classChars, body, bare]

end Group

namespace History

open Compressor (Operation)

theorem blocks_eq_nil_of_accepted {history : List Operation} (nothing : accepted history = []) :
    blocks history = [] := by
  rw [List.eq_nil_iff_forall_not_mem]
  intro block member
  have isBlock := isBlock_of_mem_blocks member
  rw [← flatten_blocks, List.flatten_eq_nil_iff] at nothing
  exact isBlock.nonempty (nothing block member)

/-- The spans that the blocks under a high unit are written as. -/
def spansUnder (unit : CodeUnit) (blocks : List (List Nat)) : List Interval :=
  ((blocks.filter (blockHigh · == unit)).map blockInterval).flatMap Interval.spans

theorem spansUnder_append (unit : CodeUnit) (front back : List (List Nat)) :
    spansUnder unit (front ++ back) = spansUnder unit front ++ spansUnder unit back := by
  rw [spansUnder, List.filter_append, List.map_append, List.flatMap_append]
  rfl

theorem spansUnder_cons (unit : CodeUnit) (block : List Nat) (blocks : List (List Nat)) :
    spansUnder unit (block :: blocks) =
      (if blockHigh block == unit then (blockInterval block).spans else []) ++
        spansUnder unit blocks := by
  rw [spansUnder, List.filter_cons]
  split <;> rfl

theorem IsBlock.width_blockInterval {block : List Nat} (isBlock : IsBlock block) :
    (blockInterval block).width = block.length := by
  have units := congrArg List.length isBlock.units_blockInterval.2
  simpa [Interval.units] using units

theorem IsBlock.blockHigh_eq {part block : List Nat} (isPart : IsBlock part)
    (isBlock : IsBlock block) (inside : ∀ scalar ∈ part, scalar ∈ block) :
    blockHigh part = blockHigh block := by
  obtain ⟨scalar, member⟩ := List.exists_mem_of_ne_nil part isPart.nonempty
  rw [← isPart.high_eq scalar member, isBlock.high_eq scalar (inside scalar member)]

/-- Cutting a block leaves its spans as they are exactly if it has two scalar values. -/
theorem spans_append_iff {left right : List Nat} (isLeft : IsBlock left) (isRight : IsBlock right)
    (isWhole : IsBlock (left ++ right)) :
    (blockInterval (left ++ right)).spans =
        (blockInterval left).spans ++ (blockInterval right).spans ↔
      (left ++ right).length = 2 := by
  constructor
  · intro same
    -- Both parts have a span, so the whole has two spans, and only two units have two spans.
    have lengths := congrArg List.length same
    have hasLeft := List.length_pos_iff.2 (blockInterval left).spans_ne_nil
    have hasRight := List.length_pos_iff.2 (blockInterval right).spans_ne_nil
    rw [List.length_append, Interval.length_spans, isWhole.width_blockInterval] at lengths
    split at lengths
    · assumption
    · omega
  · intro two
    match left, right with
    | [], _ => exact absurd rfl isLeft.nonempty
    | _, [] => exact absurd rfl isRight.nonempty
    | [first], [second] =>
        have neighbours := isWhole.second_of_cons_cons.2
        have width : (low second).toNat - (low first).toNat = 1 := by omega
        simp [blockInterval, Interval.spans, width]
    | first :: next :: left, second :: right =>
        simp only [List.length_append, List.length_cons] at two
        omega
    | [first], second :: next :: right =>
        simp only [List.length_append, List.length_cons] at two
        omega

end History

namespace Compressor

open History

theorem map_alternative_eq_iff {first second : List Operation}
    (same : accepted first = accepted second) :
    (History.groups first).map Group.alternative = (History.groups second).map Group.alternative ↔
      ∀ scalar ∈ accepted first,
        spansUnder (high scalar) (blocks first) = spansUnder (high scalar) (blocks second) := by
  rw [History.groups, History.groups, same, List.map_map, List.map_map, List.map_inj_left]
  constructor
  · intro each scalar member
    have sameHere := each (high scalar) (List.mem_eraseDups.2 (List.mem_map_of_mem member))
    exact congrArg Alternative.spans sameHere
  · intro each unit member
    obtain ⟨scalar, isAccepted, rfl⟩ := List.mem_map.1 (List.mem_eraseDups.1 member)
    exact congrArg (Alternative.mk _) (each scalar isAccepted)

/-- Histories that add the same scalar values give the same text exactly if they write them as
    the same spans. -/
theorem pattern_run_eq_iff {first second : List Operation}
    (same : accepted first = accepted second) :
    (run first).pattern = (run second).pattern ↔
      ∀ scalar ∈ accepted first,
        spansUnder (high scalar) (blocks first) = spansUnder (high scalar) (blocks second) := by
  rw [← map_alternative_eq_iff same]
  constructor
  · intro sameText
    have read := read?_pattern_run first
    rw [sameText, read?_pattern_run second] at read
    exact (Option.some.inj read).symm
  · intro sameAlternatives
    have written : ∀ history, (History.groups history).map Group.chars =
        ((History.groups history).map Group.alternative).map
          fun alternative => Group.chars ⟨alternative.high, alternative.spans⟩ := by
      intro history
      rw [List.map_map]
      apply List.map_congr_left
      intro group member
      exact Group.chars_eq_of_alternative (ordered_and_lowUnits_of_mem_groups member).1
    rw [pattern, pattern, closedGroups, closedGroups, groups_close_run, groups_close_run,
      patternChars, patternChars, written, written, sameAlternatives]

/-- Cutting one block changes the text unless the block has two scalar values. -/
theorem pattern_run_eq_iff_of_cut {whole parts : List Operation} {front back : List (List Nat)}
    {left right : List Nat} (same : accepted whole = accepted parts)
    (isWhole : blocks whole = front ++ (left ++ right) :: back)
    (areParts : blocks parts = front ++ left :: right :: back) :
    (run whole).pattern = (run parts).pattern ↔ (left ++ right).length = 2 := by
  have inWhole : left ++ right ∈ blocks whole := by simp [isWhole]
  have leftInParts : left ∈ blocks parts := by simp [areParts]
  have rightInParts : right ∈ blocks parts := by simp [areParts]
  have isBlock := isBlock_of_mem_blocks inWhole
  have isLeft := isBlock_of_mem_blocks leftInParts
  have isRight := isBlock_of_mem_blocks rightInParts
  have leftHigh : blockHigh left = blockHigh (left ++ right) :=
    isLeft.blockHigh_eq isBlock fun _ member => List.mem_append_left right member
  have rightHigh : blockHigh right = blockHigh (left ++ right) :=
    isRight.blockHigh_eq isBlock fun _ member => List.mem_append_right left member
  have each : ∀ unit, spansUnder unit (blocks whole) = spansUnder unit (blocks parts) ↔
      (blockHigh (left ++ right) = unit → (left ++ right).length = 2) := by
    intro unit
    rw [isWhole, areParts, spansUnder_append, spansUnder_append, List.append_cancel_left_eq,
      spansUnder_cons, spansUnder_cons, spansUnder_cons, leftHigh, rightHigh, ← List.append_assoc,
      List.append_cancel_right_eq]
    by_cases under : blockHigh (left ++ right) = unit
    · simp only [under, beq_self_eq_true, if_true, forall_const]
      exact spans_append_iff isLeft isRight isBlock
    · simp [under]
  rw [pattern_run_eq_iff same]
  constructor
  · intro sameSpans
    obtain ⟨scalar, inLeft⟩ := List.exists_mem_of_ne_nil left isLeft.nonempty
    have inBlock : scalar ∈ left ++ right := List.mem_append_left right inLeft
    have isAccepted : scalar ∈ accepted whole := by
      rw [← flatten_blocks]
      exact List.mem_flatten.2 ⟨_, inWhole, inBlock⟩
    exact (each _).1 (sameSpans scalar isAccepted) (isBlock.high_eq scalar inBlock).symm
  · intro two scalar _
    exact (each _).2 fun _ => two

/-- A closing operation keeps the text exactly if it cuts no block, or one with two scalar
    values. -/
theorem pattern_run_eq_close_iff (before after : List Operation) :
    (run (before ++ after)).pattern = (run (before ++ .close :: after)).pattern ↔
      (¬ ∃ left right, Joins before after left right) ∨
        ∃ left right, Joins before after left right ∧ (left ++ right).length = 2 := by
  have closes : Operation.close.closes = true := rfl
  have areParts := blocks_append_of_closes closes before after
  have same : accepted (before ++ after) = accepted (before ++ .close :: after) := by
    rw [accepted_append, accepted_append_of_closes closes]
  rcases blocks_append_cases before after with
    apart | ⟨front, left, right, back, isFront, isBack, isWhole⟩
  · have notCut : ¬ ∃ left right, Joins before after left right := by
      rintro ⟨left, right, joins⟩
      exact not_joins_of_blocks apart left right joins
    refine iff_of_true ?_ (.inl notCut)
    rw [pattern_run_eq_iff same]
    intro scalar _
    rw [apart, areParts]
  · have joins := joins_of_blocks isFront isBack isWhole
    rw [isFront, isBack, ← List.append_cons] at areParts
    rw [pattern_run_eq_iff_of_cut same isWhole areParts]
    constructor
    · intro two
      exact .inr ⟨left, right, joins, two⟩
    · rintro (notCut | ⟨first, second, others, two⟩)
      · exact absurd ⟨left, right, joins⟩ notCut
      · obtain ⟨rfl, rfl⟩ := joins.unique others
        exact two

/-- A second text is the first one if nothing was accepted in between. -/
theorem pattern_run_serialize_of_accepted {after : List Operation} (nothing : accepted after = [])
    (before : List Operation) :
    (run (before ++ .serialize :: after)).pattern = (run before).pattern := by
  have closes : Operation.serialize.closes = true := rfl
  have same : accepted (before ++ .serialize :: after) = accepted before := by
    rw [accepted_append_of_closes closes, nothing, List.append_nil]
  have sameBlocks : blocks (before ++ .serialize :: after) = blocks before := by
    rw [blocks_append_of_closes closes, blocks_eq_nil_of_accepted nothing, List.append_nil]
  rw [pattern_run_eq_iff same]
  intro scalar _
  rw [sameBlocks]

/-- Closing in the middle of a history keeps what the pattern lists under each high unit, and
    keeps its text exactly if no block is cut or the block that is cut has two scalar values.
    So serializing twice gives the same text if nothing was accepted in between. -/
theorem perform_serialize_of_cut (before after : List Operation) :
    ∃ text closed alternatives others,
      ((run (before ++ after)).perform .serialize).1 = .text text ∧
      ((run (before ++ .close :: after)).perform .serialize).1 = .text closed ∧
      Pattern.read? text.toList = some alternatives ∧
      Pattern.read? closed.toList = some others ∧
      alternatives.map (fun alternative => (alternative.high, alternative.scalars)) =
        others.map (fun alternative => (alternative.high, alternative.scalars)) ∧
      (text = closed ↔ (¬ ∃ left right, Joins before after left right) ∨
        ∃ left right, Joins before after left right ∧ (left ++ right).length = 2) ∧
      (accepted after = [] →
        ((run (before ++ .serialize :: after)).perform .serialize).1 =
          ((run before).perform .serialize).1) := by
  refine ⟨_, _, _, _, rfl, rfl, read?_pattern_run _, read?_pattern_run _, ?_,
    pattern_run_eq_close_iff before after, ?_⟩
  · rw [map_scalars_groups, map_scalars_groups, accepted_append, accepted_append_of_closes rfl]
  · intro nothing
    exact congrArg Answer.text (pattern_run_serialize_of_accepted nothing before)

end Compressor

end SymbolRules
