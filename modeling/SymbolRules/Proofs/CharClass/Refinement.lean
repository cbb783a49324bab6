import SymbolRules.Proofs.CharClass.Blocks

/-!
# A compressor agrees with its history

One step of a compressor either closes it or takes a scalar value or does nothing. The
scalar values of a block all go into one interval, and a scalar value that does not follow
commits that interval. So the committed groups gather the blocks of the history
(`groups_close_run`).
-/

namespace SymbolRules

namespace Group

theorem insertInto_map (high : CodeUnit) (interval : Interval)
    (table : List (CodeUnit × List Interval)) :
    insertInto high interval (table.map fun row => ⟨row.1, row.2⟩) =
      (Keyed.update high (fun row => row.getD [] ++ [interval]) table).map
        fun row => ⟨row.1, row.2⟩ := by
  induction table with
  | nil => rfl
  | cons row rest ih =>
      simp only [List.map_cons, insertInto, Keyed.update]
      split
      · rfl
      · rw [ih, List.map_cons]

/-- Groups that are built by insertion stand in the order of first use of their high units,
    and each has its own intervals in order. -/
theorem foldl_insertInto (entries : List (CodeUnit × Interval)) :
    entries.foldl (fun groups entry => insertInto entry.1 entry.2 groups) [] =
      (entries.map Prod.fst).eraseDups.map fun high => ⟨high, Keyed.under high entries⟩ := by
  have gathered : ∀ table : List (CodeUnit × List Interval),
      entries.foldl (fun groups entry => insertInto entry.1 entry.2 groups)
          (table.map fun row => ⟨row.1, row.2⟩) =
        (entries.foldl (fun table entry =>
          Keyed.update entry.1 (fun row => row.getD [] ++ [entry.2]) table) table).map
            fun row => ⟨row.1, row.2⟩ := by
    induction entries with
    | nil => exact fun _ => rfl
    | cons entry entries ih =>
        intro table
        rw [List.foldl_cons, List.foldl_cons, insertInto_map, ih]
  have collected : ∀ intervals : List Interval,
      intervals.foldl (fun intervals interval => intervals ++ [interval]) [] = intervals := by
    intro intervals
    induction intervals using List.reverseRecOn with
    | nil => rfl
    | append_singleton intervals interval ih => rw [List.foldl_append, ih]; rfl
  have start := gathered []
  rw [List.map_nil] at start
  rw [start, Keyed.foldl_update [] (fun intervals interval => intervals ++ [interval]),
    List.map_map]
  apply List.map_congr_left
  intro high _
  rw [Function.comp_apply, collected]

end Group

namespace Compressor

open History

theorem perform_of_closes {operation : Operation} (closing : operation.closes = true)
    (compressor : Compressor) : (compressor.perform operation).2 = compressor.close := by
  cases operation with
  | add value => cases closing
  | close => rfl
  | serialize => rfl
  | isEmpty => cases closing

theorem perform_of_not_closes {operation : Operation} (open' : operation.closes = false)
    (compressor : Compressor) :
    (compressor.perform operation).2 = compressor.insertScalars operation.scalar?.toList := by
  cases operation with
  | add value =>
      by_cases isScalar : IsScalar value
      · simp [perform, add, Pair.encode, Operation.scalar?, isScalar, insertScalars, Except.map]
      · simp [perform, add, Pair.encode, Operation.scalar?, isScalar, insertScalars, Except.map]
  | close => cases open'
  | serialize => cases open'
  | isEmpty => rfl

theorem after_cons (compressor : Compressor) (operation : Operation) (history : List Operation) :
    compressor.after (operation :: history) = (compressor.perform operation).2.after history := rfl

theorem insertScalars_append (compressor : Compressor) (front back : List Nat) :
    compressor.insertScalars (front ++ back) =
      (compressor.insertScalars front).insertScalars back :=
  List.foldl_append

theorem close_after (history : List Operation) (compressor : Compressor) :
    (compressor.after history).close =
      (stretches history).foldl (fun compressor stretch =>
        (compressor.insertScalars stretch).close) compressor := by
  induction history generalizing compressor with
  | nil => rfl
  | cons operation history ih =>
      rw [after_cons, ih]
      cases closing : operation.closes with
      | true =>
          rw [perform_of_closes closing, stretches_cons_of_closes closing]
          rfl
      | false =>
          obtain ⟨first, rest, cut, extended⟩ := exists_stretches_cons closing history
          rw [perform_of_not_closes closing, extended, cut, List.foldl_cons, List.foldl_cons,
            insertScalars_append]

theorem insert_of_not_extends {compressor : Compressor} {pair : Pair}
    (apart : ∀ held, compressor.current = some held → ¬ held.Extends pair) :
    compressor.insert pair = ⟨compressor.close.builders, some (.single pair)⟩ := by
  unfold insert close
  cases held : compressor.current with
  | none => rfl
  | some current => simp only [if_neg (apart current held)]

/-- Scalar values that follow one another move the end of the interval held back. -/
theorem insertScalars_of_chain (builders : List GroupBuilder) (start : CodeUnit) {last : Nat}
    {scalars : List Nat} (isBlock : IsBlock (last :: scalars)) :
    insertScalars ⟨builders, some ⟨high last, ⟨start, low last⟩⟩⟩ scalars =
      ⟨builders, some ⟨high last, ⟨start, low (scalars.getLastD last)⟩⟩⟩ := by
  induction scalars generalizing last with
  | nil => rfl
  | cons scalar scalars ih =>
      obtain ⟨sameHigh, nextLow⟩ := isBlock.second_of_cons_cons
      have extends' : OpenInterval.Extends ⟨high last, ⟨start, low last⟩⟩ (Pair.ofNat scalar) :=
        ⟨sameHigh, nextLow⟩
      have step : insert ⟨builders, some ⟨high last, ⟨start, low last⟩⟩⟩ (Pair.ofNat scalar) =
          ⟨builders, some ⟨high scalar, ⟨start, low scalar⟩⟩⟩ := by
        simp only [insert]
        rw [if_pos extends', sameHigh]
        rfl
      have rest := ih isBlock.tail_of_cons_cons
      rw [List.getLastD_cons, insertScalars, List.foldl_cons, step, sameHigh]
      exact rest

theorem insertScalars_block {compressor : Compressor} {block : List Nat} (isBlock : IsBlock block)
    (apart : ∀ held, compressor.current = some held →
      ¬ held.Extends (Pair.ofNat (block.headD 0))) :
    compressor.insertScalars block =
      ⟨compressor.close.builders, some ⟨blockHigh block, blockInterval block⟩⟩ := by
  cases block with
  | nil => exact absurd rfl isBlock.nonempty
  | cons first rest =>
      have started := insert_of_not_extends apart
      rw [insertScalars, List.foldl_cons]
      rw [List.headD_cons] at started
      rw [started, blockHigh, blockInterval, List.headD_cons, List.getLastD_cons]
      exact insertScalars_of_chain compressor.close.builders (low first) isBlock

/-- Commits the intervals of blocks in turn, each to the group of its high unit. -/
def insertBlocks (groups : List Group) (blocks : List (List Nat)) : List Group :=
  blocks.foldl (fun groups block =>
    Group.insertInto (blockHigh block) (blockInterval block) groups) groups

/-- Blocks that do not follow one another are committed one by one. -/
theorem groups_close_insertScalars {compressor : Compressor} {blocks : List (List Nat)}
    (areBlocks : ∀ block ∈ blocks, IsBlock block)
    (separate : blocks.IsChain fun first second =>
      ∃ hasLast hasHead, follows (first.getLast hasLast) (second.head hasHead) = false)
    (apart : ∀ held, compressor.current = some held →
      ∀ block ∈ blocks.head?, ¬ held.Extends (Pair.ofNat (block.headD 0))) :
    (compressor.insertScalars blocks.flatten).close.groups =
      insertBlocks compressor.close.groups blocks := by
  -- A block stays held back until the next one comes, which does not extend it: `separate` is
  -- what makes `apart` hold again behind each block.
  induction blocks generalizing compressor with
  | nil => rfl
  | cons block blocks ih =>
      have isBlock := areBlocks block (List.mem_cons_self ..)
      have taken := insertScalars_block isBlock fun held isHeld =>
        apart held isHeld block (by simp)
      rw [List.flatten_cons, insertScalars_append, taken, ih, groups_close]
      · rfl
      · exact fun other member => areBlocks other (List.mem_cons_of_mem block member)
      · exact separate.tail
      · intro held isHeld next isNext extends'
        obtain rfl := Option.some.inj isHeld
        obtain ⟨hasLast, hasHead, cut⟩ := (List.isChain_cons.1 separate).1 next isNext
        have member : next ∈ blocks := List.mem_of_mem_head? isNext
        have isNextBlock := areBlocks next (List.mem_cons_of_mem block member)
        rw [(isBlock.extends_iff isNextBlock).1 extends'] at cut
        cases cut

/-- Stretches that are closed one by one commit the blocks of all of them. -/
theorem groups_foldl_stretches {stretches : List (List Nat)} {compressor : Compressor}
    (scalars : ∀ stretch ∈ stretches, ∀ scalar ∈ stretch, IsScalar scalar)
    (closed : compressor.current = none) :
    (stretches.foldl (fun compressor stretch =>
        (compressor.insertScalars stretch).close) compressor).groups =
      insertBlocks compressor.groups (stretches.flatMap (List.splitBy follows)) := by
  induction stretches generalizing compressor with
  | nil => rfl
  | cons stretch stretches ih =>
      have areBlocks : ∀ block ∈ stretch.splitBy follows, IsBlock block :=
        fun _ => isBlock_of_mem_splitBy (scalars stretch (List.mem_cons_self ..))
      have nothing : ∀ held, compressor.current = some held → ∀ block ∈
          (stretch.splitBy follows).head?, ¬ held.Extends (Pair.ofNat (block.headD 0)) := by
        intro held isHeld
        rw [closed] at isHeld
        cases isHeld
      have committed := groups_close_insertScalars areBlocks
        (List.isChain_getLast_head_splitBy follows stretch) nothing
      rw [List.flatten_splitBy] at committed
      have unchanged : compressor.close.groups = compressor.groups := by
        rw [groups_close, closed]
      rw [List.foldl_cons,
        ih (fun other member => scalars other (List.mem_cons_of_mem stretch member))
          (current_close _), committed, unchanged, List.flatMap_cons, insertBlocks, insertBlocks,
        insertBlocks, List.foldl_append]

/-- Blocks use the high units in the same order as their scalar values do. -/
theorem eraseDups_map_blockHigh {blocks : List (List Nat)}
    (areBlocks : ∀ block ∈ blocks, IsBlock block) :
    (blocks.map blockHigh).eraseDups = (blocks.flatten.map high).eraseDups := by
  induction blocks using List.reverseRecOn with
  | nil => rfl
  | append_singleton front block ih =>
      have isBlock := areBlocks block (by simp)
      have uses : block.map high ≠ [] := by
        rw [ne_eq, List.map_eq_nil_iff]
        exact isBlock.nonempty
      have same : ∀ use ∈ block.map high, use = blockHigh block := by
        intro use member
        obtain ⟨scalar, inBlock, rfl⟩ := List.mem_map.1 member
        exact isBlock.high_eq scalar inBlock
      have before := ih fun other member => areBlocks other (List.mem_append_left _ member)
      rw [List.flatten_append, List.flatten_singleton, List.map_append, List.map_append,
        List.map_singleton, Keyed.eraseDups_append_of_forall_eq uses same]
      exact Keyed.eraseDups_concat_congr before _

theorem insertBlocks_blocks (history : List Operation) :
    insertBlocks [] (blocks history) = History.groups history := by
  have areBlocks : ∀ block ∈ blocks history, IsBlock block := fun _ => isBlock_of_mem_blocks
  have highs := eraseDups_map_blockHigh areBlocks
  have inserted := Group.foldl_insertInto
    ((blocks history).map fun block => (blockHigh block, blockInterval block))
  rw [List.foldl_map, List.map_map] at inserted
  rw [flatten_blocks] at highs
  rw [insertBlocks, inserted, History.groups, ← highs]
  apply List.map_congr_left
  intro unit _
  rw [Keyed.under, List.filter_map, List.map_map]
  rfl

/-- After any history, a compressor closes to the groups of that history. -/
theorem groups_close_run (history : List Operation) :
    (run history).close.groups = History.groups history := by
  have scalars : ∀ stretch ∈ stretches history, ∀ scalar ∈ stretch, IsScalar scalar :=
    fun _ => isScalar_of_mem_stretches
  rw [run, close_after, groups_foldl_stretches scalars rfl]
  exact insertBlocks_blocks history

/-- The answer to closing is the whole history read at once: only scalar values count, each
    block of consecutive ones between two closing operations is an interval, and intervals
    are gathered under high units in the order of their first use. -/
theorem perform_close_run (history : List Operation) :
    ((run history).perform .close).1 = .groups (History.groups history) :=
  congrArg Answer.groups (groups_close_run history)

end Compressor

end SymbolRules
