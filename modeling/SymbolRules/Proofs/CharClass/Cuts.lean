import SymbolRules.Proofs.CharClass.Coverage

/-!
# Histories in two parts

The blocks of a history that goes on are those of its two parts, except that the last block
of the first part and the first block of the second may become one (`History.Joins`). There
is at most one such block (`Joins.unique`), and a closing operation between the two parts
cuts it and no other (`blocks_append_of_closes`).
-/

namespace SymbolRules

section Pieces

variable {α : Type}

theorem splitBy_cons_of_rel {r : α → α → Bool} {first second : α}
    (related : r first second = true) (rest : List α) :
    (first :: second :: rest).splitBy r =
      ((second :: rest).splitBy r).modifyHead ([first] ++ ·) := by
  have someRun : (second :: rest).splitBy r ≠ [] := List.splitBy_ne_nil.2 (List.cons_ne_nil _ _)
  obtain ⟨run, runs, cut⟩ := List.exists_cons_of_ne_nil someRun
  rw [cut, List.modifyHead_cons, List.singleton_append]
  obtain ⟨joined, nonempty, chains, apart⟩ := List.splitBy_eq_iff.1 cut
  cases run with
  | nil => simp at nonempty
  | cons head run =>
      rw [List.flatten_cons, List.cons_append] at joined
      obtain ⟨rfl, rfl⟩ := List.cons.inj joined
      have runChain := chains _ (List.mem_cons_self ..)
      refine List.splitBy_eq_iff.2 ⟨by simp, by simpa using nonempty, ?_, ?_⟩
      · intro other member
        rcases List.mem_cons.1 member with rfl | later
        · exact List.isChain_cons_cons.2 ⟨related, runChain⟩
        · exact chains other (List.mem_cons_of_mem _ later)
      · rw [List.isChain_cons] at apart ⊢
        refine ⟨fun next isNext => ?_, apart.2⟩
        obtain ⟨hasLast, hasHead, cutHere⟩ := apart.1 next isNext
        exact ⟨List.cons_ne_nil _ _, hasHead, by rwa [List.getLast_cons hasLast]⟩

theorem splitBy_cons_of_not_rel {r : α → α → Bool} {first second : α}
    (unrelated : r first second = false) (rest : List α) :
    (first :: second :: rest).splitBy r = [first] :: (second :: rest).splitBy r := by
  have cut : ([first] ++ second :: rest).splitBy r =
      [first].splitBy r ++ (second :: rest).splitBy r :=
    List.splitBy_append (by simpa using unrelated)
  rwa [List.splitBy_of_isChain (List.cons_ne_nil _ _) (List.isChain_singleton first)] at cut

/-- Pieces that are joined at a place stay so if the first piece grows at its head. -/
theorem exists_modifyHead_join (more : List α) (front : List (List α)) (left : List α) :
    ∃ grown part, (front ++ [left]).modifyHead (more ++ ·) = grown ++ [part] ∧
      ∀ right back, (front ++ (left ++ right) :: back).modifyHead (more ++ ·) =
        grown ++ (part ++ right) :: back := by
  cases front with
  | nil => exact ⟨[], more ++ left, rfl, fun right back => by simp⟩
  | cons piece front => exact ⟨(more ++ piece) :: front, left, rfl, fun _ _ => rfl⟩

/-- The longest runs of two lists are those of the lists one after the other, except that the
    last run of the first and the first run of the second may become one. -/
theorem splitBy_append_cases (r : α → α → Bool) (front back : List α) :
    (front ++ back).splitBy r = front.splitBy r ++ back.splitBy r ∨
      ∃ before left right after, front.splitBy r = before ++ [left] ∧
        back.splitBy r = right :: after ∧
        (front ++ back).splitBy r = before ++ (left ++ right) :: after := by
  -- Runs grow at the head, so the induction is on the first list: its head either makes the first
  -- run of the rest longer, alone and with the second list behind it, or is a run of its own.
  induction front with
  | nil => exact .inl rfl
  | cons first front ih =>
      have alone : [first].splitBy r = [[first]] :=
        List.splitBy_of_isChain (List.cons_ne_nil _ _) (List.isChain_singleton first)
      match front, back with
      | [], [] => exact .inl (by simp)
      | [], second :: back =>
          rw [alone, List.singleton_append]
          cases related : r first second with
          | true =>
              have someRun : (second :: back).splitBy r ≠ [] :=
                List.splitBy_ne_nil.2 (List.cons_ne_nil _ _)
              obtain ⟨right, after, cut⟩ := List.exists_cons_of_ne_nil someRun
              refine .inr ⟨[], [first], right, after, rfl, cut, ?_⟩
              rw [splitBy_cons_of_rel related, cut]
              rfl
          | false => exact .inl (splitBy_cons_of_not_rel related back)
      | second :: front, back =>
          rw [List.cons_append, List.cons_append]
          rw [List.cons_append] at ih
          cases related : r first second with
          | true =>
              rw [splitBy_cons_of_rel related, splitBy_cons_of_rel related]
              rcases ih with apart | ⟨before, left, right, after, isFront, isBack, isWhole⟩
              · have someRun : (second :: front).splitBy r ≠ [] :=
                  List.splitBy_ne_nil.2 (List.cons_ne_nil _ _)
                obtain ⟨run, runs, cut⟩ := List.exists_cons_of_ne_nil someRun
                rw [apart, cut]
                exact .inl rfl
              · obtain ⟨grown, part, isGrown, joined⟩ := exists_modifyHead_join [first] before left
                rw [isFront, isWhole, isGrown, joined]
                exact .inr ⟨grown, part, right, after, rfl, isBack, rfl⟩
          | false =>
              rw [splitBy_cons_of_not_rel related, splitBy_cons_of_not_rel related]
              rcases ih with apart | ⟨before, left, right, after, isFront, isBack, isWhole⟩
              · exact .inl (congrArg ([first] :: ·) apart)
              · exact .inr ⟨[first] :: before, left, right, after,
                  congrArg ([first] :: ·) isFront, isBack, congrArg ([first] :: ·) isWhole⟩

/-- A place inside a piece does not lie behind that piece. -/
theorem flatten_append_ne_of_inside {front behind : List (List α)} {left right : List α}
    (hasRight : right ≠ []) (first : List α) :
    front.flatten ++ left ≠ (front ++ (left ++ right) :: behind).flatten ++ first := by
  intro same
  have lengths := congrArg List.length same
  have longer := List.length_pos_iff.2 hasRight
  simp only [List.flatten_append, List.flatten_cons, List.length_append] at lengths
  omega

/-- A place inside a piece is inside no other. -/
theorem eq_of_append_cons_eq {front back others rest : List (List α)}
    {left right first second : List α} (hasRight : right ≠ []) (hasSecond : second ≠ [])
    (samePieces : front ++ (left ++ right) :: back = others ++ (first ++ second) :: rest)
    (samePlace : front.flatten ++ left = others.flatten ++ first) :
    left = first ∧ right = second := by
  rcases List.append_eq_append_iff.1 samePieces with
    ⟨later, rfl, isBack⟩ | ⟨later, rfl, isRest⟩
  · cases later with
    | nil =>
        rw [List.append_nil] at samePlace
        obtain rfl := List.append_cancel_left samePlace
        exact ⟨rfl, List.append_cancel_left (List.cons.inj isBack).1⟩
    | cons piece later =>
        obtain ⟨rfl, -⟩ := List.cons.inj isBack
        exact absurd samePlace (flatten_append_ne_of_inside hasRight first)
  · cases later with
    | nil =>
        rw [List.append_nil] at samePlace
        obtain rfl := List.append_cancel_left samePlace
        exact ⟨rfl, (List.append_cancel_left (List.cons.inj isRest).1).symm⟩
    | cons piece later =>
        obtain ⟨rfl, -⟩ := List.cons.inj isRest
        exact absurd samePlace.symm (flatten_append_ne_of_inside hasSecond left)

/-- A place between two pieces is inside no piece. -/
theorem append_cons_ne_of_place {front back others rest : List (List α)} {left right : List α}
    (hasLeft : left ≠ []) (hasRight : right ≠ [])
    (samePlace : front.flatten ++ left = others.flatten) :
    front ++ (left ++ right) :: back ≠ others ++ rest := by
  intro samePieces
  rcases List.append_eq_append_iff.1 samePieces with
    ⟨later, rfl, isBack⟩ | ⟨later, rfl, -⟩
  · cases later with
    | nil => exact hasLeft (by simpa using samePlace)
    | cons piece later =>
        obtain ⟨rfl, -⟩ := List.cons.inj isBack
        rw [← List.append_nil (front ++ (left ++ right) :: later).flatten] at samePlace
        exact flatten_append_ne_of_inside hasRight [] samePlace
  · rw [List.flatten_append, List.append_assoc, List.append_right_eq_self] at samePlace
    exact hasLeft (List.append_eq_nil_iff.1 samePlace).2

end Pieces

namespace History

open Compressor (Operation)

theorem stretches_ne_nil (history : List Operation) : stretches history ≠ [] := by
  rw [stretches, ne_eq, List.map_eq_nil_iff]
  exact List.splitOnP_ne_nil Operation.closes history

theorem stretches_cons_of_not_closes {operation : Operation} (open' : operation.closes = false)
    (history : List Operation) : stretches (operation :: history) =
      (stretches history).modifyHead (operation.scalar?.toList ++ ·) := by
  obtain ⟨first, rest, cut, extended⟩ := exists_stretches_cons open' history
  rw [cut, extended]
  rfl

/-- The last stretch of a first part goes on with the first stretch of the second. -/
theorem exists_stretches_append (before after : List Operation) :
    ∃ front last first back, stretches before = front ++ [last] ∧
      stretches after = first :: back ∧
      stretches (before ++ after) = front ++ (last ++ first) :: back := by
  induction before with
  | nil =>
      obtain ⟨first, back, cut⟩ := List.exists_cons_of_ne_nil (stretches_ne_nil after)
      exact ⟨[], [], first, back, rfl, cut, cut⟩
  | cons operation before ih =>
      obtain ⟨front, last, first, back, isFront, isBack, isWhole⟩ := ih
      rw [List.cons_append]
      cases closing : operation.closes with
      | true =>
          rw [stretches_cons_of_closes closing, stretches_cons_of_closes closing, isFront, isWhole]
          exact ⟨[] :: front, last, first, back, rfl, isBack, rfl⟩
      | false =>
          obtain ⟨grown, part, isGrown, joined⟩ :=
            exists_modifyHead_join operation.scalar?.toList front last
          rw [stretches_cons_of_not_closes closing, stretches_cons_of_not_closes closing, isFront,
            isWhole, isGrown, joined]
          exact ⟨grown, part, first, back, rfl, isBack, rfl⟩

theorem accepted_append_of_closes {operation : Operation} (closing : operation.closes = true)
    (before after : List Operation) :
    accepted (before ++ operation :: after) = accepted before ++ accepted after := by
  rw [accepted_append, accepted_cons, scalar?_of_closes closing]
  rfl

theorem blocks_append_of_closes {operation : Operation} (closing : operation.closes = true)
    (before after : List Operation) :
    blocks (before ++ operation :: after) = blocks before ++ blocks after := by
  obtain ⟨front, last, first, back, isFront, isBack, isWhole⟩ :=
    exists_stretches_append before (operation :: after)
  rw [stretches_cons_of_closes closing] at isBack
  obtain ⟨rfl, rfl⟩ := List.cons.inj isBack
  rw [blocks, blocks, blocks, isWhole, isFront, List.append_nil, List.append_cons,
    List.flatMap_append]

/-- Going on with a history joins at most two of its blocks. -/
theorem blocks_append_cases (before after : List Operation) :
    blocks (before ++ after) = blocks before ++ blocks after ∨
      ∃ front left right back, blocks before = front ++ [left] ∧
        blocks after = right :: back ∧
        blocks (before ++ after) = front ++ (left ++ right) :: back := by
  obtain ⟨front, last, first, back, isFront, isBack, isWhole⟩ :=
    exists_stretches_append before after
  rw [blocks, blocks, blocks, isFront, isBack, isWhole, List.flatMap_append, List.flatMap_append,
    List.flatMap_cons, List.flatMap_cons, List.flatMap_cons, List.flatMap_nil, List.append_nil]
  rcases splitBy_append_cases follows last first with
    apart | ⟨runs, left, right, others, isLast, isFirst, isJoined⟩
  · rw [apart, List.append_assoc, List.append_assoc]
    exact .inl rfl
  · rw [isLast, isFirst, isJoined]
    exact .inr ⟨front.flatMap (List.splitBy follows) ++ runs, left, right,
      others ++ back.flatMap (List.splitBy follows), by simp, rfl, by simp⟩

/-- A block of a history with scalar values of both its parts: it ends the first part with
    those on the left and goes on with those on the right. -/
def Joins (before after : List Operation) (left right : List Nat) : Prop :=
  left ≠ [] ∧ right ≠ [] ∧ ∃ front back, front.flatten ++ left = accepted before ∧
    right ++ back.flatten = accepted after ∧
    blocks (before ++ after) = front ++ (left ++ right) :: back

theorem joins_of_blocks {before after : List Operation} {front back : List (List Nat)}
    {left right : List Nat} (isFront : blocks before = front ++ [left])
    (isBack : blocks after = right :: back)
    (isWhole : blocks (before ++ after) = front ++ (left ++ right) :: back) :
    Joins before after left right := by
  have isLeft : left ∈ blocks before := by simp [isFront]
  have isRight : right ∈ blocks after := by simp [isBack]
  refine ⟨(isBlock_of_mem_blocks isLeft).nonempty, (isBlock_of_mem_blocks isRight).nonempty,
    front, back, ?_, ?_, isWhole⟩
  · rw [← flatten_blocks, isFront, List.flatten_append, List.flatten_singleton]
  · rw [← flatten_blocks, isBack, List.flatten_cons]

theorem Joins.unique {before after : List Operation} {left right first second : List Nat}
    (joins : Joins before after left right) (others : Joins before after first second) :
    left = first ∧ right = second := by
  obtain ⟨-, hasRight, front, back, isFront, -, isWhole⟩ := joins
  obtain ⟨-, hasSecond, before', after', isFirst, -, isOther⟩ := others
  exact eq_of_append_cons_eq hasRight hasSecond (isWhole.symm.trans isOther)
    (isFront.trans isFirst.symm)

theorem not_joins_of_blocks {before after : List Operation}
    (apart : blocks (before ++ after) = blocks before ++ blocks after) (left right : List Nat) :
    ¬ Joins before after left right := by
  rintro ⟨hasLeft, hasRight, front, back, isFront, -, isWhole⟩
  rw [← flatten_blocks] at isFront
  exact append_cons_ne_of_place hasLeft hasRight isFront (isWhole.symm.trans apart)

end History

end SymbolRules
