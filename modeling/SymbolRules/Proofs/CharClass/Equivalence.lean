import Mathlib.Data.List.ModifyLast
import SymbolRules.Proofs.CharClass.Invariant

/-!
# Telling compressors apart

Two compressors are alike if they close to the same groups and the same scalar value, if any, would
extend the interval that they hold back (`Compressor.Alike`). Whatever is done next, alike
compressors give the same answers and stay alike; others are told apart by closing them, at once
or behind one more scalar value (`Compressor.alike_iff`).
-/

namespace SymbolRules

namespace OpenInterval

/-- The last scalar value of an interval. -/
def last (held : OpenInterval) : Nat := Pair.decode ⟨held.high, held.interval.stop⟩

/-- The scalar value that would extend an interval. There is none behind the units before the
    surrogates, behind the last unit of all and behind the last low surrogate. -/
def next? (held : OpenInterval) : Option Nat :=
  if held.last = 0xD7FF ∨ held.last = 0xFFFF ∨ held.interval.stop = 0xDFFF then none
  else some (held.last + 1)

theorem ofNat_last {held : OpenInterval} (isUnder : held.interval.IsUnder held.high) :
    IsScalar held.last ∧ Pair.ofNat held.last = ⟨held.high, held.interval.stop⟩ := by
  by_cases single : held.high = 0
  · have bound : held.interval.stop.toNat < 65536 := held.interval.stop.toNat_lt
    have isLast : held.last = held.interval.stop.toNat := by
      rw [last, single]
      rfl
    have units := Interval.isUnder_iff.1 isUnder
    rw [single] at units
    have zero : (0 : CodeUnit).toNat = 0 := rfl
    rw [isLast, Pair.ofNat_of_lt bound, UInt16.ofNat_toNat, single]
    exact ⟨⟨by omega, by omega, by omega⟩, rfl⟩
  · obtain ⟨isHigh, -, isLow⟩ := isUnder.paired single
    exact Pair.ofNat_decode_of_surrogates isHigh isLow

/-- Where an interval goes on, and where it does not. -/
theorem next?_eq_some_iff {held : OpenInterval} (isUnder : held.interval.IsUnder held.high)
    {scalar : Nat} :
    held.next? = some scalar ↔ IsScalar scalar ∧ held.Extends (Pair.ofNat scalar) := by
  obtain ⟨isLast, isPair⟩ := ofNat_last isUnder
  have extends_iff : ∀ isScalar : IsScalar scalar, held.Extends (Pair.ofNat scalar) ↔
      scalar = held.last + 1 ∧ ¬ (0x10000 ≤ scalar ∧ scalar % 0x400 = 0) := by
    intro isScalar
    have neighbours := Pair.neighbours_iff isLast isScalar
    rw [isPair] at neighbours
    exact neighbours
  have stop : held.interval.stop = (Pair.ofNat held.last).low := by rw [isPair]
  have units := Pair.toNat_ofNat_cases isLast
  have isStop : held.interval.stop = 0xDFFF ↔ (Pair.ofNat held.last).low.toNat = 0xDFFF := by
    rw [stop, ← UInt16.toNat_inj]
    rfl
  obtain ⟨-, bound, gap⟩ := isLast
  rw [next?, Option.ite_none_left_eq_some, Option.some.injEq, isStop]
  constructor
  · intro isNext
    have isScalar : IsScalar scalar := ⟨by omega, by omega, by omega⟩
    refine ⟨isScalar, (extends_iff isScalar).2 ?_⟩
    omega
  · rintro ⟨isScalar, extends'⟩
    have follows := (extends_iff isScalar).1 extends'
    obtain ⟨-, -, behind⟩ := isScalar
    omega

end OpenInterval

namespace Group

/-- Moves the end of the last interval under a high unit. -/
def extendLast (high unit : CodeUnit) : List Group → List Group
  | [] => []
  | group :: rest =>
      if group.high = high then
        { group with
          intervals := group.intervals.modifyLast fun interval =>
            { interval with stop := unit } } :: rest
      else group :: extendLast high unit rest

theorem extendLast_insertInto (high unit : CodeUnit) (interval : Interval)
    (groups : List Group) :
    extendLast high unit (insertInto high interval groups) =
      insertInto high { interval with stop := unit } groups := by
  induction groups with
  | nil =>
      rw [insertInto, insertInto, extendLast, if_pos rfl]
      exact congrArg (fun intervals => [(⟨high, intervals⟩ : Group)])
        (List.modifyLast_concat _ interval [])
  | cons group rest ih =>
      rw [insertInto, insertInto]
      by_cases same : group.high = high
      · rw [if_pos same, if_pos same, extendLast, if_pos same, List.modifyLast_concat]
      · rw [if_neg same, if_neg same, extendLast, if_neg same, ih]

/-- Where no group is empty, what an insertion has put in can be told from what it leads to. -/
theorem eq_of_insertInto_eq {high : CodeUnit} {interval other : Interval}
    {groups others : List Group} (filled : ∀ group ∈ groups, group.intervals ≠ [])
    (othersFilled : ∀ group ∈ others, group.intervals ≠ [])
    (same : insertInto high interval groups = insertInto high other others) :
    interval = other ∧ groups = others := by
  have ofNil : ∀ {interval other : Interval} {group : Group} {rest : List Group},
      group.intervals ≠ [] →
        insertInto high interval [] ≠ insertInto high other (group :: rest) := by
    intro interval other group rest filled same
    rw [insertInto, insertInto] at same
    split at same
    · have intervals := congrArg Group.intervals (List.cons.inj same).1
      exact filled (by simpa using congrArg List.dropLast intervals.symm)
    · rename_i apart
      exact apart (congrArg Group.high (List.cons.inj same).1).symm
  induction groups generalizing others with
  | nil =>
      cases others with
      | nil => simpa [insertInto] using same
      | cons group rest => exact absurd same (ofNil (othersFilled group List.mem_cons_self))
  | cons group rest ih =>
      cases others with
      | nil => exact absurd same.symm (ofNil (filled group List.mem_cons_self))
      | cons next later =>
          obtain ⟨own, intervals⟩ := group
          obtain ⟨other', intervals'⟩ := next
          rw [insertInto, insertInto] at same
          by_cases isHere : own = high <;> by_cases isThere : other' = high
          · rw [if_pos isHere, if_pos isThere] at same
            obtain ⟨sameGroup, rfl⟩ := List.cons.inj same
            obtain ⟨rfl, joined⟩ := Group.mk.inj sameGroup
            obtain ⟨rfl, last⟩ := List.append_inj' joined rfl
            exact ⟨(List.cons.inj last).1, rfl⟩
          · rw [if_pos isHere, if_neg isThere] at same
            obtain ⟨sameGroup, -⟩ := List.cons.inj same
            exact absurd ((Group.mk.inj sameGroup).1.symm.trans isHere) isThere
          · rw [if_neg isHere, if_pos isThere] at same
            obtain ⟨sameGroup, -⟩ := List.cons.inj same
            exact absurd ((Group.mk.inj sameGroup).1.trans isThere) isHere
          · rw [if_neg isHere, if_neg isThere] at same
            obtain ⟨sameGroup, sameRest⟩ := List.cons.inj same
            obtain ⟨sameInterval, rfl⟩ := ih (List.forall_mem_cons.1 filled).2
              (List.forall_mem_cons.1 othersFilled).2 sameRest
            exact ⟨sameInterval, by rw [sameGroup]⟩

/-- The number of intervals of all groups. -/
def countIntervals : List Group → Nat
  | [] => 0
  | group :: rest => group.intervals.length + countIntervals rest

theorem countIntervals_insertInto (high : CodeUnit) (interval : Interval)
    (groups : List Group) :
    countIntervals (insertInto high interval groups) = countIntervals groups + 1 := by
  induction groups with
  | nil => rfl
  | cons group rest ih =>
      rw [insertInto]
      by_cases same : group.high = high
      · rw [if_pos same, countIntervals, countIntervals, List.length_append,
          List.length_singleton]
        omega
      · rw [if_neg same, countIntervals, countIntervals, ih]
        omega

end Group

namespace Compressor

/-- The scalar value that would extend the interval held back. -/
def next? (compressor : Compressor) : Option Nat := compressor.current.bind OpenInterval.next?

/-- Whether adding a scalar value makes the interval held back longer. -/
def Extends (compressor : Compressor) (scalar : Nat) : Prop :=
  ∃ held next grown, compressor.current = some held ∧ compressor.add scalar = .ok next ∧
    next.current = some grown ∧ held.Grows grown

/-- The same groups once closed, and the same scalar value to go on with, or none. -/
structure Alike (first second : Compressor) : Prop where
  groups : first.closedGroups = second.closedGroups
  next : first.next? = second.next?

section Insertion

variable {compressor : Compressor} {held : OpenInterval} {pair : Pair} {scalar : Nat}

theorem closedGroups_of_current (isHeld : compressor.current = some held) :
    compressor.closedGroups = Group.insertInto held.high held.interval compressor.groups := by
  rw [closedGroups, groups_close, isHeld]

theorem closedGroups_of_current_eq_none (nothing : compressor.current = none) :
    compressor.closedGroups = compressor.groups := by
  rw [closedGroups, groups_close, nothing]

theorem insert_of_extends (isHeld : compressor.current = some held)
    (follows : held.Extends pair) :
    compressor.insert pair =
      { compressor with current := some (held.extendTo pair.low) } := by
  simp only [insert, isHeld, if_pos follows]

theorem next?_eq_some_iff (sound : compressor.IsSound) :
    compressor.next? = some scalar ↔ IsScalar scalar ∧
      ∃ held, compressor.current = some held ∧ held.Extends (Pair.ofNat scalar) := by
  rw [next?, Option.bind_eq_some_iff]
  constructor
  · rintro ⟨held, isHeld, isNext⟩
    obtain ⟨isScalar, follows⟩ :=
      (OpenInterval.next?_eq_some_iff (sound.held held isHeld)).1 isNext
    exact ⟨isScalar, held, isHeld, follows⟩
  · rintro ⟨isScalar, held, isHeld, follows⟩
    exact ⟨held, isHeld,
      (OpenInterval.next?_eq_some_iff (sound.held held isHeld)).2 ⟨isScalar, follows⟩⟩

/-- The next scalar value moves the end of an interval. -/
theorem closedGroups_insert_next (sound : compressor.IsSound)
    (isNext : compressor.next? = some scalar) :
    (compressor.insert (Pair.ofNat scalar)).closedGroups =
        Group.extendLast (Pair.ofNat scalar).high (Pair.ofNat scalar).low
          compressor.closedGroups ∧
      Group.countIntervals (compressor.insert (Pair.ofNat scalar)).closedGroups =
        Group.countIntervals compressor.closedGroups := by
  obtain ⟨-, held, isHeld, follows⟩ := (next?_eq_some_iff sound).1 isNext
  have grown : (compressor.insert (Pair.ofNat scalar)).closedGroups =
      Group.insertInto held.high { held.interval with stop := (Pair.ofNat scalar).low }
        compressor.groups := by
    rw [insert_of_extends isHeld follows, closedGroups, groups_close]
    rfl
  rw [grown, closedGroups_of_current isHeld]
  constructor
  · rw [← follows.1, Group.extendLast_insertInto]
  · rw [Group.countIntervals_insertInto, Group.countIntervals_insertInto]

/-- Any other scalar value is put into an interval of its own. -/
theorem closedGroups_insert_other (sound : compressor.IsSound) (isScalar : IsScalar scalar)
    (other : compressor.next? ≠ some scalar) :
    (compressor.insert (Pair.ofNat scalar)).closedGroups =
      Group.insertInto (Pair.ofNat scalar).high (.single (Pair.ofNat scalar).low)
        compressor.closedGroups := by
  have apart : ∀ held, compressor.current = some held → ¬ held.Extends (Pair.ofNat scalar) :=
    fun held isHeld follows => other ((next?_eq_some_iff sound).2 ⟨isScalar, held, isHeld, follows⟩)
  rw [insert_of_not_extends apart, closedGroups, groups_close]
  rfl

/-- What may follow a scalar value depends on that scalar value alone. -/
theorem next?_insert (compressor : Compressor) (pair : Pair) :
    (compressor.insert pair).next? = (OpenInterval.single pair).next? := by
  unfold insert
  cases isHeld : compressor.current with
  | none => rfl
  | some held =>
      by_cases follows : held.Extends pair
      · simp only [if_pos follows]
        show (held.extendTo pair.low).next? = _
        rw [OpenInterval.next?, OpenInterval.next?, OpenInterval.last, OpenInterval.last,
          OpenInterval.extendTo, OpenInterval.single, follows.1]
        rfl
      · simp only [if_neg follows]
        rfl

theorem next?_close (compressor : Compressor) : compressor.close.next? = none := by
  rw [next?, current_close]
  rfl

/-- The next scalar value is the one that makes the interval held back longer. -/
theorem extends_iff_next? (sound : compressor.IsSound) :
    compressor.Extends scalar ↔ compressor.next? = some scalar := by
  rw [next?_eq_some_iff sound]
  constructor
  · rintro ⟨held, next, grown, isHeld, isAdded, isGrown, grows⟩
    obtain ⟨isScalar, rfl⟩ := add_eq_ok_iff.1 isAdded
    rw [Int.toNat_natCast] at isGrown
    refine ⟨isScalar, held, isHeld, ?_⟩
    by_contra apart
    have started : (compressor.insert (Pair.ofNat scalar)).current =
        some (.single (Pair.ofNat scalar)) := by
      simp only [insert, isHeld, if_neg apart]
    obtain rfl := Option.some.inj (started.symm.trans isGrown)
    -- An interval of one unit begins where it ends, and nothing that grows does.
    have ordered := UInt16.le_iff_toNat_le.1 (sound.held held isHeld).ordered
    have start := congrArg UInt16.toNat grows.start
    have stop := grows.stop
    simp only [OpenInterval.single, Interval.single] at start stop
    omega
  · rintro ⟨isScalar, held, isHeld, follows⟩
    refine ⟨held, _, held.extendTo (Pair.ofNat scalar).low, isHeld,
      add_eq_ok_iff.2 ⟨isScalar, rfl⟩, ?_, OpenInterval.grows_extendTo follows⟩
    rw [Int.toNat_natCast, insert_of_extends isHeld follows]

end Insertion

section Alike

variable {first second : Compressor}

theorem Alike.insert (alike : first.Alike second) (firstSound : first.IsSound)
    (secondSound : second.IsSound) {scalar : Nat} (isScalar : IsScalar scalar) :
    (first.insert (Pair.ofNat scalar)).Alike (second.insert (Pair.ofNat scalar)) := by
  refine ⟨?_, by rw [next?_insert, next?_insert]⟩
  by_cases isNext : first.next? = some scalar
  · have isOther : second.next? = some scalar := alike.next ▸ isNext
    rw [(closedGroups_insert_next firstSound isNext).1,
      (closedGroups_insert_next secondSound isOther).1, alike.groups]
  · have isOther : second.next? ≠ some scalar := alike.next ▸ isNext
    rw [closedGroups_insert_other firstSound isScalar isNext,
      closedGroups_insert_other secondSound isScalar isOther, alike.groups]

theorem Alike.close (alike : first.Alike second) : first.close.Alike second.close := by
  refine ⟨?_, by rw [next?_close, next?_close]⟩
  rw [closedGroups_close, closedGroups_close, alike.groups]

/-- Every operation gets the same answer from alike compressors. -/
theorem Alike.fst_perform (alike : first.Alike second) (operation : Operation) :
    (first.perform operation).1 = (second.perform operation).1 := by
  cases operation with
  | add value =>
      by_cases isScalar : IsScalar value <;>
        simp [perform, add, Pair.encode, isScalar, Except.map]
  | close => exact congrArg Answer.groups alike.groups
  | serialize =>
      show Answer.text first.pattern = Answer.text second.pattern
      rw [pattern, pattern, alike.groups]
  | isEmpty =>
      have same : first.isEmpty = second.isEmpty := by
        rw [Bool.eq_iff_iff, isEmpty_iff, isEmpty_iff]
        exact iff_of_eq (congrArg (· = []) alike.groups)
      exact congrArg Answer.flag same

/-- Compressors that are alike and sound stay so. -/
theorem Alike.snd_perform (alike : first.Alike second) (firstSound : first.IsSound)
    (secondSound : second.IsSound) (operation : Operation) :
    (first.perform operation).2.Alike (second.perform operation).2 ∧
      (first.perform operation).2.IsSound ∧ (second.perform operation).2.IsSound := by
  cases closing : operation.closes with
  | true =>
      rw [perform_of_closes closing, perform_of_closes closing]
      exact ⟨alike.close, firstSound.close, secondSound.close⟩
  | false =>
      rw [perform_of_not_closes closing, perform_of_not_closes closing]
      cases adds : operation.scalar? with
      | none => exact ⟨alike, firstSound, secondSound⟩
      | some scalar =>
          have isTaken : scalar ∈ History.accepted [operation] := by
            simp [History.accepted_singleton, adds]
          have isScalar := History.isScalar_of_mem_accepted isTaken
          exact ⟨alike.insert firstSound secondSound isScalar, firstSound.insert isScalar,
            secondSound.insert isScalar⟩

theorem Alike.answers (alike : first.Alike second) (firstSound : first.IsSound)
    (secondSound : second.IsSound) (history : List Operation) :
    first.answers history = second.answers history := by
  induction history generalizing first second with
  | nil => rfl
  | cons operation history ih =>
      obtain ⟨still, firstNext, secondNext⟩ :=
        alike.snd_perform firstSound secondSound operation
      rw [Compressor.answers, Compressor.answers, alike.fst_perform operation,
        ih still firstNext secondNext]

/-- What extends one of two compressors that give the same answers extends the other: closing
    behind it, the one would have as many intervals as before and the other one more. -/
theorem next?_of_answers (firstSound : first.IsSound) (secondSound : second.IsSound)
    (same : ∀ history, first.answers history = second.answers history) {scalar : Nat}
    (isNext : first.next? = some scalar) : second.next? = some scalar := by
  by_contra other
  have isScalar := ((next?_eq_some_iff firstSound).1 isNext).1
  have added : ∀ compressor : Compressor,
      compressor.answers [.add scalar, .close] =
        [.added (.ok ()), .groups (compressor.insert (Pair.ofNat scalar)).closedGroups] := by
    intro compressor
    have isAdded : compressor.add scalar = .ok (compressor.insert (Pair.ofNat scalar)) :=
      add_eq_ok_iff.2 ⟨isScalar, rfl⟩
    simp only [answers, perform, isAdded]
  have closed := same [.close]
  have behind := same [.add scalar, .close]
  rw [added, added] at behind
  simp only [answers, perform, List.cons.injEq, Answer.groups.injEq, and_true, true_and]
    at closed behind
  have counts := congrArg Group.countIntervals behind
  rw [(closedGroups_insert_next firstSound isNext).2,
    closedGroups_insert_other secondSound isScalar other, Group.countIntervals_insertInto,
    closed] at counts
  omega

theorem alike_iff (firstSound : first.IsSound) (secondSound : second.IsSound) :
    first.Alike second ↔ ∀ history, first.answers history = second.answers history := by
  constructor
  · intro alike history
    exact alike.answers firstSound secondSound history
  · intro same
    refine ⟨?_, Option.ext fun scalar => ⟨?_, ?_⟩⟩
    · have closed := same [.close]
      simpa only [answers, perform, List.cons.injEq, Answer.groups.injEq, and_true] using closed
    · exact next?_of_answers firstSound secondSound same
    · exact next?_of_answers secondSound firstSound fun history => (same history).symm

/-- Alike compressors are equal, unless an interval is held back that cannot grow. -/
theorem Alike.eq_or_next?_eq_none (alike : first.Alike second) (firstSound : first.IsSound)
    (secondSound : second.IsSound) :
    first = second ∨ (first.current ≠ none ∨ second.current ≠ none) ∧
      first.next? = none ∧ second.next? = none := by
  cases isNext : first.next? with
  | some scalar =>
      have isOther : second.next? = some scalar := alike.next ▸ isNext
      obtain ⟨-, held, isHeld, follows⟩ := (next?_eq_some_iff firstSound).1 isNext
      obtain ⟨-, other, isOtherHeld, otherFollows⟩ := (next?_eq_some_iff secondSound).1 isOther
      have high : held.high = other.high := follows.1.trans otherFollows.1.symm
      have inserted := alike.groups
      rw [closedGroups_of_current isHeld, closedGroups_of_current isOtherHeld, high] at inserted
      obtain ⟨interval, groups⟩ := Group.eq_of_insertInto_eq
        (fun group isGroup => (firstSound.groups group isGroup).filled)
        (fun group isGroup => (secondSound.groups group isGroup).filled) inserted
      refine .inl (eq_iff.2 ⟨groups, ?_⟩)
      rw [isHeld, isOtherHeld]
      cases held
      cases other
      simp_all
  | none =>
      by_cases open' : first.current ≠ none ∨ second.current ≠ none
      · exact .inr ⟨open', rfl, alike.next ▸ isNext⟩
      · rw [not_or, not_not, not_not] at open'
        refine .inl (eq_iff.2 ⟨?_, open'.1.trans open'.2.symm⟩)
        rw [← closedGroups_of_current_eq_none open'.1, alike.groups,
          closedGroups_of_current_eq_none open'.2]

end Alike

/-- After any two histories, whatever is done next gets the same answers exactly if closing gives
    the same groups and the same scalar value, if any, would extend the interval held back. So do
    equal compressors, and others only if no interval held back can grow; to hold such an interval
    back or to commit it makes no difference. -/
theorem answers_run_eq_iff (before other : List Operation) :
    ((∀ history, (run before).answers history = (run other).answers history) ↔
      (run before).closedGroups = (run other).closedGroups ∧
        (run before).next? = (run other).next?) ∧
    ((∀ history, (run before).answers history = (run other).answers history) ↔
      run before = run other ∨
        ((run before).current ≠ none ∨ (run other).current ≠ none) ∧
          (run before).next? = none ∧ (run other).next? = none ∧
            (run before).closedGroups = (run other).closedGroups) ∧
    ((run before).current ≠ none → (run before).next? = none →
      run before ≠ run (before ++ [.close]) ∧
        ∀ history, (run before).answers history = (run (before ++ [.close])).answers history) ∧
    (∀ scalar, (run before).Extends scalar ↔ (run before).next? = some scalar) ∧
    ((run before).next? = none ↔ ∀ held, (run before).current = some held →
      held.last = 0xD7FF ∨ held.last = 0xFFFF ∨ held.interval.stop = 0xDFFF) := by
  have sound := isSound_run before
  have alike := alike_iff sound (isSound_run other)
  refine ⟨alike.symm.trans ⟨fun alike => ⟨alike.groups, alike.next⟩, fun same => ⟨same.1, same.2⟩⟩,
    ⟨fun same => ?_, ?_⟩, ?_, fun scalar => extends_iff_next? sound, ?_⟩
  · have areAlike := alike.2 same
    refine (areAlike.eq_or_next?_eq_none sound (isSound_run other)).imp id ?_
    rintro ⟨isHeld, nothing, none⟩
    exact ⟨isHeld, nothing, none, areAlike.groups⟩
  · rintro (same | ⟨-, nothing, none, same⟩)
    · intro history
      rw [same]
    · exact alike.1 ⟨same, nothing.trans none.symm⟩
  · intro isHeld nothing
    have closed : run (before ++ [.close]) = (run before).close := run_concat before .close
    have still : (run before).Alike (run before).close :=
      ⟨(closedGroups_close _).symm, nothing.trans (next?_close _).symm⟩
    rw [closed]
    refine ⟨fun same => isHeld ?_, (alike_iff sound sound.close).1 still⟩
    rw [same, current_close]
  · rw [next?, Option.bind_eq_none_iff]
    refine forall₂_congr fun held _ => ?_
    rw [OpenInterval.next?]
    split
    · rename_i stuck
      exact iff_of_true rfl stuck
    · rename_i goesOn
      exact iff_of_false (Option.some_ne_none _) goesOn

end Compressor

end SymbolRules
