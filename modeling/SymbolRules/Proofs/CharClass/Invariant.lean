import SymbolRules.Proofs.CharClass.Coverage

/-!
# The representation of a compressor

The groups of a compressor have different high units, and none of them is empty. Intervals
begin and end in order and hold units of scalar values only, whether they are committed or held
back. Taking a scalar value keeps this, and so does closing, so it holds after every history
(`Compressor.isSound_run`). The widths of the closed groups count the values taken
(`Compressor.totalWidth_run`).
-/

namespace SymbolRules

/-- An interval of low units that scalar values with the given high unit have: its ends are in
    order, single units lie on one side of the surrogates, and only low surrogates stand behind
    a high one. -/
structure Interval.IsUnder (interval : Interval) (high : CodeUnit) : Prop where
  ordered : interval.start ≤ interval.stop
  alone : high = 0 → interval.stop ≤ 0xD7FF ∨ 0xE000 ≤ interval.start
  paired : high ≠ 0 →
    IsHighSurrogate high ∧ IsLowSurrogate interval.start ∧ IsLowSurrogate interval.stop

/-- A group under a possible high unit, with intervals that may stand there. -/
structure Group.IsSound (group : Group) : Prop where
  high : group.high = 0 ∨ IsHighSurrogate group.high
  filled : group.intervals ≠ []
  intervals : ∀ interval ∈ group.intervals, interval.IsUnder group.high

/-- Sound groups under different high units, and a sound interval held back. -/
structure Compressor.IsSound (compressor : Compressor) : Prop where
  distinct : (compressor.groups.map Group.high).Nodup
  groups : ∀ group ∈ compressor.groups, group.IsSound
  held : ∀ held, compressor.current = some held → held.interval.IsUnder held.high

/-- The interval held back has grown by the one unit behind its end. -/
structure OpenInterval.Grows (held next : OpenInterval) : Prop where
  high : next.high = held.high
  start : next.interval.start = held.interval.start
  stop : next.interval.stop.toNat = held.interval.stop.toNat + 1

namespace Interval

theorem isUnder_iff {interval : Interval} {high : CodeUnit} :
    interval.IsUnder high ↔ interval.start.toNat ≤ interval.stop.toNat ∧
      (high.toNat = 0 ∧ (interval.stop.toNat < 0xD800 ∨ 0xE000 ≤ interval.start.toNat) ∨
        (0xD800 ≤ high.toNat ∧ high.toNat ≤ 0xDBFF) ∧
          0xDC00 ≤ interval.start.toNat ∧ interval.stop.toNat ≤ 0xDFFF) := by
  have isZero : high = 0 ↔ high.toNat = 0 := by rw [← UInt16.toNat_inj]; rfl
  have below : interval.stop ≤ 0xD7FF ↔ interval.stop.toNat ≤ 0xD7FF := UInt16.le_iff_toNat_le
  have above : 0xE000 ≤ interval.start ↔ 0xE000 ≤ interval.start.toNat := UInt16.le_iff_toNat_le
  constructor
  · intro isUnder
    have ordered := UInt16.le_iff_toNat_le.1 isUnder.ordered
    refine ⟨ordered, ?_⟩
    by_cases zero : high = 0
    · have alone := isUnder.alone zero
      rw [below, above] at alone
      rw [isZero] at zero
      omega
    · have paired := isUnder.paired zero
      rw [isHighSurrogate_iff, isLowSurrogate_iff, isLowSurrogate_iff] at paired
      omega
  · intro bounds
    refine ⟨UInt16.le_iff_toNat_le.2 bounds.1, ?_, ?_⟩
    · rw [isZero, below, above]
      omega
    · rw [ne_eq, isZero, isHighSurrogate_iff, isLowSurrogate_iff, isLowSurrogate_iff]
      omega

theorem IsUnder.high {interval : Interval} {high : CodeUnit} (isUnder : interval.IsUnder high) :
    high = 0 ∨ IsHighSurrogate high := by
  by_cases zero : high = 0
  · exact .inl zero
  · exact .inr (isUnder.paired zero).1

theorem isUnder_single {scalar : Nat} (isScalar : IsScalar scalar) :
    (single (Pair.ofNat scalar).low).IsUnder (Pair.ofNat scalar).high := by
  have units := Pair.toNat_ofNat_cases isScalar
  obtain ⟨-, bound, gap⟩ := isScalar
  rw [isUnder_iff]
  simp only [single]
  omega

theorem width_single (unit : CodeUnit) : (single unit).width = 1 := by simp [single, width]

end Interval

namespace OpenInterval

theorem grows_extendTo {held : OpenInterval} {pair : Pair} (follows : held.Extends pair) :
    held.Grows (held.extendTo pair.low) :=
  ⟨rfl, rfl, follows.2.symm⟩

/-- An interval is only extended to a unit that may stand under its high unit: the unit before
    the surrogates is not followed by a scalar value. -/
theorem isUnder_extendTo {held : OpenInterval} {scalar : Nat}
    (isUnder : held.interval.IsUnder held.high) (isScalar : IsScalar scalar)
    (follows : held.Extends (Pair.ofNat scalar)) :
    (held.extendTo (Pair.ofNat scalar).low).interval.IsUnder held.high := by
  have next := Interval.isUnder_single isScalar
  obtain ⟨sameHigh, successor⟩ := follows
  rw [← sameHigh, Interval.isUnder_iff] at next
  rw [Interval.isUnder_iff] at isUnder ⊢
  simp only [extendTo, Interval.single] at next ⊢
  omega

theorem Grows.width {held next : OpenInterval} (grows : held.Grows next)
    (ordered : held.interval.start ≤ held.interval.stop) :
    next.interval.width = held.interval.width + 1 := by
  rw [UInt16.le_iff_toNat_le] at ordered
  rw [Interval.width, Interval.width, grows.start, grows.stop]
  omega

end OpenInterval

namespace Group

theorem insertInto_eq_update (high : CodeUnit) (interval : Interval) (groups : List Group) :
    insertInto high interval groups =
      (Keyed.update high (fun row => row.getD [] ++ [interval])
        (groups.map fun group => (group.high, group.intervals))).map
          fun row => ⟨row.1, row.2⟩ := by
  rw [← insertInto_map, List.map_map]
  exact congrArg (insertInto high interval) (List.map_id groups).symm

theorem nodup_insertInto {groups : List Group} (distinct : (groups.map Group.high).Nodup)
    (high : CodeUnit) (interval : Interval) :
    ((insertInto high interval groups).map Group.high).Nodup := by
  rw [insertInto_eq_update, List.map_map]
  apply Keyed.nodup_map_fst_update
  rw [List.map_map]
  exact distinct

theorem isSound_of_mem_insertInto {high : CodeUnit} {interval : Interval} {groups : List Group}
    (isUnder : interval.IsUnder high) (sound : ∀ group ∈ groups, group.IsSound) :
    ∀ group ∈ insertInto high interval groups, group.IsSound := by
  have rows : ∀ row ∈ groups.map fun group => (group.high, group.intervals),
      IsSound ⟨row.1, row.2⟩ := by
    intro row member
    obtain ⟨group, isGroup, rfl⟩ := List.mem_map.1 member
    exact sound group isGroup
  rw [insertInto_eq_update, List.forall_mem_map]
  apply Keyed.forall_mem_update (motive := fun high intervals => IsSound ⟨high, intervals⟩) rows
  intro row before
  refine ⟨isUnder.high, by simp, ?_⟩
  intro other isIn
  rcases List.mem_append.1 isIn with old | new
  · cases row with
    | none => cases old
    | some intervals => exact (before intervals rfl).intervals other old
  · rw [List.mem_singleton] at new
    subst new
    exact isUnder

/-- The number of units that a group covers, each counted as often as it is covered. -/
def width (group : Group) : Nat :=
  group.intervals.foldl (fun total interval => total + interval.width) 0

/-- The number of units that groups cover together. -/
def totalWidth : List Group → Nat
  | [] => 0
  | group :: rest => group.width + totalWidth rest

theorem width_append (high : CodeUnit) (intervals : List Interval) (interval : Interval) :
    width ⟨high, intervals ++ [interval]⟩ = width ⟨high, intervals⟩ + interval.width := by
  rw [width, width, List.foldl_append]
  rfl

theorem totalWidth_insertInto (high : CodeUnit) (interval : Interval) (groups : List Group) :
    totalWidth (insertInto high interval groups) = totalWidth groups + interval.width := by
  induction groups with
  | nil => rfl
  | cons group rest ih =>
      obtain ⟨own, intervals⟩ := group
      rw [insertInto]
      by_cases same : own = high
      · rw [if_pos same]
        show width ⟨own, intervals ++ [interval]⟩ + totalWidth rest =
          width ⟨own, intervals⟩ + totalWidth rest + interval.width
        rw [width_append]
        omega
      · rw [if_neg same, totalWidth, totalWidth, ih]
        omega

end Group

namespace Compressor

open History (accepted isScalar_of_mem_accepted)

theorem run_concat (history : List Operation) (operation : Operation) :
    run (history ++ [operation]) = ((run history).perform operation).2 := by
  rw [run, after, List.foldl_append]
  rfl

/-- Whatever is kept by taking a scalar value and by closing holds after each history, of the
    scalar values accepted in it. -/
theorem run_induction {motive : List Nat → Compressor → Prop} (start : motive [] empty)
    (insert : ∀ scalars compressor (scalar : Nat), IsScalar scalar → motive scalars compressor →
      motive (scalars ++ [scalar]) (compressor.insert (Pair.ofNat scalar)))
    (close : ∀ scalars compressor, motive scalars compressor → motive scalars compressor.close)
    (history : List Operation) : motive (accepted history) (run history) := by
  induction history using List.reverseRecOn with
  | nil => exact start
  | append_singleton history operation ih =>
      rw [run_concat, History.accepted_append, History.accepted_singleton]
      cases closing : operation.closes with
      | true =>
          rw [perform_of_closes closing, History.scalar?_of_closes closing, Option.toList_none,
            List.append_nil]
          exact close _ _ ih
      | false =>
          rw [perform_of_not_closes closing]
          cases adds : operation.scalar? with
          | none =>
              rw [Option.toList_none, List.append_nil]
              exact ih
          | some scalar =>
              have isTaken : scalar ∈ accepted [operation] := by
                simp [History.accepted_singleton, adds]
              exact insert _ _ scalar (isScalar_of_mem_accepted isTaken) ih

theorem closedGroups_close (compressor : Compressor) :
    compressor.close.closedGroups = compressor.closedGroups := by
  rw [closedGroups, groups_close, current_close, closedGroups]

theorem add_eq_ok_iff {compressor next : Compressor} {value : Int} :
    compressor.add value = .ok next ↔
      IsScalar value ∧ next = compressor.insert (Pair.ofNat value.toNat) := by
  unfold add Pair.encode
  by_cases isScalar : IsScalar value
  · simp [isScalar, Except.map, eq_comm]
  · simp [isScalar, Except.map]

/-- Behind each value taken an interval is held back: that of the value alone, or the one held
    back before, grown by one unit. -/
theorem exists_current_insert (compressor : Compressor) (pair : Pair) :
    ∃ next, (compressor.insert pair).current = some next ∧ (next = .single pair ∨
      ∃ held, compressor.current = some held ∧ held.Grows next) := by
  unfold insert
  cases isHeld : compressor.current with
  | none => exact ⟨_, rfl, .inl rfl⟩
  | some held =>
      by_cases follows : held.Extends pair
      · simp only [if_pos follows]
        exact ⟨_, rfl, .inr ⟨held, rfl, OpenInterval.grows_extendTo follows⟩⟩
      · simp only [if_neg follows]
        exact ⟨_, rfl, .inl rfl⟩

theorem isSound_empty : empty.IsSound := by
  refine ⟨by simp [empty, groups], by simp [empty, groups], ?_⟩
  intro held isHeld
  cases isHeld

theorem IsSound.close {compressor : Compressor} (sound : compressor.IsSound) :
    compressor.close.IsSound := by
  cases isHeld : compressor.current with
  | none =>
      have closed : compressor.close = compressor := by rw [Compressor.close, isHeld]
      rw [closed]
      exact sound
  | some held =>
      have grown := groups_close compressor
      rw [isHeld] at grown
      refine ⟨?_, ?_, ?_⟩
      · rw [grown]
        exact Group.nodup_insertInto sound.distinct _ _
      · rw [grown]
        exact Group.isSound_of_mem_insertInto (sound.held held isHeld) sound.groups
      · intro other isOther
        rw [current_close] at isOther
        cases isOther

theorem IsSound.insert {compressor : Compressor} {scalar : Nat} (isScalar : IsScalar scalar)
    (sound : compressor.IsSound) : (compressor.insert (Pair.ofNat scalar)).IsSound := by
  unfold Compressor.insert
  cases isHeld : compressor.current with
  | none =>
      refine ⟨sound.distinct, sound.groups, ?_⟩
      intro held isNew
      obtain rfl := Option.some.inj isNew
      exact Interval.isUnder_single isScalar
  | some held =>
      by_cases follows : held.Extends (Pair.ofNat scalar)
      · simp only [if_pos follows]
        refine ⟨sound.distinct, sound.groups, ?_⟩
        intro next isNext
        obtain rfl := Option.some.inj isNext
        exact OpenInterval.isUnder_extendTo (sound.held held isHeld) isScalar follows
      · simp only [if_neg follows]
        have closed := sound.close
        refine ⟨closed.distinct, closed.groups, ?_⟩
        intro next isNext
        obtain rfl := Option.some.inj isNext
        exact Interval.isUnder_single isScalar

theorem isSound_run (history : List Operation) : (run history).IsSound :=
  run_induction (motive := fun _ compressor => compressor.IsSound) isSound_empty
    (fun _ _ _ isScalar sound => sound.insert isScalar) (fun _ _ sound => sound.close) history

theorem totalWidth_closedGroups_insert {compressor : Compressor} (sound : compressor.IsSound)
    (pair : Pair) : Group.totalWidth (compressor.insert pair).closedGroups =
      Group.totalWidth compressor.closedGroups + 1 := by
  unfold closedGroups insert
  cases isHeld : compressor.current with
  | none =>
      simp only [groups_close, isHeld, OpenInterval.single, Group.totalWidth_insertInto,
        Interval.width_single]
      rfl
  | some held =>
      by_cases follows : held.Extends pair
      · have width := (OpenInterval.grows_extendTo follows).width (sound.held held isHeld).ordered
        simp only [if_pos follows, groups_close, isHeld, Group.totalWidth_insertInto, width]
        rfl
      · simp only [if_neg follows, groups_close, OpenInterval.single, Group.totalWidth_insertInto,
          Interval.width_single]
        exact congrArg (Group.totalWidth · + 1) (groups_close compressor)

/-- The widths of the closed groups sum to the number of values taken. -/
theorem totalWidth_run (history : List Operation) :
    Group.totalWidth (run history).closedGroups = (accepted history).length := by
  suffices counted : (run history).IsSound ∧
      Group.totalWidth (run history).closedGroups = (accepted history).length from counted.2
  apply run_induction (motive := fun scalars compressor => compressor.IsSound ∧
    Group.totalWidth compressor.closedGroups = scalars.length)
  · exact ⟨isSound_empty, rfl⟩
  · intro scalars compressor scalar isScalar ⟨sound, counted⟩
    refine ⟨sound.insert isScalar, ?_⟩
    rw [totalWidth_closedGroups_insert sound, counted, List.length_append, List.length_singleton]
  · intro scalars compressor ⟨sound, counted⟩
    refine ⟨sound.close, ?_⟩
    rw [closedGroups_close, counted]

end Compressor

end SymbolRules
