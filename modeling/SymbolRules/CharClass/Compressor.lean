import SymbolRules.CharClass.Group

/-!
# Compressing scalar values into a pattern

A compressor takes scalar values one after another and keeps them as groups of
intervals. It holds one interval back: a value whose low unit follows directly on
that interval, under the same high unit, makes it longer. Any other value
commits the interval to its group and begins a new one. The order of the input
therefore decides the intervals, and no value is ever lost or merged twice.
-/

namespace SymbolRules

/-- The interval that the next value may still extend. -/
structure OpenInterval where
  high : CodeUnit
  interval : Interval
  deriving DecidableEq, Repr

namespace OpenInterval

/-- The interval that holds one pair. -/
def single (pair : Pair) : OpenInterval := ⟨pair.high, .single pair.low⟩

/-- A pair extends an interval of its own high unit that ends just before it.
    Nothing follows the last unit, `0xFFFF`. -/
def Extends (current : OpenInterval) (pair : Pair) : Prop :=
  current.high = pair.high ∧ current.interval.stop.toNat + 1 = pair.low.toNat

instance (current : OpenInterval) (pair : Pair) : Decidable (current.Extends pair) := by
  unfold Extends; infer_instance

/-- The interval with its end moved to the given unit. -/
def extendTo (current : OpenInterval) (unit : CodeUnit) : OpenInterval :=
  { current with interval := { current.interval with stop := unit } }

end OpenInterval

/-- A group to which intervals are still added. They are kept latest first, so that
    adding one takes the same time however many there are. -/
structure GroupBuilder where
  high : CodeUnit
  latest : List Interval
  deriving DecidableEq, Repr

namespace GroupBuilder

/-- The group with its intervals in order. -/
def toGroup (builder : GroupBuilder) : Group := ⟨builder.high, builder.latest.reverse⟩

/-- Adds an interval to the group of its high unit, as `Group.insertInto` does. -/
def insertInto (high : CodeUnit) (interval : Interval) :
    List GroupBuilder → List GroupBuilder
  | [] => [⟨high, [interval]⟩]
  | builder :: rest =>
      if builder.high = high then
        { builder with latest := interval :: builder.latest } :: rest
      else builder :: insertInto high interval rest

theorem toGroup_inj {first second : GroupBuilder} :
    first.toGroup = second.toGroup ↔ first = second := by
  cases first
  cases second
  simp [toGroup]

theorem map_toGroup_inj {first second : List GroupBuilder} :
    first.map toGroup = second.map toGroup ↔ first = second :=
  List.map_inj_right fun _ _ same => toGroup_inj.1 same

theorem map_toGroup_insertInto (high : CodeUnit) (interval : Interval)
    (builders : List GroupBuilder) :
    (insertInto high interval builders).map toGroup =
      Group.insertInto high interval (builders.map toGroup) := by
  induction builders with
  | nil => rfl
  | cons builder rest ih =>
      simp only [insertInto, List.map_cons, Group.insertInto, toGroup]
      split <;> simp_all [toGroup]

end GroupBuilder

/-- Committed groups, in the order in which their high units came, and the
    interval held back, if any. -/
structure Compressor where
  builders : List GroupBuilder := []
  current : Option OpenInterval := none
  deriving DecidableEq, Repr

namespace Compressor

/-- The committed groups, without the interval held back. -/
def groups (compressor : Compressor) : List Group :=
  compressor.builders.map GroupBuilder.toGroup

/-- A compressor is known by its committed groups and the interval held back. -/
theorem eq_iff {first second : Compressor} :
    first = second ↔ first.groups = second.groups ∧ first.current = second.current := by
  cases first
  cases second
  simp [groups, GroupBuilder.map_toGroup_inj]

/-- The compressor that has taken no value. -/
def empty : Compressor := {}

/-- Commits the interval held back to its group. -/
def close (compressor : Compressor) : Compressor :=
  match compressor.current with
  | none => compressor
  | some held =>
      ⟨GroupBuilder.insertInto held.high held.interval compressor.builders, none⟩

/-- Closing adds the interval held back to the groups. -/
theorem groups_close (compressor : Compressor) :
    compressor.close.groups =
      match compressor.current with
      | none => compressor.groups
      | some held => Group.insertInto held.high held.interval compressor.groups := by
  unfold close
  cases compressor.current with
  | none => rfl
  | some held =>
      exact GroupBuilder.map_toGroup_insertInto held.high held.interval compressor.builders

/-- Nothing is held back by a closed compressor. -/
theorem current_close (compressor : Compressor) : compressor.close.current = none := by
  unfold close
  cases held : compressor.current with
  | none => exact held
  | some _ => rfl

/-- Takes the units of one scalar value. -/
def insert (compressor : Compressor) (pair : Pair) : Compressor :=
  match compressor.current with
  | none => { compressor with current := some (.single pair) }
  | some held =>
      if held.Extends pair then
        { compressor with current := some (held.extendTo pair.low) }
      else
        { compressor.close with current := some (.single pair) }

/-- Takes one scalar value, and fails on any other integer. -/
def add (compressor : Compressor) (value : Int) : Except InvalidCodePoint Compressor :=
  (Pair.encode value).map compressor.insert

/-- Whether no value has been taken. -/
def isEmpty (compressor : Compressor) : Bool :=
  compressor.builders.isEmpty && compressor.current.isNone

/-- All groups, with the interval held back counted in. -/
def closedGroups (compressor : Compressor) : List Group := compressor.close.groups

/-- The pattern of a list of groups: any of them may match. -/
def patternChars (groups : List Group) : List Char :=
  List.intercalate ['|'] (groups.map Group.chars)

/-- The pattern that matches the values taken; no text at all if there are
    none. -/
def pattern (compressor : Compressor) : String :=
  String.ofList (patternChars compressor.closedGroups)

end Compressor

end SymbolRules
