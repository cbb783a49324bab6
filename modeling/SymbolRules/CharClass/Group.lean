import SymbolRules.Utf16.Escape

/-!
# Groups of code units

An interval is a closed range of code units. A group collects the intervals of
all scalar values that share one high unit, and is written as a character class:
the high unit, then the intervals in brackets. A single unit stands without
brackets, two neighbouring units stand side by side, and longer intervals are
written with a hyphen.
-/

namespace SymbolRules

/-- A closed range of low units. -/
structure Interval where
  start : CodeUnit
  stop : CodeUnit
  deriving DecidableEq, Repr

namespace Interval

/-- The interval that holds one unit. -/
def single (unit : CodeUnit) : Interval := ⟨unit, unit⟩

/-- The number of units in the interval. -/
def width (interval : Interval) : Nat :=
  interval.stop.toNat - interval.start.toNat + 1

/-- The interval inside a class: one unit, two units, or two units joined by a
    hyphen where others lie between them. -/
def chars (interval : Interval) : List Char :=
  match interval.stop.toNat - interval.start.toNat with
  | 0 => Escape.unit interval.start
  | 1 => Escape.unit interval.start ++ Escape.unit interval.stop
  | _ => Escape.unit interval.start ++ '-' :: Escape.unit interval.stop

end Interval

/-- The intervals of one high unit, which is zero for single units. -/
structure Group where
  high : CodeUnit
  intervals : List Interval
  deriving DecidableEq, Repr

namespace Group

/-- Whether the group is a single unit, which is written without brackets. -/
def isSingleUnit (group : Group) : Bool :=
  match group.intervals with
  | [interval] => interval.start == interval.stop
  | _ => false

/-- The intervals as a class, or as a bare unit if there is only one unit. -/
def classChars (group : Group) : List Char :=
  let body := group.intervals.flatMap Interval.chars
  if group.isSingleUnit then body else '[' :: body ++ [']']

/-- The group as a pattern: the high unit, if any, and the class. -/
def chars (group : Group) : List Char :=
  if group.high == 0 then group.classChars
  else Escape.unit group.high ++ group.classChars

/-- The text of the pattern of a group. -/
def text (group : Group) : String := String.ofList group.chars

/-- Adds an interval at the end of the group of its high unit. A high unit that
    has no group yet gets one behind all others. -/
def insertInto (high : CodeUnit) (interval : Interval) : List Group → List Group
  | [] => [⟨high, [interval]⟩]
  | group :: rest =>
      if group.high = high then
        { group with intervals := group.intervals ++ [interval] } :: rest
      else group :: insertInto high interval rest

end Group

end SymbolRules
