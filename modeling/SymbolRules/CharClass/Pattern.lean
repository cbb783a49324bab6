import SymbolRules.CharClass.Group
import SymbolRules.Text.Split
import SymbolRules.Utf16.Decode

/-!
# Reading patterns

A pattern is a choice between alternatives. An alternative is a unit that must come
first, if there is one, and then a single unit or a class; a class lists units and
spans of units. Reading a pattern gives its alternatives, with a single unit as a span
of one, and these tell which sequences of units the pattern matches.
-/

namespace SymbolRules

namespace Interval

/-- Whether a unit lies in the interval. -/
def Contains (interval : Interval) (unit : CodeUnit) : Prop :=
  interval.start ≤ unit ∧ unit ≤ interval.stop

/-- The units of an interval in ascending order. -/
def units (interval : Interval) : List CodeUnit :=
  (List.range interval.width).map fun offset => UInt16.ofNat (interval.start.toNat + offset)

end Interval

/-- The low units of a group, interval by interval. -/
def Group.lowUnits (group : Group) : List CodeUnit := group.intervals.flatMap Interval.units

/-- One alternative of a pattern: the unit that must come first, if any, and the spans
    of the unit behind it. -/
structure Alternative where
  lead : Option CodeUnit
  spans : List Interval
  deriving DecidableEq, Repr

namespace Alternative

/-- Whether an alternative matches a sequence of units: its lead, and then a unit of one
    of its spans. -/
def Matches (alternative : Alternative) (units : List CodeUnit) : Prop :=
  ∃ unit, (∃ span ∈ alternative.spans, span.Contains unit) ∧
    units = alternative.lead.toList ++ [unit]

/-- The high unit of what an alternative matches, which is zero without a lead. -/
def high (alternative : Alternative) : CodeUnit := alternative.lead.getD 0

/-- The scalar values of an alternative, span by span. -/
def scalars (alternative : Alternative) : List Nat :=
  (alternative.spans.flatMap Interval.units).map fun low => Pair.decode ⟨alternative.high, low⟩

end Alternative

namespace Pattern

/-- The parts that an alternative is written with. -/
inductive Token where
  | unit (u : CodeUnit)
  | opener
  | closer
  | hyphen
  deriving DecidableEq, Repr

/-- Cuts an alternative into its parts. -/
def tokens? : List Char → Option (List Token)
  | [] => some []
  | '[' :: rest => (tokens? rest).map (.opener :: ·)
  | ']' :: rest => (tokens? rest).map (.closer :: ·)
  | '-' :: rest => (tokens? rest).map (.hyphen :: ·)
  | '\\' :: 'u' :: a :: b :: c :: d :: rest => do
      let u ← Hex.upperWord16? [a, b, c, d]
      return .unit u :: (← tokens? rest)
  | _ => none

/-- Reads the units and spans of a class, up to the bracket that ends it. -/
def spans? : List Token → Option (List Interval)
  | [.closer] => some []
  | .unit start :: .hyphen :: .unit stop :: rest =>
      (spans? rest).map (⟨start, stop⟩ :: ·)
  | .unit u :: rest => (spans? rest).map (.single u :: ·)
  | _ => none

/-- Reads an alternative. -/
def alternative? : List Token → Option Alternative
  | [.unit u] => some ⟨none, [.single u]⟩
  | [.unit lead, .unit u] => some ⟨some lead, [.single u]⟩
  | .opener :: rest => (spans? rest).map (⟨none, ·⟩)
  | .unit lead :: .opener :: rest => (spans? rest).map (⟨some lead, ·⟩)
  | _ => none

/-- Reads a pattern. The empty text has no alternatives. -/
def read? (text : List Char) : Option (List Alternative) :=
  if text.isEmpty then some []
  else
    (Text.splitWhen (· == '|') text).mapM fun alternative =>
      (tokens? alternative).bind alternative?

/-- Whether a pattern can be read and matches a sequence of code units. -/
def Matches (text : List Char) (units : List CodeUnit) : Prop :=
  ∃ alternatives, read? text = some alternatives ∧
    ∃ alternative ∈ alternatives, alternative.Matches units

end Pattern

end SymbolRules
