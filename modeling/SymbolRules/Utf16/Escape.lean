import SymbolRules.Utf16.Pair

/-!
# Escaped code units

A code unit is written as a backslash, a `u` and its four hexadecimal digits. A
pair is written unit by unit, without the high unit where that is zero.
-/

namespace SymbolRules

namespace Escape

/-- The escaped form of one unit. -/
def unit (u : CodeUnit) : List Char := '\\' :: 'u' :: Hex.quad u

/-- The escaped form of one or two units. -/
def pair (p : Pair) : List Char :=
  if p.isBmp then unit p.low else unit p.high ++ unit p.low

/-- Reads a text made of escaped units only. -/
def units? : List Char → Option (List CodeUnit)
  | [] => some []
  | '\\' :: 'u' :: a :: b :: c :: d :: rest => do
      let u ← Hex.upperWord16? [a, b, c, d]
      return u :: (← units? rest)
  | _ => none

/-- An escaped unit is read off the front of a text. -/
theorem units?_unit_append (u : CodeUnit) (rest : List Char) :
    units? (unit u ++ rest) = (units? rest).map (u :: ·) := by
  have read : Hex.upperWord16? (Hex.quad u) = some u := Hex.upperWord16?_eq_some_iff.2 rfl
  rw [Hex.quad] at read
  simp only [unit, Hex.quad, List.cons_append, List.nil_append, units?, read]
  cases units? rest <;> rfl

/-- Escaped units are read back. -/
theorem units?_flatMap_unit (units : List CodeUnit) :
    units? (units.flatMap unit) = some units := by
  induction units with
  | nil => rfl
  | cons u units ih => rw [List.flatMap_cons, units?_unit_append, ih]; rfl

end Escape

/-- The escaped form of a code unit. -/
def CodeUnit.text (unit : CodeUnit) : String := String.ofList (Escape.unit unit)

/-- The escaped form of a pair. -/
def Pair.text (pair : Pair) : String := String.ofList (Escape.pair pair)

end SymbolRules
