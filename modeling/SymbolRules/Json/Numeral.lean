/-!
# JSON numerals

The digits of a JSON number, read one character at a time. A numeral is a natural
number if it has no sign, fraction or exponent. Any other numeral is only judged
by its size: it overflows if the nearest double would be infinite, where the
double is computed from the leading digits that fit into 64 bits and a power of
ten.
-/

namespace SymbolRules

namespace Json

/-- The digits of a number. Each list holds the latest digit first. -/
structure Numeral where
  negative : Bool := false
  whole : List Nat := []
  fraction : List Nat := []
  exponentNegative : Bool := false
  exponent : List Nat := []
  deriving DecidableEq, Repr

/-- The value of an ASCII decimal digit. -/
def decimalDigit? (c : Char) : Option Nat :=
  if '0' ≤ c ∧ c ≤ '9' then some (c.toNat - '0'.toNat) else none

/-- The number with the given decimal digits, latest digit first. -/
def ofDecimal (digits : List Nat) : Nat :=
  digits.foldr (fun digit value => value * 10 + digit) 0

/-- Rounds to `bits` significant bits; a tie goes to the even neighbour. -/
def roundSignificant (bits n : Nat) : Nat :=
  let unit := Nat.pow 2 (n.log2 + 1 - bits)
  let quotient := n / unit
  let rest := n % unit
  if 2 * rest < unit ∨ (2 * rest = unit ∧ quotient % 2 = 0) then quotient * unit
  else (quotient + 1) * unit

/-- Appends digits to a 64-bit significand until one does not fit. Returns the
    significand and the number of digits left over. -/
def fillSignificand (significand : Nat) : List Nat → Nat × Nat
  | [] => (significand, 0)
  | digit :: rest =>
      if significand * 10 + digit < UInt64.size then
        fillSignificand (significand * 10 + digit) rest
      else (significand, rest.length + 1)

/-- The least number that is rounded to infinity. The greatest double is a step below
    the 1024th power of two, and this is half of that step above it. -/
def doubleLimit : Nat := Nat.pow 2 1024 - Nat.pow 2 970

namespace Numeral

/-- The natural number that the numeral stands for, if it is written as one. -/
def natural? (numeral : Numeral) : Option Nat :=
  if numeral.negative || !numeral.fraction.isEmpty || !numeral.exponent.isEmpty then none
  else some (ofDecimal numeral.whole)

/-- The significand that is kept of the digits, and the power of ten it is scaled
    by: whole digits left over raise the power and fraction digits kept lower it. -/
def scaled (numeral : Numeral) : Nat × Int :=
  let (whole, leftWhole) := fillSignificand 0 numeral.whole.reverse
  let (significand, leftFraction) := fillSignificand whole numeral.fraction.reverse
  let exponent : Int := ofDecimal numeral.exponent
  let kept : Int := numeral.fraction.length - leftFraction
  (significand,
    leftWhole - kept + if numeral.exponentNegative then -exponent else exponent)

/-- Whether the numeral is too large for a double. The significand and the power of
    ten are each rounded to a double before they are multiplied. -/
def overflows (numeral : Numeral) : Bool :=
  let (significand, power) := numeral.scaled
  significand != 0 && decide (0 ≤ power) &&
    (decide (308 < power) ||
      decide (doubleLimit ≤
        roundSignificant 53 significand * roundSignificant 53 (Nat.pow 10 power.toNat)))

end Numeral

/-- What has been read last of a numeral. -/
inductive NumeralStage where
  | sign
  | zero
  | whole
  | point
  | fraction
  | mark
  | markSign
  | exponent
  deriving DecidableEq, Repr

/-- Whether a numeral may end here. -/
def NumeralStage.isComplete : NumeralStage → Bool
  | zero | whole | fraction | exponent => true
  | sign | point | mark | markSign => false

/-- A numeral that is being read. -/
structure NumeralScan where
  stage : NumeralStage
  numeral : Numeral
  deriving DecidableEq, Repr

/-- What one more character does to a numeral. -/
inductive NumeralStep where
  | more (scan : NumeralScan)
  /-- The character stands behind the end of the numeral. -/
  | ended
  | malformed
  deriving DecidableEq, Repr

namespace NumeralScan

/-- Begins a numeral with its first character. -/
def start? (c : Char) : Option NumeralScan :=
  if c = '-' then some ⟨.sign, { negative := true }⟩
  else if c = '0' then some ⟨.zero, { whole := [0] }⟩
  else (decimalDigit? c).map fun digit => ⟨.whole, { whole := [digit] }⟩

/-- Takes a decimal digit. None may follow a leading zero. -/
def takeDigit (scan : NumeralScan) (digit : Nat) : NumeralStep :=
  let numeral := scan.numeral
  match scan.stage with
  | .sign =>
      .more ⟨if digit = 0 then .zero else .whole, { numeral with whole := [digit] }⟩
  | .zero => .malformed
  | .whole => .more ⟨.whole, { numeral with whole := digit :: numeral.whole }⟩
  | .point | .fraction =>
      .more ⟨.fraction, { numeral with fraction := digit :: numeral.fraction }⟩
  | .mark | .markSign | .exponent =>
      .more ⟨.exponent, { numeral with exponent := digit :: numeral.exponent }⟩

/-- Takes one more character. -/
def step (scan : NumeralScan) (c : Char) : NumeralStep :=
  match decimalDigit? c with
  | some digit => scan.takeDigit digit
  | none =>
      match scan.stage with
      | .zero | .whole =>
          if c = '.' then .more { scan with stage := .point }
          else if c = 'e' ∨ c = 'E' then .more { scan with stage := .mark }
          else .ended
      | .fraction =>
          if c = 'e' ∨ c = 'E' then .more { scan with stage := .mark } else .ended
      | .mark =>
          if c = '+' then .more { scan with stage := .markSign }
          else if c = '-' then
            .more ⟨.markSign, { scan.numeral with exponentNegative := true }⟩
          else .malformed
      | .sign | .point | .markSign => .malformed
      | .exponent => .ended

end NumeralScan

end Json

end SymbolRules
