/-!
# Hexadecimal numerals

Numbers are written in upper-case digits, either with a least number of digits
(`Hex.padded`) or as exactly the four digits of a 16-bit word (`Hex.quad`).
They are read back in either case: four digits make a 16-bit word
(`Hex.word16?`), and a numeral of any length, with an optional plus sign, makes
a 32-bit word (`Hex.word32`). Reading a 32-bit word goes from left to right, so
of two faults in one numeral the leftmost is reported.
-/

namespace SymbolRules

namespace Hex

/-- The upper-case digit of a value below sixteen. -/
def digit (value : Nat) : Char :=
  if value < 10 then Char.ofNat ('0'.toNat + value)
  else Char.ofNat ('A'.toNat + (value - 10))

/-- The value of an ASCII hexadecimal digit of either case. -/
def digitValue? (c : Char) : Option Nat :=
  if '0' ≤ c ∧ c ≤ '9' then some (c.toNat - '0'.toNat)
  else if 'A' ≤ c ∧ c ≤ 'F' then some (c.toNat - 'A'.toNat + 10)
  else if 'a' ≤ c ∧ c ≤ 'f' then some (c.toNat - 'a'.toNat + 10)
  else none

/-- A digit is read back as its value. -/
theorem digitValue?_digit {value : Nat} (small : value < 16) :
    digitValue? (digit value) = some value := by
  have all : ∀ value : Fin 16, digitValue? (digit value) = some value.val := by decide
  exact all ⟨value, small⟩

/-- The digits of a number, most significant first, without leading zeros. -/
def digits (value : Nat) : List Char :=
  if value < 16 then [digit value] else digits (value / 16) ++ [digit (value % 16)]

/-- The digits of a number, filled up with zeros to at least `width` places. -/
def padded (width value : Nat) : List Char :=
  List.replicate (width - (digits value).length) '0' ++ digits value

/-- The four digits of a 16-bit word. -/
def quad (word : UInt16) : List Char :=
  [digit (word.toNat / 4096), digit (word.toNat / 256 % 16),
    digit (word.toNat / 16 % 16), digit (word.toNat % 16)]

/-- Reads exactly four digits. -/
def word16? : List Char → Option UInt16
  | [a, b, c, d] => do
      let a ← digitValue? a
      let b ← digitValue? b
      let c ← digitValue? c
      let d ← digitValue? d
      return UInt16.ofNat (a * 4096 + b * 256 + c * 16 + d)
  | _ => none

/-- Reads exactly four digits in the case in which they are written. -/
def upperWord16? (text : List Char) : Option UInt16 :=
  (word16? text).filter fun word => quad word == text

/-- Four digits are read back as the word. -/
theorem word16?_quad (word : UInt16) : word16? (quad word) = some word := by
  have bound : word.toNat < 65536 := word.toNat_lt
  have sum : word.toNat / 4096 * 4096 + word.toNat / 256 % 16 * 256 +
      word.toNat / 16 % 16 * 16 + word.toNat % 16 = word.toNat := by omega
  rw [quad, word16?, digitValue?_digit (by omega), digitValue?_digit (by omega),
    digitValue?_digit (by omega), digitValue?_digit (by omega)]
  show some (UInt16.ofNat _) = some word
  rw [sum, UInt16.ofNat_toNat]

/-- The digits that are read are those that are written. -/
theorem upperWord16?_eq_some_iff {text : List Char} {word : UInt16} :
    upperWord16? text = some word ↔ text = quad word := by
  constructor
  · intro read
    have found := (Option.filter_eq_some_iff.1 read).2
    exact (beq_iff_eq.1 found).symm
  · rintro rfl
    simp [upperWord16?, word16?_quad]

/-- Why a text is not the numeral of a 32-bit word. -/
inductive NumeralFault where
  | empty
  | invalidDigit
  | tooLarge
  deriving DecidableEq, Repr

/-- The wording of a fault. -/
def NumeralFault.message : NumeralFault → String
  | empty => "cannot parse integer from empty string"
  | invalidDigit => "invalid digit found in string"
  | tooLarge => "number too large to fit in target type"

/-- Continues a numeral of value `value` with further digits. Each character is
    first checked to be a digit and then to keep the value in 32 bits. -/
def continueWord32 (value : Nat) : List Char → Except NumeralFault Nat
  | [] => .ok value
  | c :: rest =>
      match digitValue? c with
      | none => .error .invalidDigit
      | some d =>
          if value * 16 + d < UInt32.size then continueWord32 (value * 16 + d) rest
          else .error .tooLarge

/-- Reads the numeral of a 32-bit word: an optional plus sign and at least one
    digit, with any number of leading zeros. -/
def word32 : List Char → Except NumeralFault UInt32
  | [] => .error .empty
  | ['+'] => .error .invalidDigit
  | '+' :: rest => (continueWord32 0 rest).map UInt32.ofNat
  | text => (continueWord32 0 text).map UInt32.ofNat

end Hex

end SymbolRules
