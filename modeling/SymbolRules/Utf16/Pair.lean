import SymbolRules.Hex

/-!
# Unicode scalar values in UTF-16

A scalar value is written in one or two 16-bit code units. `Pair.encode` takes
any integer and fails on exactly those that are not scalar values; `Pair.decode`
recombines the units. A pair whose high unit is zero stands for a single unit,
since no scalar value is written with a zero high unit.
-/

namespace SymbolRules

/-- A UTF-16 code unit. -/
abbrev CodeUnit := UInt16

/-- A number that stands where a code point is expected. It need not be a
    scalar value, or even lie below the end of the code space. -/
abbrev CodePoint := UInt32

/-- An integer that is not a Unicode scalar value. -/
structure InvalidCodePoint where
  value : Int
  deriving DecidableEq, Repr

/-- Negative numbers are named in decimal, all others as `U+` and at least four
    hexadecimal digits. -/
def InvalidCodePoint.message (fault : InvalidCodePoint) : String :=
  if fault.value < 0 then
    "invalid code point " ++ toString fault.value
  else
    "invalid code point U+" ++ String.ofList (Hex.padded 4 fault.value.toNat)

/-- The Unicode scalar values: all code points but the surrogates. -/
def IsScalar (value : Int) : Prop :=
  0 ≤ value ∧ value ≤ 0x10FFFF ∧ ¬ (0xD800 ≤ value ∧ value ≤ 0xDFFF)

instance (value : Int) : Decidable (IsScalar value) := by
  unfold IsScalar; infer_instance

/-- A unit that can only be the first of two. -/
def IsHighSurrogate (unit : CodeUnit) : Prop := 0xD800 ≤ unit ∧ unit ≤ 0xDBFF

instance (unit : CodeUnit) : Decidable (IsHighSurrogate unit) := by
  unfold IsHighSurrogate; infer_instance

/-- A unit that can only be the second of two. -/
def IsLowSurrogate (unit : CodeUnit) : Prop := 0xDC00 ≤ unit ∧ unit ≤ 0xDFFF

instance (unit : CodeUnit) : Decidable (IsLowSurrogate unit) := by
  unfold IsLowSurrogate; infer_instance

theorem isHighSurrogate_iff {unit : CodeUnit} :
    IsHighSurrogate unit ↔ 0xD800 ≤ unit.toNat ∧ unit.toNat ≤ 0xDBFF := by
  simp [IsHighSurrogate, UInt16.le_iff_toNat_le]

theorem isLowSurrogate_iff {unit : CodeUnit} :
    IsLowSurrogate unit ↔ 0xDC00 ≤ unit.toNat ∧ unit.toNat ≤ 0xDFFF := by
  simp [IsLowSurrogate, UInt16.le_iff_toNat_le]

/-- The code units of one scalar value. The high unit is zero for a scalar value
    of the Basic Multilingual Plane, which is its own single unit. -/
structure Pair where
  high : CodeUnit
  low : CodeUnit
  deriving DecidableEq, Repr

namespace Pair

/-- The units of a number below `0x110000`: itself if it fits one unit, else the
    quotient and the remainder by `0x400` of its distance from `0x10000`. -/
def ofNat (scalar : Nat) : Pair :=
  if scalar < 0x10000 then ⟨0, UInt16.ofNat scalar⟩
  else
    ⟨UInt16.ofNat (0xD800 + (scalar - 0x10000) / 0x400),
      UInt16.ofNat (0xDC00 + (scalar - 0x10000) % 0x400)⟩

/-- Encodes a scalar value, and fails on any other integer. -/
def encode (value : Int) : Except InvalidCodePoint Pair :=
  if IsScalar value then .ok (ofNat value.toNat) else .error ⟨value⟩

/-- The units of a character. Characters are scalar values, so nothing can fail;
    the two halves are cut out of the bits of the code point. -/
def ofChar (c : Char) : Pair :=
  if c.val < 0x10000 then ⟨0, c.val.toUInt16⟩
  else
    let bits : UInt32 := c.val - 0x10000
    ⟨(0xD800 : CodeUnit) ||| (bits >>> 10).toUInt16,
      (0xDC00 : CodeUnit) ||| (bits &&& 0x3FF).toUInt16⟩

/-- Whether the pair stands for a single unit. -/
def isBmp (pair : Pair) : Bool := pair.high == 0

/-- The scalar value that the units encode. -/
def decode (pair : Pair) : Nat :=
  if pair.isBmp then pair.low.toNat
  else (pair.high.toNat - 0xD800) * 0x400 + (pair.low.toNat - 0xDC00) + 0x10000

/-- Exactly the scalar values are encoded. -/
theorem encode_eq_ok_iff {value : Int} {pair : Pair} :
    encode value = .ok pair ↔ IsScalar value ∧ pair = ofNat value.toNat := by
  unfold encode
  split
  · rename_i scalar
    simp [scalar, eq_comm]
  · rename_i other
    simp [other]

/-- Any other integer is given back in the error. -/
theorem encode_eq_error_iff {value : Int} {fault : InvalidCodePoint} :
    encode value = .error fault ↔ ¬ IsScalar value ∧ fault = ⟨value⟩ := by
  unfold encode
  split
  · rename_i scalar
    simp [scalar]
  · rename_i other
    simp [other, eq_comm]

theorem isBmp_eq_true_iff {pair : Pair} : pair.isBmp = true ↔ pair.high.toNat = 0 := by
  rw [isBmp, beq_iff_eq, ← UInt16.toNat_inj]; rfl

theorem ofNat_of_lt {scalar : Nat} (small : scalar < 0x10000) :
    ofNat scalar = ⟨0, UInt16.ofNat scalar⟩ := by rw [ofNat, if_pos small]

theorem toNat_high_ofNat {scalar : Nat} (large : 0x10000 ≤ scalar) (bound : scalar ≤ 0x10FFFF) :
    (ofNat scalar).high.toNat = 0xD800 + (scalar - 0x10000) / 0x400 := by
  rw [ofNat, if_neg (by omega), UInt16.toNat_ofNat']
  omega

theorem toNat_low_ofNat {scalar : Nat} (large : 0x10000 ≤ scalar) :
    (ofNat scalar).low.toNat = 0xDC00 + (scalar - 0x10000) % 0x400 := by
  rw [ofNat, if_neg (by omega), UInt16.toNat_ofNat']
  omega

/-- Decoding undoes encoding. -/
theorem decode_ofNat {scalar : Nat} (bound : scalar ≤ 0x10FFFF) :
    (ofNat scalar).decode = scalar := by
  unfold decode
  by_cases small : scalar < 0x10000
  · rw [if_pos (by simp [ofNat_of_lt small, isBmp]), ofNat_of_lt small, UInt16.toNat_ofNat']
    omega
  · have high := toNat_high_ofNat (Nat.le_of_not_lt small) bound
    have low := toNat_low_ofNat (Nat.le_of_not_lt small)
    rw [if_neg (by rw [isBmp_eq_true_iff]; omega), high, low]
    omega

end Pair

end SymbolRules
