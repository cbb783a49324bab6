import SymbolRules.Utf16.Pair

/-!
# Reading code units

A sequence of code units is cut into pairs from left to right: a high surrogate and
the low surrogate behind it, or any other unit on its own. A surrogate that is left
over makes the sequence unreadable. The units of an encoded scalar value are read back
whatever follows them (`Utf16.decode?_units_append`).
-/

namespace SymbolRules

/-- The code units of a pair: one or two. -/
def Pair.units (pair : Pair) : List CodeUnit :=
  if pair.isBmp then [pair.low] else [pair.high, pair.low]

namespace Utf16

/-- The scalar values that code units encode. -/
def decode? : List CodeUnit → Option (List Nat)
  | [] => some []
  | unit :: rest =>
      if IsHighSurrogate unit then
        match rest with
        | [] => none
        | low :: rest =>
            if IsLowSurrogate low then
              (decode? rest).map (Pair.decode ⟨unit, low⟩ :: ·)
            else none
      else if IsLowSurrogate unit then none
      else (decode? rest).map (unit.toNat :: ·)

/-- The units of a scalar value are read off the front of a sequence. -/
theorem decode?_units_append {value : Int} {pair : Pair}
    (encoded : Pair.encode value = .ok pair) (rest : List CodeUnit) :
    decode? (pair.units ++ rest) = (decode? rest).map (value.toNat :: ·) := by
  obtain ⟨⟨low, high, gap⟩, rfl⟩ := Pair.encode_eq_ok_iff.1 encoded
  have bound : value.toNat ≤ 0x10FFFF := by omega
  by_cases small : value.toNat < 0x10000
  · rw [Pair.ofNat_of_lt small]
    have unit : (UInt16.ofNat value.toNat).toNat = value.toNat := by
      rw [UInt16.toNat_ofNat']; omega
    simp only [Pair.units, Pair.isBmp, beq_self_eq_true, if_true, List.cons_append,
      List.nil_append]
    rw [decode?.eq_def]
    simp only [isHighSurrogate_iff, isLowSurrogate_iff, unit]
    rw [if_neg (by omega), if_neg (by omega)]
  · have first := Pair.toNat_high_ofNat (Nat.le_of_not_lt small) bound
    have second := Pair.toNat_low_ofNat (Nat.le_of_not_lt small)
    have two : (Pair.ofNat value.toNat).isBmp = false := by
      rw [← Bool.not_eq_true, Pair.isBmp_eq_true_iff]; omega
    rw [Pair.units, two]
    simp only [Bool.false_eq_true, if_false, List.cons_append, List.nil_append, decode?,
      isHighSurrogate_iff, isLowSurrogate_iff, first, second]
    rw [if_pos (by omega), if_pos (by omega), Pair.decode_ofNat bound]

end Utf16

end SymbolRules
