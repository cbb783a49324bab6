import SymbolRules.Proofs.Utf16.Units

/-!
# Encoding and decoding

Encoding and decoding undo each other between the scalar values and the proper pairs
(`Pair.IsProper`), and both keep the order (`Pair.encode_isomorphism`). The quotient and the
remainder are narrowed to 16 bits before the surrogate bases are added to them; nothing is lost
there (`Checked.encode?_eq`).
-/

namespace SymbolRules

namespace Checked

/-- A number as a code unit, unless it does not fit into 16 bits. -/
def unit? (value : Int) : Option CodeUnit :=
  if 0 ≤ value ∧ value < 0x10000 then some (UInt16.ofNat value.toNat) else none

/-- The sum of two units in 16 bits, unless it does not fit there. -/
def sum? (first second : CodeUnit) : Option CodeUnit :=
  if first.toNat + second.toNat < 0x10000 then some (first + second) else none

/-- A surrogate: its base, and the number that it carries. -/
def surrogate? (base : CodeUnit) (carried : Int) : Option CodeUnit :=
  (unit? carried).bind fun unit => sum? unit base

/-- `Pair.encode` with every number narrowed as it comes up, and every narrowing and every sum
    checked. -/
def encode? (value : Int) : Option (Except InvalidCodePoint Pair) :=
  if IsScalar value then
    if value < 0x10000 then (unit? value).map fun low => .ok ⟨0, low⟩
    else
      match surrogate? 0xD800 ((value - 0x10000) / 0x400),
          surrogate? 0xDC00 ((value - 0x10000) % 0x400) with
      | some high, some low => some (.ok ⟨high, low⟩)
      | _, _ => none
  else some (.error ⟨value⟩)

theorem unit?_of_lt {n : Nat} (small : n < 0x10000) : unit? n = some (UInt16.ofNat n) := by
  rw [unit?, if_pos (by omega), Int.toNat_natCast]

theorem surrogate?_of_lt {n start : Nat} {base : CodeUnit} (isBase : base.toNat = start)
    (fits : start + n < 0x10000) : surrogate? base n = some (UInt16.ofNat (start + n)) := by
  have unit : (UInt16.ofNat n).toNat = n := by
    rw [UInt16.toNat_ofNat']
    omega
  have sum : UInt16.ofNat n + base = UInt16.ofNat (start + n) := by
    rw [← isBase, UInt16.ofNat_add, UInt16.ofNat_toNat, UInt16.add_comm]
  rw [surrogate?, unit?_of_lt (by omega), Option.bind_some, sum?, unit, isBase,
    if_pos (by omega), sum]

/-- No number is too large for its unit, whatever is encoded. -/
theorem encode?_eq (value : Int) : encode? value = some (Pair.encode value) := by
  rw [encode?, Pair.encode]
  by_cases isScalar : IsScalar value
  · rw [if_pos isScalar, if_pos isScalar]
    obtain ⟨positive, bound, -⟩ := isScalar
    obtain ⟨scalar, rfl⟩ := Int.eq_ofNat_of_zero_le positive
    rw [Int.toNat_natCast]
    by_cases small : scalar < 0x10000
    · rw [if_pos (by omega), unit?_of_lt small, Pair.ofNat_of_lt small]
      rfl
    · have quotient : ((scalar : Int) - 0x10000) / 0x400 =
          ((scalar - 0x10000) / 0x400 : Nat) := by omega
      have remainder : ((scalar : Int) - 0x10000) % 0x400 =
          ((scalar - 0x10000) % 0x400 : Nat) := by omega
      have high : surrogate? 0xD800 ((scalar - 0x10000) / 0x400 : Nat) =
          some (UInt16.ofNat (0xD800 + (scalar - 0x10000) / 0x400)) :=
        surrogate?_of_lt (by decide) (by omega)
      have low : surrogate? 0xDC00 ((scalar - 0x10000) % 0x400 : Nat) =
          some (UInt16.ofNat (0xDC00 + (scalar - 0x10000) % 0x400)) :=
        surrogate?_of_lt (by decide) (by omega)
      rw [if_neg (by omega), quotient, remainder, high, low, Pair.ofNat, if_neg small]
  · rw [if_neg isScalar, if_neg isScalar]

end Checked

namespace Pair

/-- The pairs that scalar values are written with: a single unit that is no surrogate, or a high
    surrogate and a low one. -/
def IsProper (pair : Pair) : Prop :=
  pair.high = 0 ∧ ¬ IsHighSurrogate pair.low ∧ ¬ IsLowSurrogate pair.low ∨
    IsHighSurrogate pair.high ∧ IsLowSurrogate pair.low

/-- The order of pairs: by the high unit first, then by the low unit. -/
def IsBefore (first second : Pair) : Prop :=
  first.high < second.high ∨ first.high = second.high ∧ first.low < second.low

theorem isProper_ofNat {scalar : Nat} (isScalar : IsScalar scalar) : (ofNat scalar).IsProper := by
  have units := toNat_ofNat_cases isScalar
  obtain ⟨-, bound, gap⟩ := isScalar
  rw [IsProper, isHighSurrogate_iff, isLowSurrogate_iff, isHighSurrogate_iff, ← UInt16.toNat_inj]
  show _ = 0 ∧ _ ∨ _
  omega

/-- A proper pair is the encoding of what it decodes to. -/
theorem IsProper.encode_decode {pair : Pair} (proper : pair.IsProper) :
    encode pair.decode = .ok pair := by
  obtain ⟨high, low⟩ := pair
  obtain ⟨isZero, notHigh, notLow⟩ | ⟨isHigh, isLow⟩ := proper
  · obtain rfl : high = 0 := isZero
    have bound : low.toNat < 65536 := low.toNat_lt
    have decoded : decode ⟨0, low⟩ = low.toNat := rfl
    rw [isHighSurrogate_iff] at notHigh
    rw [isLowSurrogate_iff] at notLow
    dsimp only at notHigh notLow
    rw [encode_eq_ok_iff, decoded, Int.toNat_natCast, ofNat_of_lt bound, UInt16.ofNat_toNat]
    exact ⟨⟨by omega, by omega, by omega⟩, rfl⟩
  · obtain ⟨isScalar, same⟩ := ofNat_decode_of_surrogates isHigh isLow
    exact encode_eq_ok_iff.2 ⟨isScalar, same.symm⟩

theorem isBefore_ofNat_iff {first second : Nat} (isFirst : IsScalar first)
    (isSecond : IsScalar second) : (ofNat first).IsBefore (ofNat second) ↔ first < second := by
  rw [lt_iff isFirst isSecond, IsBefore, UInt16.lt_iff_toNat_lt, UInt16.lt_iff_toNat_lt]

/-- The bits of a small number below a base that has none there are added to the base. -/
theorem or_eq_ofNat {base : CodeUnit} {bits : Nat} (aligned : base.toNat % 0x400 = 0)
    (small : bits < 0x400) :
    base ||| UInt16.ofNat bits = UInt16.ofNat (base.toNat + bits) := by
  have bound : base.toNat < 65536 := base.toNat_lt
  have isBase : 0x400 * (base.toNat / 0x400) = base.toNat := by omega
  have sum : 0x400 * (base.toNat / 0x400) + bits = 0x400 * (base.toNat / 0x400) ||| bits :=
    Nat.two_pow_add_eq_or_of_lt (i := 10) small _
  rw [isBase] at sum
  have unit : (UInt16.ofNat bits).toNat = bits := by
    rw [UInt16.toNat_ofNat']
    omega
  have whole : (UInt16.ofNat (base.toNat + bits)).toNat = base.toNat + bits := by
    rw [UInt16.toNat_ofNat']
    omega
  rw [← UInt16.toNat_inj, UInt16.toNat_or, unit, whole, sum]

/-- The units of a character are those of its scalar value. -/
theorem ofChar_eq_ofNat (c : Char) : ofChar c = ofNat c.toNat := by
  have bound : c.toNat < 0x110000 := by
    obtain small | ⟨-, bound⟩ := c.valid
    · exact Nat.lt_trans small (by decide)
    · exact bound
  have narrow : ∀ word : UInt32, word.toUInt16 = UInt16.ofNat word.toNat := fun _ => rfl
  have isSmall : c.val < 0x10000 ↔ c.toNat < 0x10000 := UInt32.lt_iff_toNat_lt
  rw [ofChar, ofNat]
  by_cases small : c.toNat < 0x10000
  · rw [if_pos small, if_pos (isSmall.2 small), narrow]
    rfl
  · have bits : (c.val - 0x10000).toNat = c.toNat - 0x10000 :=
      UInt32.toNat_sub_of_le _ _ (UInt32.le_iff_toNat_le.2 (Nat.le_of_not_lt small))
    have quotient : ((c.val - 0x10000) >>> 10).toNat = (c.toNat - 0x10000) / 0x400 := by
      rw [UInt32.toNat_shiftRight, bits]
      exact Nat.shiftRight_eq_div_pow _ 10
    have remainder : ((c.val - 0x10000) &&& 0x3FF).toNat = (c.toNat - 0x10000) % 0x400 := by
      rw [UInt32.toNat_and, bits]
      exact Nat.and_two_pow_sub_one_eq_mod _ 10
    simp only [if_neg small, if_neg (mt isSmall.1 small), narrow, quotient, remainder]
    rw [or_eq_ofNat (by decide) (by omega), or_eq_ofNat (by decide) (by omega)]
    rfl

theorem exists_char_of_isScalar {scalar : Nat} (isScalar : IsScalar scalar) :
    ∃ c : Char, c.toNat = scalar := by
  obtain ⟨-, bound, gap⟩ := isScalar
  have valid : scalar.isValidChar := by
    unfold Nat.isValidChar
    omega
  exact ⟨Char.ofNatAux scalar valid, rfl⟩

/-- Exactly the scalar values are encoded, any other integer is given back. Encoding takes them to
    the proper pairs and decoding takes these back, characters included. Both keep the order, and
    under one high unit the next low unit belongs to the next scalar value, except where a block
    of 1024 supplementary scalar values begins. No number on the way exceeds 16 bits. -/
theorem encode_isomorphism :
    (∀ value : Int, (∃ pair, encode value = .ok pair) ↔ IsScalar value) ∧
    (∀ value : Int, ¬ IsScalar value → encode value = .error ⟨value⟩) ∧
    (∀ (value : Int) (pair : Pair), encode value = .ok pair →
      pair.IsProper ∧ (pair.decode : Int) = value ∧
        ∃ c : Char, (c.toNat : Int) = value ∧ ofChar c = pair) ∧
    (∀ c : Char, encode c.toNat = .ok (ofChar c)) ∧
    (∀ pair : Pair, pair.IsProper → encode pair.decode = .ok pair) ∧
    (∀ (first second : Int) (pair next : Pair), encode first = .ok pair →
      encode second = .ok next →
      (first < second ↔ pair.IsBefore next) ∧
      (next.high = pair.high ∧ next.low.toNat = pair.low.toNat + 1 ↔
        second = first + 1 ∧ ¬ (0x10000 ≤ second ∧ second % 0x400 = 0))) ∧
    ∀ value : Int, Checked.encode? value = some (encode value) := by
  have charEncoded : ∀ c : Char, encode c.toNat = .ok (ofChar c) := by
    intro c
    rw [encode_eq_ok_iff, Int.toNat_natCast]
    exact ⟨isScalar_toNat c, ofChar_eq_ofNat c⟩
  refine ⟨fun value => ?_, fun value other => encode_eq_error_iff.2 ⟨other, rfl⟩,
    fun value pair encoded => ?_, charEncoded, fun pair => IsProper.encode_decode,
    fun first second pair next isPair isNext => ?_, Checked.encode?_eq⟩
  · constructor
    · rintro ⟨pair, encoded⟩
      exact (encode_eq_ok_iff.1 encoded).1
    · intro isScalar
      exact ⟨_, encode_eq_ok_iff.2 ⟨isScalar, rfl⟩⟩
  · obtain ⟨isScalar, isPair⟩ := encode_eq_ok_iff.1 encoded
    obtain ⟨scalar, rfl⟩ := Int.eq_ofNat_of_zero_le isScalar.1
    rw [Int.toNat_natCast] at isPair
    subst isPair
    obtain ⟨c, rfl⟩ := exists_char_of_isScalar isScalar
    refine ⟨isProper_ofNat isScalar, ?_, c, rfl, ofChar_eq_ofNat c⟩
    rw [decode_ofNat (Int.ofNat_le.1 isScalar.2.1)]
  · obtain ⟨isFirst, rfl⟩ := encode_eq_ok_iff.1 isPair
    obtain ⟨isSecond, rfl⟩ := encode_eq_ok_iff.1 isNext
    obtain ⟨low, rfl⟩ := Int.eq_ofNat_of_zero_le isFirst.1
    obtain ⟨high, rfl⟩ := Int.eq_ofNat_of_zero_le isSecond.1
    rw [Int.toNat_natCast, Int.toNat_natCast, isBefore_ofNat_iff isFirst isSecond, eq_comm,
      @eq_comm Nat, neighbours_iff isFirst isSecond]
    omega

end Pair

end SymbolRules
