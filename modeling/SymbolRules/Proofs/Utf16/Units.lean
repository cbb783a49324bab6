import SymbolRules.Utf16.Decode

/-!
# Units of scalar values

Which units a scalar value is written with, when the units of two scalar values are
neighbours (`Pair.neighbours_iff`), and which sequences of units stand for one scalar
value (`Utf16.decode?_eq_singleton_iff`). Where these are found in a text, they split no
surrogate pair of it (`Utf16.splitsNoPair_of_decode?`).
-/

namespace SymbolRules

/-- Characters are scalar values. -/
theorem isScalar_toNat (c : Char) : IsScalar c.toNat := by
  have valid := c.valid
  refine ⟨by omega, ?_, ?_⟩
  · rcases valid with small | ⟨-, bound⟩
    · change c.toNat < 0xD800 at small
      omega
    · change c.toNat < 0x110000 at bound
      omega
  · rcases valid with small | ⟨gap, -⟩
    · change c.toNat < 0xD800 at small
      omega
    · change 0xDFFF < c.toNat at gap
      omega

namespace Pair

theorem toNat_high_ofNat_of_lt {scalar : Nat} (small : scalar < 0x10000) :
    (ofNat scalar).high.toNat = 0 := by
  rw [ofNat_of_lt small]
  rfl

theorem toNat_low_ofNat_of_lt {scalar : Nat} (small : scalar < 0x10000) :
    (ofNat scalar).low.toNat = scalar := by
  rw [ofNat_of_lt small, UInt16.toNat_ofNat']
  omega

theorem eq_iff_toNat {first second : Pair} :
    first = second ↔
      first.high.toNat = second.high.toNat ∧ first.low.toNat = second.low.toNat := by
  cases first
  cases second
  simp [UInt16.toNat_inj]

/-- The units of a scalar value as numbers. -/
theorem toNat_ofNat_cases {scalar : Nat} (isScalar : IsScalar scalar) :
    (scalar < 0x10000 ∧ (ofNat scalar).high.toNat = 0 ∧ (ofNat scalar).low.toNat = scalar) ∨
      (0x10000 ≤ scalar ∧
        (ofNat scalar).high.toNat = 0xD800 + (scalar - 0x10000) / 0x400 ∧
        (ofNat scalar).low.toNat = 0xDC00 + (scalar - 0x10000) % 0x400) := by
  obtain ⟨-, bound, -⟩ := isScalar
  by_cases small : scalar < 0x10000
  · exact .inl ⟨small, toNat_high_ofNat_of_lt small, toNat_low_ofNat_of_lt small⟩
  · have large : 0x10000 ≤ scalar := Nat.le_of_not_lt small
    exact .inr ⟨large, toNat_high_ofNat large (by omega), toNat_low_ofNat large⟩

/-- Under one high unit, the next low unit belongs to the next scalar value, except that a
    block of 1024 supplementary scalar values ends where the next high unit begins. -/
theorem neighbours_iff {first second : Nat} (isFirst : IsScalar first)
    (isSecond : IsScalar second) :
    (ofNat first).high = (ofNat second).high ∧
        (ofNat first).low.toNat + 1 = (ofNat second).low.toNat ↔
      second = first + 1 ∧ ¬ (0x10000 ≤ second ∧ second % 0x400 = 0) := by
  have firstUnits := toNat_ofNat_cases isFirst
  have secondUnits := toNat_ofNat_cases isSecond
  obtain ⟨-, -, firstGap⟩ := isFirst
  obtain ⟨-, -, secondGap⟩ := isSecond
  rw [← UInt16.toNat_inj]
  omega

/-- Scalar values ascend as their units do: by the high unit first, then by the low unit. -/
theorem lt_iff {first second : Nat} (isFirst : IsScalar first) (isSecond : IsScalar second) :
    first < second ↔ (ofNat first).high.toNat < (ofNat second).high.toNat ∨
      (ofNat first).high = (ofNat second).high ∧
        (ofNat first).low.toNat < (ofNat second).low.toNat := by
  have firstUnits := toNat_ofNat_cases isFirst
  have secondUnits := toNat_ofNat_cases isSecond
  rw [← UInt16.toNat_inj]
  omega

theorem decode_of_isHighSurrogate {high : CodeUnit} (isHigh : IsHighSurrogate high)
    (low : CodeUnit) :
    decode ⟨high, low⟩ =
      (high.toNat - 0xD800) * 0x400 + (low.toNat - 0xDC00) + 0x10000 := by
  have bounds := isHighSurrogate_iff.1 isHigh
  rw [decode, if_neg]
  rw [isBmp_eq_true_iff]
  show ¬ high.toNat = 0
  omega

theorem ofNat_decode_of_surrogates {high low : CodeUnit} (isHigh : IsHighSurrogate high)
    (isLow : IsLowSurrogate low) :
    IsScalar (decode ⟨high, low⟩) ∧ ofNat (decode ⟨high, low⟩) = ⟨high, low⟩ := by
  have decoded := decode_of_isHighSurrogate isHigh low
  have highBounds := isHighSurrogate_iff.1 isHigh
  have lowBounds := isLowSurrogate_iff.1 isLow
  refine ⟨⟨?_, ?_, ?_⟩, ?_⟩
  · omega
  · omega
  · omega
  · rw [eq_iff_toNat, toNat_high_ofNat (by omega) (by omega), toNat_low_ofNat (by omega), decoded]
    show _ = high.toNat ∧ _ = low.toNat
    omega

theorem isBmp_ofNat_of_lt {scalar : Nat} (small : scalar < 0x10000) :
    (ofNat scalar).isBmp = true :=
  isBmp_eq_true_iff.2 (toNat_high_ofNat_of_lt small)

theorem isBmp_ofNat_of_le {scalar : Nat} (large : 0x10000 ≤ scalar) (bound : scalar ≤ 0x10FFFF) :
    (ofNat scalar).isBmp = false := by
  rw [← Bool.not_eq_true, isBmp_eq_true_iff, toNat_high_ofNat large bound]
  omega

theorem units_ofNat_of_lt {scalar : Nat} (small : scalar < 0x10000) :
    (ofNat scalar).units = [UInt16.ofNat scalar] := by
  rw [units, if_pos (isBmp_ofNat_of_lt small), ofNat_of_lt small]

theorem exists_units_ofNat {scalar : Nat} (isScalar : IsScalar scalar) :
    ∃ first rest, (ofNat scalar).units = first :: rest ∧ ¬ IsLowSurrogate first := by
  obtain ⟨-, bound, gap⟩ := isScalar
  by_cases small : scalar < 0x10000
  · refine ⟨_, _, units_ofNat_of_lt small, ?_⟩
    rw [isLowSurrogate_iff, UInt16.toNat_ofNat']
    omega
  · have large : 0x10000 ≤ scalar := Nat.le_of_not_lt small
    have two : (ofNat scalar).units = [(ofNat scalar).high, (ofNat scalar).low] := by
      rw [units, isBmp_ofNat_of_le large (by omega)]
      rfl
    refine ⟨_, _, two, ?_⟩
    rw [isLowSurrogate_iff, toNat_high_ofNat large (by omega)]
    omega

end Pair

namespace Utf16

theorem decode?_surrogates {high low : CodeUnit} (isHigh : IsHighSurrogate high)
    (isLow : IsLowSurrogate low) (rest : List CodeUnit) :
    decode? (high :: low :: rest) = (decode? rest).map (Pair.decode ⟨high, low⟩ :: ·) := by
  rw [decode?, if_pos isHigh]
  exact if_pos isLow

theorem decode?_cons_of_isLowSurrogate {unit : CodeUnit} (isLow : IsLowSurrogate unit)
    (notHigh : ¬ IsHighSurrogate unit) (rest : List CodeUnit) :
    decode? (unit :: rest) = none := by
  rw [decode?.eq_def]
  dsimp only
  rw [if_neg notHigh, if_pos isLow]

theorem decode?_cons_of_not_surrogate {unit : CodeUnit} (notHigh : ¬ IsHighSurrogate unit)
    (notLow : ¬ IsLowSurrogate unit) (rest : List CodeUnit) :
    decode? (unit :: rest) = (decode? rest).map (unit.toNat :: ·) := by
  rw [decode?.eq_def]
  dsimp only
  rw [if_neg notHigh, if_neg notLow]

/-- Scalar values are read back from their units, however many stand one behind the other. -/
theorem decode?_flatMap_units {scalars : List Nat}
    (areScalars : ∀ scalar ∈ scalars, IsScalar scalar) :
    decode? (scalars.flatMap fun scalar => (Pair.ofNat scalar).units) = some scalars := by
  induction scalars with
  | nil => rfl
  | cons scalar scalars ih =>
      have encoded := Pair.encode_eq_ok_iff.2 ⟨areScalars scalar (List.mem_cons_self ..), rfl⟩
      have next := decode?_units_append encoded
      rw [Int.toNat_natCast] at next
      rw [List.flatMap_cons, next, ih fun other member => areScalars other (by simp [member])]
      rfl

theorem decode?_eq_nil_iff {units : List CodeUnit} : decode? units = some [] ↔ units = [] := by
  constructor
  · intro read
    induction units using decode?.fun_cases with
    | case1 => rfl
    | case2 unit isHigh => simp [decode?, isHigh] at read
    | case3 unit isHigh low rest isLow => simp [decode?_surrogates isHigh isLow] at read
    | case4 unit isHigh low rest notLow => simp [decode?, isHigh, notLow] at read
    | case5 unit rest notHigh isLow => simp [decode?_cons_of_isLowSurrogate isLow notHigh] at read
    | case6 unit rest notHigh notLow => simp [decode?_cons_of_not_surrogate notHigh notLow] at read
  · rintro rfl
    rfl

/-- The units of a scalar value, and no others, stand for that scalar value alone. -/
theorem decode?_eq_singleton_iff {units : List CodeUnit} {scalar : Nat} :
    decode? units = some [scalar] ↔ IsScalar scalar ∧ units = (Pair.ofNat scalar).units := by
  constructor
  · intro read
    induction units using decode?.fun_cases with
    | case1 => simp [decode?] at read
    | case2 unit isHigh => simp [decode?, isHigh] at read
    | case3 unit isHigh low rest isLow =>
        rw [decode?_surrogates isHigh isLow, Option.map_eq_some_iff] at read
        obtain ⟨scalars, restRead, same⟩ := read
        obtain ⟨rfl, rfl⟩ := List.cons.inj same
        obtain rfl := decode?_eq_nil_iff.1 restRead
        obtain ⟨isScalar, encoded⟩ := Pair.ofNat_decode_of_surrogates isHigh isLow
        have bounds := isHighSurrogate_iff.1 isHigh
        refine ⟨isScalar, ?_⟩
        rw [encoded, Pair.units, if_neg]
        rw [Pair.isBmp_eq_true_iff]
        show ¬ unit.toNat = 0
        omega
    | case4 unit isHigh low rest notLow => simp [decode?, isHigh, notLow] at read
    | case5 unit rest notHigh isLow => simp [decode?_cons_of_isLowSurrogate isLow notHigh] at read
    | case6 unit rest notHigh notLow =>
        rw [decode?_cons_of_not_surrogate notHigh notLow, Option.map_eq_some_iff] at read
        obtain ⟨scalars, restRead, same⟩ := read
        obtain ⟨rfl, rfl⟩ := List.cons.inj same
        obtain rfl := decode?_eq_nil_iff.1 restRead
        have bound : unit.toNat < 65536 := unit.toNat_lt
        rw [isHighSurrogate_iff] at notHigh
        rw [isLowSurrogate_iff] at notLow
        refine ⟨⟨by omega, by omega, by omega⟩, ?_⟩
        rw [Pair.units_ofNat_of_lt bound, UInt16.ofNat_toNat]
  · rintro ⟨isScalar, rfl⟩
    have encoded := Pair.encode_eq_ok_iff.2 ⟨isScalar, rfl⟩
    simpa [decode?] using decode?_units_append encoded []

/-- Wherever units are found in a readable text, what stands before and behind them can be read
    as well. -/
def SplitsNoPair (units : List CodeUnit) : Prop :=
  ∀ front back, (decode? (front ++ (units ++ back))).isSome →
    (decode? front).isSome ∧ (decode? back).isSome

theorem splitsNoPair_of_decode? {units : List CodeUnit} {scalar : Nat}
    (read : decode? units = some [scalar]) : SplitsNoPair units := by
  obtain ⟨isScalar, rfl⟩ := decode?_eq_singleton_iff.1 read
  intro front back readable
  -- The recursion on the text before takes a whole pair at each step. Only a high surrogate
  -- at its very end would reach into the units, and these begin with no low surrogate.
  induction front using decode?.induct with
  | case1 =>
      have next := decode?_units_append (Pair.encode_eq_ok_iff.2 ⟨isScalar, rfl⟩) back
      rw [Int.toNat_natCast] at next
      rw [List.nil_append, next, Option.isSome_map] at readable
      exact ⟨rfl, readable⟩
  | case2 unit isHigh =>
      obtain ⟨first, rest, written, notLow⟩ := Pair.exists_units_ofNat isScalar
      simp [written, decode?, isHigh, notLow] at readable
  | case3 unit isHigh low rest isLow ih =>
      rw [List.cons_append, List.cons_append, decode?_surrogates isHigh isLow,
        Option.isSome_map] at readable
      rw [decode?_surrogates isHigh isLow, Option.isSome_map]
      exact ih readable
  | case4 unit isHigh low rest notLow =>
      simp [decode?, isHigh, notLow] at readable
  | case5 unit rest notHigh isLow =>
      rw [List.cons_append, decode?_cons_of_isLowSurrogate isLow notHigh] at readable
      cases readable
  | case6 unit rest notHigh notLow ih =>
      rw [List.cons_append, decode?_cons_of_not_surrogate notHigh notLow,
        Option.isSome_map] at readable
      rw [decode?_cons_of_not_surrogate notHigh notLow, Option.isSome_map]
      exact ih readable

end Utf16

end SymbolRules
