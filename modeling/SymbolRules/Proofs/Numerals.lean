import Mathlib.Data.List.Forall2
import Mathlib.Data.Nat.Digits.Defs
import SymbolRules.Hex

/-!
# Numerals of 32-bit words

A hexadecimal numeral is an optional plus sign and at least one digit, in either case and with any
number of leading zeros. What is read as a 32-bit word are the numerals of values that fit in it,
and no other texts (`Hex.word32_eq_ok_iff`).
-/

namespace SymbolRules

namespace Hex

/-- A character that stands for the value of a hexadecimal digit, in either case. -/
def IsDigit (c : Char) (value : Nat) : Prop :=
  value < 16 ∧ (c = value.digitChar ∨ c = value.digitChar.toUpper)

instance (c : Char) (value : Nat) : Decidable (IsDigit c value) :=
  inferInstanceAs (Decidable (value < 16 ∧ _))

/-- Digits, most significant first, and the value that they make up. -/
def AreDigits (text : List Char) (value : Nat) : Prop :=
  ∃ digits, List.Forall₂ IsDigit text digits ∧ value = Nat.ofDigits 16 digits.reverse

/-- A numeral and its value. -/
def IsNumeral (text : List Char) (value : Nat) : Prop :=
  ∃ body, (text = body ∨ text = '+' :: body) ∧ body ≠ [] ∧ AreDigits body value

/-- The numeral of a value that fits in 32 bits. -/
def IsWord32 (text : List Char) : Prop := ∃ value < 2 ^ 32, IsNumeral text value

theorem digitValue?_eq_some_iff {c : Char} {value : Nat} :
    digitValue? c = some value ↔ IsDigit c value := by
  constructor
  · intro read
    have upTo : ∀ last : Char, c ≤ last → c.toNat ≤ last.toNat :=
      fun last before => UInt32.le_iff_toNat_le.1 before
    have isAscii : c.toNat < 128 := by
      unfold digitValue? at read
      split at read
      · rename_i range
        exact Nat.lt_of_le_of_lt (upTo '9' range.2) (by decide)
      split at read
      · rename_i range
        exact Nat.lt_of_le_of_lt (upTo 'F' range.2) (by decide)
      split at read
      · rename_i range
        exact Nat.lt_of_le_of_lt (upTo 'f' range.2) (by decide)
      · cases read
    have all : ∀ code : Fin 128, ∀ value ∈ digitValue? (Char.ofNat code.val),
        IsDigit (Char.ofNat code.val) value := by
      decide +kernel
    have found := all ⟨c.toNat, isAscii⟩
    rw [Char.ofNat_toNat] at found
    exact found value read
  · have all : ∀ value : Fin 16, digitValue? value.val.digitChar = some value.val ∧
        digitValue? value.val.digitChar.toUpper = some value.val := by
      decide +kernel
    rintro ⟨small, rfl | rfl⟩
    · exact (all ⟨value, small⟩).1
    · exact (all ⟨value, small⟩).2

/-- The value of a numeral that goes on with more digits. -/
def continued (value : Nat) (digits : List Nat) : Nat :=
  digits.foldl (fun value digit => value * 16 + digit) value

theorem continued_zero (digits : List Nat) :
    continued 0 digits = Nat.ofDigits 16 digits.reverse := by
  rw [Nat.ofDigits_eq_foldr, List.foldr_reverse, continued]
  congr 1
  funext value digit
  rw [Nat.cast_id, Nat.mul_comm, Nat.add_comm]

theorem le_continued (value : Nat) (digits : List Nat) : value ≤ continued value digits := by
  induction digits generalizing value with
  | nil => exact Nat.le_refl value
  | cons digit digits ih =>
      have later : value * 16 + digit ≤ continued value (digit :: digits) := ih _
      omega

/-- Reading on succeeds exactly if only digits follow and the value fits in 32 bits in the end:
    it never gets smaller on the way. -/
theorem continueWord32_eq_ok_iff {value result : Nat} {text : List Char}
    (fits : value < UInt32.size) :
    continueWord32 value text = .ok result ↔
      result < UInt32.size ∧
        ∃ digits, List.Forall₂ IsDigit text digits ∧ result = continued value digits := by
  induction text generalizing value with
  | nil =>
      rw [continueWord32]
      constructor
      · intro read
        obtain rfl := Except.ok.inj read
        exact ⟨fits, [], .nil, rfl⟩
      · rintro ⟨-, digits, none, isResult⟩
        rw [List.forall₂_nil_left_iff.1 none] at isResult
        exact congrArg Except.ok isResult.symm
  | cons c text ih =>
      rw [continueWord32]
      cases isDigit : digitValue? c with
      | none =>
          constructor
          · intro read
            cases read
          · rintro ⟨-, digits, each, -⟩
            obtain ⟨digit, digits, first, -, rfl⟩ := List.forall₂_cons_left_iff.1 each
            rw [digitValue?_eq_some_iff.2 first] at isDigit
            cases isDigit
      | some digit =>
          have only : ∀ other, IsDigit c other ↔ other = digit := fun other => by
            rw [← digitValue?_eq_some_iff, isDigit, Option.some.injEq, eq_comm]
          have goesOn : (∃ digits, List.Forall₂ IsDigit (c :: text) digits ∧
                result = continued value digits) ↔
              ∃ digits, List.Forall₂ IsDigit text digits ∧
                result = continued (value * 16 + digit) digits := by
            simp only [List.forall₂_cons_left_iff, only]
            constructor
            · rintro ⟨_, ⟨_, digits, rfl, each, rfl⟩, isResult⟩
              exact ⟨digits, each, isResult⟩
            · rintro ⟨digits, each, isResult⟩
              exact ⟨digit :: digits, ⟨digit, digits, rfl, each, rfl⟩, isResult⟩
          rw [goesOn]
          dsimp only
          by_cases still : value * 16 + digit < UInt32.size
          · rw [if_pos still]
            exact ih still
          · -- A value that is too large stays so, however the numeral goes on.
            rw [if_neg still]
            constructor
            · intro read
              cases read
            · rintro ⟨small, digits, -, rfl⟩
              exact absurd (Nat.lt_of_le_of_lt (le_continued _ digits) small) still

theorem map_continueWord32_eq_ok_iff {body : List Char} {word : UInt32} :
    (continueWord32 0 body).map UInt32.ofNat = .ok word ↔ AreDigits body word.toNat := by
  have start : 0 < UInt32.size := by decide
  have isWord : (continueWord32 0 body).map UInt32.ofNat = .ok word ↔
      continueWord32 0 body = .ok word.toNat := by
    cases read : continueWord32 0 body with
    | error fault => simp [Except.map]
    | ok value =>
        have fits := ((continueWord32_eq_ok_iff start).1 read).1
        rw [Except.map, Except.ok.injEq, Except.ok.injEq, ← UInt32.toNat_inj,
          UInt32.toNat_ofNat_of_lt' fits]
  rw [isWord, continueWord32_eq_ok_iff start, and_iff_right word.toNat_lt_size]
  simp only [continued_zero, AreDigits]

theorem not_areDigits_plus {text : List Char} {value : Nat} : ¬ AreDigits ('+' :: text) value := by
  rintro ⟨digits, each, -⟩
  obtain ⟨digit, -, isDigit, -, -⟩ := List.forall₂_cons_left_iff.1 each
  cases digitValue?_eq_some_iff.2 isDigit

theorem isNumeral_plus_iff {text : List Char} {value : Nat} :
    IsNumeral ('+' :: text) value ↔ text ≠ [] ∧ AreDigits text value := by
  constructor
  · rintro ⟨body, rfl | same, nonempty, areDigits⟩
    · exact absurd areDigits not_areDigits_plus
    · obtain rfl := (List.cons.inj same).2
      exact ⟨nonempty, areDigits⟩
  · rintro ⟨nonempty, areDigits⟩
    exact ⟨text, .inr rfl, nonempty, areDigits⟩

theorem isNumeral_iff_of_not_plus {text : List Char} {value : Nat}
    (unsigned : ∀ rest, text ≠ '+' :: rest) :
    IsNumeral text value ↔ text ≠ [] ∧ AreDigits text value := by
  constructor
  · rintro ⟨body, rfl | same, nonempty, areDigits⟩
    · exact ⟨nonempty, areDigits⟩
    · exact absurd same (unsigned body)
  · rintro ⟨nonempty, areDigits⟩
    exact ⟨text, .inl rfl, nonempty, areDigits⟩

/-- What is read as a word are the numerals of its value. -/
theorem word32_eq_ok_iff {text : List Char} {word : UInt32} :
    word32 text = .ok word ↔ IsNumeral text word.toNat := by
  unfold word32
  split
  · rw [isNumeral_iff_of_not_plus (by simp)]
    simp
  · rw [isNumeral_plus_iff]
    simp
  · rename_i rest notAlone
    rw [isNumeral_plus_iff, map_continueWord32_eq_ok_iff, and_iff_right]
    rintro rfl
    exact notAlone rfl
  · rename_i nonempty _ unsigned
    rw [isNumeral_iff_of_not_plus unsigned, map_continueWord32_eq_ok_iff, and_iff_right nonempty]

theorem exists_word32_iff {text : List Char} :
    (∃ word, word32 text = .ok word) ↔ IsWord32 text := by
  constructor
  · rintro ⟨word, read⟩
    exact ⟨word.toNat, word.toNat_lt, word32_eq_ok_iff.1 read⟩
  · rintro ⟨value, fits, isNumeral⟩
    refine ⟨UInt32.ofNat value, word32_eq_ok_iff.2 ?_⟩
    rw [UInt32.toNat_ofNat_of_lt' fits]
    exact isNumeral

/-! ### Written numerals -/

theorem isDigit_digit {value : Nat} (small : value < 16) : IsDigit (digit value) value :=
  digitValue?_eq_some_iff.1 (digitValue?_digit small)

theorem AreDigits.concat {text : List Char} {value last : Nat} {c : Char}
    (areDigits : AreDigits text value) (isDigit : IsDigit c last) :
    AreDigits (text ++ [c]) (value * 16 + last) := by
  obtain ⟨digits, each, rfl⟩ := areDigits
  refine ⟨digits ++ [last], List.rel_append each (.cons isDigit .nil), ?_⟩
  rw [List.reverse_append, List.reverse_singleton, List.singleton_append, Nat.ofDigits_cons]
  omega

theorem AreDigits.zeros_append {text : List Char} {value : Nat} (areDigits : AreDigits text value)
    (count : Nat) : AreDigits (List.replicate count '0' ++ text) value := by
  have isZero : IsDigit '0' 0 := by decide
  induction count with
  | zero => exact areDigits
  | succ count ih =>
      obtain ⟨digits, each, isValue⟩ := ih
      refine ⟨0 :: digits, .cons isZero each, ?_⟩
      rw [isValue, List.reverse_cons, Nat.ofDigits_append, Nat.ofDigits_singleton, Nat.mul_zero,
        Nat.add_zero]

theorem areDigits_digits (value : Nat) : AreDigits (digits value) value := by
  induction value using digits.induct with
  | case1 value small =>
      rw [digits, if_pos small]
      have alone : AreDigits [] 0 := ⟨[], .nil, rfl⟩
      have one := alone.concat (isDigit_digit small)
      rwa [Nat.zero_mul, Nat.zero_add] at one
  | case2 value large ih =>
      rw [digits, if_neg large]
      have all := ih.concat (isDigit_digit (Nat.mod_lt value (by decide)))
      rwa [Nat.div_add_mod'] at all

/-- A number that is written with any least number of digits is a numeral of it. -/
theorem isNumeral_padded (width value : Nat) : IsNumeral (padded width value) value := by
  have areDigits := (areDigits_digits value).zeros_append (width - (digits value).length)
  refine ⟨_, .inl rfl, ?_, areDigits⟩
  have nonempty : digits value ≠ [] := by
    rw [digits]
    split <;> simp
  rw [padded]
  exact List.append_ne_nil_of_right_ne_nil _ nonempty

end Hex

end SymbolRules
