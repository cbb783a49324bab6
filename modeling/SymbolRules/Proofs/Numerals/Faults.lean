import SymbolRules.Proofs.Numerals

/-!
# Faults of numerals

A text that is not the numeral of a 32-bit word has exactly one fault (`Hex.HasFault`), and that
one is reported (`Hex.word32_eq_error_iff`). It is read from left to right: digits that are too
many are met before any character behind them, and leading zeros never count.
-/

namespace SymbolRules

namespace Hex

/-- The digits at the beginning of a text, up to its end or the first other character, make up a
    value. -/
def LeadsWith (text : List Char) (value : Nat) : Prop :=
  ∃ run rest, text = run ++ rest ∧ AreDigits run value ∧
    ∀ c ∈ rest.head?, ∀ digit, ¬ IsDigit c digit

/-- A text without the plus sign that it may begin with. -/
def unsigned : List Char → List Char
  | '+' :: text => text
  | text => text

/-- Why a text is not the numeral of a 32-bit word. Too many digits count before any character
    behind them. -/
inductive HasFault (text : List Char) : NumeralFault → Prop
  | empty (nothing : text = []) : HasFault text .empty
  | tooLarge {value : Nat} (leading : LeadsWith (unsigned text) value) (large : 2 ^ 32 ≤ value) :
      HasFault text .tooLarge
  | invalidDigit (nonempty : text ≠ []) (notWord : ¬ IsWord32 text)
      (small : ∀ value, LeadsWith (unsigned text) value → value < 2 ^ 32) :
      HasFault text .invalidDigit

theorem exists_leading_digits (text : List Char) :
    ∃ run digits rest, text = run ++ rest ∧ List.Forall₂ IsDigit run digits ∧
      ∀ c ∈ rest.head?, ∀ digit, ¬ IsDigit c digit := by
  induction text with
  | nil => exact ⟨[], [], [], rfl, .nil, nofun⟩
  | cons c text ih =>
      by_cases isDigit : ∃ digit, IsDigit c digit
      · obtain ⟨digit, isDigit⟩ := isDigit
        obtain ⟨run, digits, rest, rfl, each, ends⟩ := ih
        exact ⟨c :: run, digit :: digits, rest, rfl, .cons isDigit each, ends⟩
      · refine ⟨[], [], c :: text, rfl, .nil, ?_⟩
        intro first isFirst digit
        obtain rfl := Option.some.inj isFirst
        exact fun found => isDigit ⟨digit, found⟩

/-- Whether the value becomes too large depends on the digits that come next and not on what stands
    behind them. -/
theorem continueWord32_append_eq_tooLarge_iff {value : Nat} {run rest : List Char}
    {digits : List Nat} (fits : value < UInt32.size) (each : List.Forall₂ IsDigit run digits)
    (ends : ∀ c ∈ rest.head?, ∀ digit, ¬ IsDigit c digit) :
    continueWord32 value (run ++ rest) = .error .tooLarge ↔
      UInt32.size ≤ continued value digits := by
  induction each generalizing value with
  | nil =>
      refine iff_of_false ?_ (Nat.not_le_of_lt fits)
      cases rest with
      | nil => simp [continueWord32]
      | cons c rest =>
          have notDigit : digitValue? c = none := by
            apply Option.eq_none_iff_forall_ne_some.2
            intro digit isDigit
            exact ends c rfl digit (digitValue?_eq_some_iff.1 isDigit)
          simp [continueWord32, notDigit]
  | @cons c digit run digits first _ ih =>
      rw [List.cons_append, continueWord32, digitValue?_eq_some_iff.2 first]
      dsimp only
      by_cases still : value * 16 + digit < UInt32.size
      · rw [if_pos still]
        exact ih still
      · -- The digits that follow do not make the value smaller again.
        rw [if_neg still]
        have large := Nat.le_trans (Nat.le_of_not_lt still) (le_continued _ digits)
        exact iff_of_true rfl large

theorem continueWord32_eq_tooLarge_iff {text : List Char} :
    continueWord32 0 text = .error .tooLarge ↔ ∃ value, LeadsWith text value ∧ 2 ^ 32 ≤ value := by
  have start : 0 < UInt32.size := by decide
  constructor
  · intro failed
    obtain ⟨run, digits, rest, rfl, each, ends⟩ := exists_leading_digits text
    have large := (continueWord32_append_eq_tooLarge_iff start each ends).1 failed
    rw [continued_zero] at large
    exact ⟨_, ⟨run, rest, rfl, ⟨digits, each, rfl⟩, ends⟩, large⟩
  · rintro ⟨_, ⟨run, rest, rfl, ⟨digits, each, rfl⟩, ends⟩, large⟩
    rw [← continued_zero] at large
    exact (continueWord32_append_eq_tooLarge_iff start each ends).2 large

theorem continueWord32_ne_empty (value : Nat) (text : List Char) :
    continueWord32 value text ≠ .error .empty := by
  induction text generalizing value with
  | nil => simp [continueWord32]
  | cons c text ih =>
      rw [continueWord32]
      split
      · simp
      · split
        · exact ih _
        · simp

theorem eq_of_unsigned_eq_nil {text : List Char} (nothing : unsigned text = []) :
    text = [] ∨ text = ['+'] := by
  unfold unsigned at nothing
  split at nothing
  · exact .inr (congrArg _ nothing)
  · exact .inl nothing

/-- Behind the plus sign, a text that is not just that sign is read digit by digit. -/
theorem word32_eq_error_of_ne_nil {text : List Char} {fault : NumeralFault}
    (nonempty : unsigned text ≠ []) :
    word32 text = .error fault ↔ continueWord32 0 (unsigned text) = .error fault := by
  have mapped : ∀ outcome : Except NumeralFault Nat,
      outcome.map UInt32.ofNat = .error fault ↔ outcome = .error fault := by
    intro outcome
    cases outcome <;> simp [Except.map]
  rw [← mapped]
  unfold word32
  split
  · exact absurd rfl nonempty
  · exact absurd rfl nonempty
  · rfl
  · rename_i notPlus
    rw [unsigned]
    rintro rest rfl
    exact notPlus rest rfl

theorem word32_eq_empty_iff {text : List Char} : word32 text = .error .empty ↔ text = [] := by
  by_cases nothing : unsigned text = []
  · obtain rfl | rfl := eq_of_unsigned_eq_nil nothing <;> simp [word32]
  · rw [word32_eq_error_of_ne_nil nothing]
    refine iff_of_false (continueWord32_ne_empty 0 _) ?_
    rintro rfl
    exact nothing rfl

theorem word32_eq_tooLarge_iff {text : List Char} :
    word32 text = .error .tooLarge ↔
      ∃ value, LeadsWith (unsigned text) value ∧ 2 ^ 32 ≤ value := by
  rw [← continueWord32_eq_tooLarge_iff]
  by_cases nothing : unsigned text = []
  · obtain rfl | rfl := eq_of_unsigned_eq_nil nothing <;> simp [word32, unsigned, continueWord32]
  · exact word32_eq_error_of_ne_nil nothing

/-- A text that is not read as a word has exactly one fault, and that one is reported. -/
theorem word32_eq_error_iff {text : List Char} {fault : NumeralFault} :
    word32 text = .error fault ↔ HasFault text fault := by
  constructor
  · intro failed
    cases fault with
    | empty => exact .empty (word32_eq_empty_iff.1 failed)
    | tooLarge =>
        obtain ⟨value, leading, large⟩ := word32_eq_tooLarge_iff.1 failed
        exact .tooLarge leading large
    | invalidDigit =>
        refine .invalidDigit ?_ ?_ ?_
        · intro nothing
          cases failed.symm.trans (word32_eq_empty_iff.2 nothing)
        · intro isWord
          obtain ⟨word, isRead⟩ := exists_word32_iff.2 isWord
          cases failed.symm.trans isRead
        · intro value leading
          by_contra large
          have tooLarge := word32_eq_tooLarge_iff.2 ⟨value, leading, Nat.le_of_not_lt large⟩
          cases failed.symm.trans tooLarge
  · intro hasFault
    cases hasFault with
    | empty nothing => exact word32_eq_empty_iff.2 nothing
    | tooLarge leading large => exact word32_eq_tooLarge_iff.2 ⟨_, leading, large⟩
    | invalidDigit nonempty notWord small =>
        cases outcome : word32 text with
        | ok word => exact absurd (exists_word32_iff.1 ⟨word, outcome⟩) notWord
        | error fault =>
            cases fault with
            | empty => exact absurd (word32_eq_empty_iff.1 outcome) nonempty
            | tooLarge =>
                obtain ⟨value, leading, large⟩ := word32_eq_tooLarge_iff.1 outcome
                exact absurd large (Nat.not_le_of_lt (small value leading))
            | invalidDigit => rfl

end Hex

end SymbolRules
