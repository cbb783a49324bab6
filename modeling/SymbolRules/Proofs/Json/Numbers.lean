import Mathlib.Data.Nat.Digits.Lemmas
import SymbolRules.Proofs.Json.Grammar

/-!
# Reading JSON numbers

The automaton reads the texts of a numeral as that numeral, if what comes behind them cannot
belong to a number (`NumeralScan.exists_start?_of_isText`). The natural numbers of 32 bits are
never too large for a double (`Numeral.overflows_eq_false`).
-/

namespace SymbolRules

namespace Json

/-- What may stand behind a value: nothing, white space, a comma or a closing bracket. -/
def IsDelimited (text : List Char) : Prop :=
  ∀ c ∈ text.head?, isSpace c = true ∨ c ∈ [',', ']', '}']

theorem isDelimited_nil : IsDelimited [] := by
  simp [IsDelimited]

theorem isDelimited_append {after rest : List Char} (spaces : AreSpaces after)
    (delimited : IsDelimited rest) : IsDelimited (after ++ rest) := by
  cases after with
  | nil => exact delimited
  | cons c after =>
      intro first isFirst
      obtain rfl := Option.some.inj isFirst
      exact .inl (spaces _ List.mem_cons_self)

theorem isDelimited_comma (rest : List Char) : IsDelimited (',' :: rest) := by
  intro first isFirst
  obtain rfl := Option.some.inj isFirst
  exact .inr (by decide)

theorem decimalDigit?_digitChar {digit : Nat} (small : digit < 10) :
    decimalDigit? digit.digitChar = some digit := by
  have all : ∀ digit : Fin 10, decimalDigit? digit.val.digitChar = some digit.val := by decide
  exact all ⟨digit, small⟩

namespace NumeralScan

/-- Reads on to the end of a number: to the first character behind it, or to the end of the
    text. -/
def upTo : NumeralScan → List Char → Option (NumeralScan × List Char)
  | scan, [] => some (scan, [])
  | scan, c :: rest =>
      match scan.step c with
      | .more next => upTo next rest
      | .ended => some (scan, c :: rest)
      | .malformed => none

variable {scan next : NumeralScan} {stage : NumeralStage} {numeral : Numeral} {c : Char}
  {digits : List Nat} {text rest : List Char}

theorem upTo_of_more (taken : scan.step c = .more next) (rest : List Char) :
    scan.upTo (c :: rest) = next.upTo rest := by
  rw [upTo, taken]

theorem step_digitChar {digit : Nat} (small : digit < 10) :
    scan.step digit.digitChar = scan.takeDigit digit := by
  rw [step, decimalDigit?_digitChar small]

/-- A run of digits all of which go the same way. -/
theorem upTo_digits (build : List Nat → NumeralScan)
    (grows : ∀ read digit, (build read).takeDigit digit = .more (build (digit :: read)))
    (small : ∀ digit ∈ digits, digit < 10) (read : List Nat) (rest : List Char) :
    (build read).upTo (digits.map Nat.digitChar ++ rest) =
      (build (digits.reverse ++ read)).upTo rest := by
  induction digits generalizing read with
  | nil => rfl
  | cons digit digits ih =>
      obtain ⟨first, others⟩ := List.forall_mem_cons.1 small
      have taken : (build read).step digit.digitChar = .more (build (digit :: read)) := by
        rw [step_digitChar first]
        exact grows read digit
      rw [List.map_cons, List.cons_append, upTo_of_more taken, ih others, List.reverse_cons,
        List.append_assoc]
      rfl

/-- A run of digits of which the first one leads to a new stage. -/
theorem upTo_decimals (build : List Nat → NumeralScan) (decimals : AreDecimals digits text)
    (begins : ∀ digit, scan.takeDigit digit = .more (build [digit]))
    (grows : ∀ read digit, (build read).takeDigit digit = .more (build (digit :: read)))
    (rest : List Char) :
    scan.upTo (text ++ rest) = (build digits.reverse).upTo rest := by
  obtain ⟨nonempty, small, rfl⟩ := decimals
  match digits, nonempty with
  | digit :: digits, _ =>
      obtain ⟨first, others⟩ := List.forall_mem_cons.1 small
      have taken : scan.step digit.digitChar = .more (build [digit]) := by
        rw [step_digitChar first]
        exact begins digit
      rw [List.map_cons, List.cons_append, upTo_of_more taken, upTo_digits build grows others,
        List.reverse_cons]

theorem step_of_delimiter (complete : stage.isComplete)
    (delimiter : isSpace c = true ∨ c ∈ [',', ']', '}']) :
    (⟨stage, numeral⟩ : NumeralScan).step c = .ended := by
  have delimiters : c ∈ [' ', '\t', '\n', '\r', ',', ']', '}'] := by
    simp only [isSpace, Bool.or_eq_true, decide_eq_true_eq] at delimiter
    simp only [List.mem_cons] at delimiter ⊢
    tauto
  have all : ∀ d ∈ [' ', '\t', '\n', '\r', ',', ']', '}'],
      decimalDigit? d = none ∧ d ≠ '.' ∧ d ≠ 'e' ∧ d ≠ 'E' := by
    simp [decimalDigit?]
  obtain ⟨notDigit, notPoint, notSmall, notLarge⟩ := all c delimiters
  rw [step, notDigit]
  cases stage with
  | sign | point | mark | markSign => cases complete
  | zero | whole | fraction | exponent => simp [notPoint, notSmall, notLarge]

theorem upTo_of_isDelimited (complete : stage.isComplete) (delimited : IsDelimited rest) :
    (⟨stage, numeral⟩ : NumeralScan).upTo rest = some (⟨stage, numeral⟩, rest) := by
  match rest with
  | [] => rfl
  | c :: rest => rw [upTo, step_of_delimiter complete (delimited c rfl)]

/-- Where an exponent may follow. -/
def takesMark (stage : NumeralStage) : Prop := stage = .zero ∨ stage = .whole ∨ stage = .fraction

theorem step_mark (takes : takesMark stage) (isMark : c = 'e' ∨ c = 'E') :
    (⟨stage, numeral⟩ : NumeralScan).step c = .more ⟨.mark, numeral⟩ := by
  obtain rfl | rfl := isMark <;> obtain rfl | rfl | rfl := takes <;> rfl

/-- The exponent is read up to what is behind the number. -/
theorem upTo_isExponent {negative : Bool} (numeral : Numeral) (takes : takesMark stage)
    (noExponent : numeral.exponent = []) (noSign : numeral.exponentNegative = false)
    (isExponent : Numeral.IsExponent negative digits text) (delimited : IsDelimited rest) :
    ∃ last, last.isComplete = true ∧ (⟨stage, numeral⟩ : NumeralScan).upTo (text ++ rest) =
      some (⟨last, { numeral with exponentNegative := negative, exponent := digits.reverse }⟩,
        rest) := by
  cases isExponent with
  | absent =>
      have complete : stage.isComplete = true := by obtain rfl | rfl | rfl := takes <;> rfl
      refine ⟨stage, complete, ?_⟩
      rw [List.nil_append, upTo_of_isDelimited complete delimited, List.reverse_nil, ← noExponent,
        ← noSign]
  | @present mark negative sign decimalText digits isMark signed decimals =>
      refine ⟨.exponent, rfl, ?_⟩
      have read : ∀ scan : NumeralScan, (scan.stage = .mark ∨ scan.stage = .markSign) →
          scan.numeral = { numeral with exponentNegative := negative } →
          scan.upTo (decimalText ++ rest) = some (⟨.exponent, { numeral with
            exponentNegative := negative, exponent := digits.reverse }⟩, rest) := by
        rintro ⟨stage, _⟩ isStage rfl
        let build (read : List Nat) : NumeralScan :=
          ⟨.exponent, { numeral with exponentNegative := negative, exponent := read }⟩
        have begins : ∀ digit, takeDigit ⟨stage, { numeral with exponentNegative := negative }⟩
            digit = .more (build [digit]) := by
          intro digit
          obtain rfl | rfl := isStage <;> simp [takeDigit, noExponent, build]
        rw [upTo_decimals build decimals begins (fun _ _ => rfl)]
        exact upTo_of_isDelimited rfl delimited
      rw [List.cons_append, upTo_of_more (step_mark takes isMark), List.append_assoc]
      cases signed with
      | none => exact read ⟨.mark, numeral⟩ (.inl rfl) (by simp [← noSign])
      | plus =>
          exact read ⟨.markSign, numeral⟩ (.inr rfl) (by simp [← noSign])
      | minus => exact read ⟨.markSign, _⟩ (.inr rfl) rfl

/-- The fraction is read up to the exponent. -/
theorem upTo_isFraction (numeral : Numeral) (isWhole : stage = .zero ∨ stage = .whole)
    (noFraction : numeral.fraction = []) (isFraction : Numeral.IsFraction digits text)
    (rest : List Char) :
    ∃ last, takesMark last ∧ (⟨stage, numeral⟩ : NumeralScan).upTo (text ++ rest) =
      (⟨last, { numeral with fraction := digits.reverse }⟩ : NumeralScan).upTo rest := by
  cases isFraction with
  | absent =>
      have takes : takesMark stage := by
        obtain rfl | rfl := isWhole
        · exact .inl rfl
        · exact .inr (.inl rfl)
      refine ⟨stage, takes, ?_⟩
      rw [List.nil_append, List.reverse_nil, ← noFraction]
  | @present digits decimalText decimals =>
      refine ⟨.fraction, .inr (.inr rfl), ?_⟩
      have taken : (⟨stage, numeral⟩ : NumeralScan).step '.' = .more ⟨.point, numeral⟩ := by
        obtain rfl | rfl := isWhole <;> rfl
      let build (read : List Nat) : NumeralScan := ⟨.fraction, { numeral with fraction := read }⟩
      have begins : ∀ digit, takeDigit ⟨.point, numeral⟩ digit = .more (build [digit]) := by
        intro digit
        simp [takeDigit, noFraction, build]
      rw [List.cons_append, upTo_of_more taken]
      exact upTo_decimals build decimals begins (fun _ _ => rfl) rest

/-- The sign and the whole part are read up to the fraction. -/
theorem exists_start?_of_whole (negative : Bool) (decimals : AreDecimals digits text)
    (leading : digits.head? = some 0 → digits = [0]) :
    ∃ first later scan stage, (if negative then ['-'] else []) ++ text = first :: later ∧
      start? first = some scan ∧ (stage = .zero ∨ stage = .whole) ∧
      ∀ rest, scan.upTo (later ++ rest) =
        (⟨stage, { negative, whole := digits.reverse }⟩ : NumeralScan).upTo rest := by
  obtain ⟨nonempty, small, rfl⟩ := decimals
  match digits, nonempty with
  | digit :: digits, _ =>
      obtain ⟨first, others⟩ := List.forall_mem_cons.1 small
      -- A leading zero is all of the whole part, so that the rest of it can be read as digits.
      let stage : NumeralStage := if digit = 0 then .zero else .whole
      have isWhole : stage = .zero ∨ stage = .whole := by
        by_cases zero : digit = 0
        · exact .inl (if_pos zero)
        · exact .inr (if_neg zero)
      have later : ∀ rest, (⟨stage, { negative, whole := [digit] }⟩ : NumeralScan).upTo
          (digits.map Nat.digitChar ++ rest) =
          (⟨stage, { negative, whole := (digit :: digits).reverse }⟩ : NumeralScan).upTo rest := by
        intro rest
        by_cases zero : digit = 0
        · obtain rfl : digits = [] := by
            have all := leading (by rw [zero]; rfl)
            exact (List.cons.inj all).2
          rfl
        · have isStage : stage = .whole := if_neg zero
          rw [isStage, List.reverse_cons]
          exact upTo_digits (fun read => ⟨.whole, { negative, whole := read }⟩) (fun _ _ => rfl)
            others [digit] rest
      cases negative with
      | true =>
          refine ⟨'-', (digit :: digits).map Nat.digitChar, ⟨.sign, { negative := true }⟩, stage,
            rfl, rfl, isWhole, fun rest => ?_⟩
          have taken : (⟨.sign, { negative := true }⟩ : NumeralScan).step digit.digitChar =
              .more ⟨stage, { negative := true, whole := [digit] }⟩ := by
            rw [step_digitChar first]
            rfl
          rw [List.map_cons, List.cons_append, upTo_of_more taken]
          exact later rest
      | false =>
          refine ⟨digit.digitChar, digits.map Nat.digitChar, ⟨stage, { whole := [digit] }⟩, stage,
            rfl, ?_, isWhole, later⟩
          have all : ∀ digit : Fin 10, start? digit.val.digitChar =
              some ⟨if digit.val = 0 then .zero else .whole, { whole := [digit.val] }⟩ := by
            decide
          exact all ⟨digit, first⟩

/-- The text of a numeral is read as that numeral, up to what is behind it. -/
theorem exists_start?_of_isText (written : numeral.IsText text) (delimited : IsDelimited rest) :
    ∃ first later scan last, text = first :: later ∧ start? first = some scan ∧
      last.isComplete = true ∧ scan.upTo (later ++ rest) = some (⟨last, numeral⟩, rest) := by
  obtain ⟨decimals, leading, isFraction, isExponent⟩ := written
  rename_i negative exponentNegative whole fraction exponent wholeText fractionText exponentText
  obtain ⟨first, later, scan, stage, isFirst, starts, isWhole, wholeRead⟩ :=
    exists_start?_of_whole negative decimals leading
  obtain ⟨stage, takes, fractionRead⟩ := upTo_isFraction
    { negative, whole := whole.reverse } isWhole rfl isFraction (exponentText ++ rest)
  obtain ⟨last, complete, exponentRead⟩ := upTo_isExponent
    { negative, whole := whole.reverse, fraction := fraction.reverse } takes rfl rfl isExponent
    delimited
  refine ⟨first, later ++ (fractionText ++ exponentText), scan, last, ?_, starts, complete, ?_⟩
  · rw [← List.append_assoc, isFirst, List.cons_append]
  · rw [List.append_assoc, List.append_assoc, wholeRead, fractionRead]
    exact exponentRead

end NumeralScan

namespace Numeral

/-- The numeral of a natural number. -/
def ofNat (n : Nat) : Numeral := { whole := if n = 0 then [0] else Nat.digits 10 n }

theorem ofDecimal_digits (n : Nat) : ofDecimal (Nat.digits 10 n) = n := by
  have value : ofDecimal (Nat.digits 10 n) = Nat.ofDigits 10 (Nat.digits 10 n) := by
    rw [Nat.ofDigits_eq_foldr, ofDecimal]
    congr 1
    funext digit value
    rw [Nat.cast_id, Nat.add_comm, Nat.mul_comm]
  rw [value, Nat.ofDigits_digits]

theorem natural?_ofNat (n : Nat) : (ofNat n).natural? = some n := by
  show some (ofDecimal (if n = 0 then [0] else Nat.digits 10 n)) = some n
  split
  · rename_i zero
    rw [zero]
    rfl
  · rw [ofDecimal_digits]

theorem toDigits_eq_map_digits {n : Nat} (positive : 0 < n) :
    Nat.toDigits 10 n = (Nat.digits 10 n).reverse.map Nat.digitChar := by
  induction n using Nat.strongRecOn with
  | ind n ih =>
      rw [Nat.digits_def' (by decide) positive, List.reverse_cons, List.map_append]
      by_cases small : n < 10
      · rw [Nat.toDigits_of_lt_base small, Nat.div_eq_of_lt small, Nat.mod_eq_of_lt small]
        rfl
      · rw [Nat.toDigits_of_base_le (by decide) (Nat.le_of_not_lt small), ih (n / 10) (by omega)
          (by omega)]
        rfl

theorem isText_of_areDecimals {digits : List Nat} {text : List Char}
    (decimals : AreDecimals digits text) (leading : digits.head? = some 0 → digits = [0]) :
    IsText { whole := digits.reverse } text := by
  have written := @IsText.mk false false digits [] [] text [] [] decimals leading .absent .absent
  rwa [List.append_nil, List.append_nil] at written

theorem isText_ofNat (n : Nat) : (ofNat n).IsText (Nat.toDigits 10 n) := by
  by_cases zero : n = 0
  · subst zero
    have decimals : AreDecimals [0] ['0'] := ⟨by decide, by decide, rfl⟩
    exact isText_of_areDecimals decimals fun _ => rfl
  · have decimals : AreDecimals (Nat.digits 10 n).reverse (Nat.toDigits 10 n) := by
      refine ⟨?_, ?_, toDigits_eq_map_digits (Nat.pos_of_ne_zero zero)⟩
      · rw [ne_eq, List.reverse_eq_nil_iff, Nat.digits_eq_nil_iff_eq_zero]
        exact zero
      · intro digit isDigit
        exact Nat.digits_lt_base (by decide) (List.mem_reverse.1 isDigit)
    have leading : (Nat.digits 10 n).reverse.head? ≠ some 0 := by
      intro isZero
      rw [List.head?_reverse,
        List.getLast?_eq_some_getLast (Nat.digits_ne_nil_iff_ne_zero.2 zero)] at isZero
      exact Nat.getLast_digit_ne_zero 10 zero (Option.some.inj isZero)
    have written := isText_of_areDecimals decimals fun isZero => absurd isZero leading
    rw [List.reverse_reverse] at written
    rw [ofNat, if_neg zero]
    exact written

/-- Leading digits stand for at most as much as all of them. -/
theorem le_foldl_decimal (value : Nat) (digits : List Nat) :
    value ≤ digits.foldl (fun value digit => value * 10 + digit) value := by
  induction digits generalizing value with
  | nil => exact Nat.le_refl value
  | cons digit digits ih =>
      have later : value * 10 + digit ≤ _ := ih (value * 10 + digit)
      rw [List.foldl_cons]
      omega

theorem fillSignificand_of_lt {digits : List Nat} {value : Nat}
    (fits : digits.foldl (fun value digit => value * 10 + digit) value < UInt64.size) :
    fillSignificand value digits =
      (digits.foldl (fun value digit => value * 10 + digit) value, 0) := by
  induction digits generalizing value with
  | nil => rfl
  | cons digit digits ih =>
      rw [List.foldl_cons] at fits ⊢
      have still := Nat.lt_of_le_of_lt (le_foldl_decimal (value * 10 + digit) digits) fits
      rw [fillSignificand, if_pos still]
      exact ih fits

/-- A number of at most 53 bits is not rounded. -/
theorem roundSignificant_of_lt {n : Nat} (small : n < 2 ^ 53) : roundSignificant 53 n = n := by
  have bits : n.log2 + 1 - 53 = 0 := by
    by_cases zero : n = 0
    · rw [zero]
      rfl
    · have few := (Nat.log2_lt zero).2 small
      omega
  rw [roundSignificant, bits]
  simp [Nat.mod_one]

/-- The natural numbers of 32 bits fit into a double. -/
theorem overflows_eq_false {numeral : Numeral} {n : Nat} (natural : numeral.natural? = some n)
    (fits : n < UInt32.size) : numeral.overflows = false := by
  obtain ⟨negative, whole, fraction, exponentNegative, exponent⟩ := numeral
  simp only [natural?, Option.ite_none_left_eq_some, Option.some.injEq, Bool.or_eq_true,
    not_or, Bool.not_eq_true, Bool.not_eq_false', List.isEmpty_iff] at natural
  obtain ⟨⟨⟨-, rfl⟩, rfl⟩, rfl⟩ := natural
  have small : ofDecimal whole < 2 ^ 32 := fits
  have value : whole.reverse.foldl (fun value digit => value * 10 + digit) 0 = ofDecimal whole := by
    rw [List.foldl_reverse, ofDecimal]
  have filled : fillSignificand 0 whole.reverse = (ofDecimal whole, 0) := by
    rw [fillSignificand_of_lt] <;> rw [value]
    exact Nat.lt_trans small (by decide)
  have limit : 2 ^ 32 ≤ doubleLimit := by decide +kernel
  have scaled : scaled ⟨negative, whole, [], exponentNegative, []⟩ = (ofDecimal whole, 0) := by
    simp [Numeral.scaled, filled, fillSignificand, ofDecimal]
  have one : roundSignificant 53 (Nat.pow 10 (0 : Int).toNat) = 1 := by decide +kernel
  rw [overflows, scaled]
  dsimp only
  rw [one, roundSignificant_of_lt (by omega), Nat.mul_one]
  have below : ¬ doubleLimit ≤ ofDecimal whole := by omega
  simp [below]

end Numeral

end Json

end SymbolRules
