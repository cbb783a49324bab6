import SymbolRules.Proofs.Json.Automaton

/-!
# The texts of tokens

What the automaton takes as a string, a number or a word is a text of one. Each character brings
the token a step further, so that what has been read of it is known at every state.
-/

namespace SymbolRules

/-- Four digits are read as the word that they make up. -/
theorem Hex.areDigits_of_word16? {text : List Char} {word : UInt16}
    (isRead : word16? text = some word) :
    text.length = 4 ∧ AreDigits text word.toNat := by
  unfold word16? at isRead
  split at isRead
  · rename_i a b c d
    simp only [bind, Option.bind_eq_some_iff, digitValue?_eq_some_iff, pure,
      Option.some.injEq] at isRead
    obtain ⟨first, isFirst, second, isSecond, third, isThird, fourth, isFourth, rfl⟩ := isRead
    refine ⟨rfl, [first, second, third, fourth],
      .cons isFirst (.cons isSecond (.cons isThird (.cons isFourth .nil))), ?_⟩
    have value : Nat.ofDigits 16 [first, second, third, fourth].reverse =
        first * 4096 + second * 256 + third * 16 + fourth := by
      simp [Nat.ofDigits]
      omega
    have fits : first * 4096 + second * 256 + third * 16 + fourth < UInt16.size := by
      have limits := And.intro isFirst.1 (And.intro isSecond.1 (And.intro isThird.1 isFourth.1))
      show _ < 65536
      omega
    rw [value, UInt16.toNat_ofNat_of_lt' fits]
  · cases isRead

namespace Json

/-! ### Strings -/

namespace TextScan

variable {kept : Bool} {scan next : TextScan} {c : Char} {text rest : List Char}

theorem mem_shortEscapes_of_unescape? {letter meant : Char}
    (isMeant : unescape? letter = some meant) : (letter, meant) ∈ shortEscapes := by
  unfold unescape? at isMeant
  repeat' split at isMeant
  all_goals (cases isMeant <;> subst letter <;> decide)

/-- What has been read of the escape that is being read. -/
def pending : TextScan → List Char
  | plain _ | lowDue _ _ => []
  | escape _ | lowEscape _ _ => ['\\']
  | unit _ _ digits => '\\' :: 'u' :: digits

theorem extend?_of_step (taken : scan.step kept c = .more next) :
    scan.extend? kept c = some next ∧ ∀ read, scan = plain read → c ≠ '"' := by
  unfold step at taken
  split at taken
  · cases taken
  · rename_i notEnd
    split at taken
    · rename_i extended
      obtain rfl := TextStep.more.inj taken
      exact ⟨extended, notEnd⟩
    · cases taken

theorem eq_of_step_ended {found : String} (taken : scan.step kept c = .ended found) :
    c = '"' ∧ scan.pending = [] := by
  unfold step at taken
  split at taken
  · exact ⟨rfl, rfl⟩
  · split at taken <;> cases taken

theorem pending_of_takeUnit {read : List Char} {high : Option CodeUnit} {unit : CodeUnit}
    (taken : takeUnit read high unit = some next) : next.pending = [] := by
  unfold takeUnit at taken
  split at taken
  · split at taken
    · obtain rfl := Option.some.inj taken
      rfl
    · cases taken
  · split at taken
    · cases taken
    · split at taken
      · obtain rfl := Option.some.inj taken
        rfl
      · obtain rfl := Option.some.inj taken
        rfl

/-- A character continues an escape, or it is the last one of a token. -/
theorem pending_of_step (taken : scan.step kept c = .more next) :
    next.pending = scan.pending ++ [c] ∨
      next.pending = [] ∧ ∃ units, ∀ later text, Spells later text →
        Spells (units ++ later) (scan.pending ++ c :: text) := by
  obtain ⟨extended, notQuote⟩ := extend?_of_step taken
  cases scan with
  | plain read =>
      rw [extend?] at extended
      split at extended
      · rename_i isBackslash
        obtain rfl := Option.some.inj extended
        exact .inl (by rw [isBackslash]; rfl)
      · rename_i notBackslash
        split at extended
        · cases extended
        · rename_i visible
          obtain rfl := Option.some.inj extended
          have notControl : 0x20 ≤ c.toNat := by simpa [isControl] using visible
          exact .inr ⟨rfl, _, fun later text spells =>
            .plain (notQuote read rfl) notBackslash notControl spells⟩
  | escape read =>
      rw [extend?] at extended
      split at extended
      · rename_i isUnit
        obtain rfl := Option.some.inj extended
        exact .inl (by rw [isUnit]; rfl)
      · obtain ⟨meant, isMeant, rfl⟩ := Option.map_eq_some_iff.1 extended
        exact .inr ⟨rfl, _, fun later text spells =>
          .short (mem_shortEscapes_of_unescape? isMeant) spells⟩
  | unit read high digits =>
      rw [extend?] at extended
      split at extended
      · obtain rfl := Option.some.inj extended
        exact .inl rfl
      · obtain ⟨unit, isUnit, extended⟩ := Option.bind_eq_some_iff.1 extended
        obtain ⟨four, areDigits⟩ := Hex.areDigits_of_word16? isUnit
        have whole : next.pending = [] := by
          split at extended
          · exact pending_of_takeUnit extended
          · obtain rfl := Option.some.inj extended
            rfl
        refine .inr ⟨whole, [unit], fun later text spells => ?_⟩
        have written := Spells.unit four areDigits spells
        rw [List.append_assoc] at written
        exact written
  | lowDue read high =>
      rw [extend?] at extended
      split at extended
      · rename_i isBackslash
        obtain rfl := Option.some.inj extended
        exact .inl (by rw [isBackslash]; rfl)
      · cases extended
  | lowEscape read high =>
      rw [extend?] at extended
      split at extended
      · rename_i isUnit
        obtain rfl := Option.some.inj extended
        exact .inl (by rw [isUnit]; rfl)
      · cases extended

/-- What is read up to the quote spells some units, whether it is kept or not. -/
theorem exists_spells_of_readAll {found : String}
    (isRead : scan.readAll kept text = .ok (found, rest)) :
    ∃ units inside, scan.pending ++ text = inside ++ '"' :: rest ∧ Spells units inside := by
  induction text generalizing scan with
  | nil => cases isRead
  | cons c text ih =>
      rw [readAll_cons] at isRead
      cases taken : scan.step kept c with
      | malformed =>
          rw [taken] at isRead
          cases isRead
      | ended found =>
          rw [taken] at isRead
          obtain ⟨-, rfl⟩ := Prod.mk.inj (Except.ok.inj isRead)
          obtain ⟨rfl, nothing⟩ := eq_of_step_ended taken
          exact ⟨[], [], by rw [nothing, List.nil_append], .nil⟩
      | more next =>
          rw [taken] at isRead
          obtain ⟨later, inside, isText, spells⟩ := ih isRead
          obtain continues | ⟨whole, units, longer⟩ := pending_of_step taken
          · refine ⟨later, inside, ?_, spells⟩
            rw [← isText, continues, List.append_assoc, List.singleton_append]
          · rw [whole, List.nil_append] at isText
            refine ⟨units ++ later, scan.pending ++ c :: inside, ?_, longer later inside spells⟩
            rw [isText, List.append_assoc, List.cons_append]

end TextScan

/-! ### Numbers -/

theorem eq_digitChar_of_decimalDigit? {c : Char} {digit : Nat}
    (isDigit : decimalDigit? c = some digit) : digit < 10 ∧ c = digit.digitChar := by
  have isAscii : c.toNat < 128 := by
    unfold decimalDigit? at isDigit
    split at isDigit
    · rename_i range
      exact Nat.lt_of_le_of_lt (UInt32.le_iff_toNat_le.1 range.2) (by decide)
    · cases isDigit
  have all : ∀ code : Fin 128, ∀ digit ∈ decimalDigit? (Char.ofNat code.val),
      digit < 10 ∧ Char.ofNat code.val = digit.digitChar := by
    decide +kernel
  have found := all ⟨c.toNat, isAscii⟩
  rw [Char.ofNat_toNat] at found
  exact found digit isDigit

theorem AreDecimals.concat {digits : List Nat} {text : List Char} {digit : Nat}
    (decimals : AreDecimals digits text) (small : digit < 10) :
    AreDecimals (digits ++ [digit]) (text ++ [digit.digitChar]) := by
  obtain ⟨-, each, rfl⟩ := decimals
  refine ⟨by simp, ?_, by simp⟩
  intro other isDigit
  obtain isOld | isNew := List.mem_append.1 isDigit
  · exact each other isOld
  · rwa [List.mem_singleton.1 isNew]

theorem areDecimals_singleton {digit : Nat} (small : digit < 10) :
    AreDecimals [digit] [digit.digitChar] :=
  ⟨by simp, by simpa using small, rfl⟩

namespace Numeral

/-- A sign, if there is one, and the digits in front of a fraction. -/
inductive IsWhole : List Char → Prop
  | mk {digits : List Nat} {text : List Char} (negative : Bool) (decimals : AreDecimals digits text)
      (leading : digits.head? = some 0 → digits = [0]) :
      IsWhole ((if negative then ['-'] else []) ++ text)

/-- What stands in front of an exponent. -/
inductive IsMantissa : List Char → Prop
  | mk {whole text : List Char} {digits : List Nat} (isWhole : IsWhole whole)
      (isFraction : IsFraction digits text) : IsMantissa (whole ++ text)

theorem IsMantissa.of_isWhole {text : List Char} (isWhole : IsWhole text) : IsMantissa text := by
  have alone := IsMantissa.mk isWhole .absent
  rwa [List.append_nil] at alone

theorem exists_isText_of_isMantissa {mantissa text : List Char} {negative : Bool}
    {digits : List Nat} (isMantissa : IsMantissa mantissa)
    (isExponent : IsExponent negative digits text) :
    ∃ numeral : Numeral, numeral.IsText (mantissa ++ text) := by
  obtain ⟨⟨negative, decimals, leading⟩, isFraction⟩ := isMantissa
  have written := @IsText.mk negative _ _ _ _ _ _ _ decimals leading isFraction isExponent
  rw [List.append_assoc, List.append_assoc]
  exact ⟨_, written⟩

end Numeral

namespace NumeralScan

open Numeral (IsWhole IsMantissa IsExponentSign)

/-- What has been read of a numeral at each of its stages. -/
inductive HasRead : NumeralStage → List Char → Prop
  | sign : HasRead .sign ['-']
  | zero (negative : Bool) : HasRead .zero ((if negative then ['-'] else []) ++ ['0'])
  | whole {digits : List Nat} {text : List Char} (negative : Bool)
      (decimals : AreDecimals digits text) (leading : digits.head? ≠ some 0) :
      HasRead .whole ((if negative then ['-'] else []) ++ text)
  | point {text : List Char} (isWhole : IsWhole text) : HasRead .point (text ++ ['.'])
  | fraction {whole text : List Char} {digits : List Nat} (isWhole : IsWhole whole)
      (decimals : AreDecimals digits text) : HasRead .fraction (whole ++ '.' :: text)
  | mark {text : List Char} {mark : Char} (isMantissa : IsMantissa text)
      (isMark : mark = 'e' ∨ mark = 'E') : HasRead .mark (text ++ [mark])
  | markSign {text sign : List Char} {mark : Char} {negative : Bool}
      (isMantissa : IsMantissa text) (isMark : mark = 'e' ∨ mark = 'E')
      (signed : IsExponentSign negative sign) : HasRead .markSign (text ++ mark :: sign)
  | exponent {mantissa sign text : List Char} {mark : Char} {negative : Bool} {digits : List Nat}
      (isMantissa : IsMantissa mantissa) (isMark : mark = 'e' ∨ mark = 'E')
      (signed : IsExponentSign negative sign) (decimals : AreDecimals digits text) :
      HasRead .exponent (mantissa ++ mark :: (sign ++ text))

variable {scan next : NumeralScan} {stage : NumeralStage} {text : List Char} {c : Char}

theorem hasRead_of_start? (starts : start? c = some scan) : HasRead scan.stage [c] := by
  unfold start? at starts
  split at starts
  · rename_i isSign
    obtain rfl := Option.some.inj starts
    rw [isSign]
    exact .sign
  · split at starts
    · rename_i isZero
      obtain rfl := Option.some.inj starts
      rw [isZero]
      exact .zero false
    · rename_i notZero
      obtain ⟨digit, isDigit, rfl⟩ := Option.map_eq_some_iff.1 starts
      obtain ⟨small, rfl⟩ := eq_digitChar_of_decimalDigit? isDigit
      refine .whole false (areDecimals_singleton small) ?_
      intro isZero
      obtain rfl := Option.some.inj isZero
      exact notZero rfl

theorem HasRead.isWhole (hasRead : HasRead stage text) (inWhole : stage = .zero ∨ stage = .whole) :
    IsWhole text := by
  cases hasRead with
  | zero negative =>
      have zero : AreDecimals [0] ['0'] := areDecimals_singleton (by decide)
      exact .mk negative zero fun _ => rfl
  | whole negative decimals leading =>
      exact .mk negative decimals fun isZero => absurd isZero leading
  | sign | point | fraction | mark | markSign | exponent => simp at inWhole

theorem HasRead.isMantissa (hasRead : HasRead stage text) (takes : takesMark stage) :
    IsMantissa text := by
  obtain isZero | isWhole | rfl := takes
  · exact .of_isWhole (hasRead.isWhole (.inl isZero))
  · exact .of_isWhole (hasRead.isWhole (.inr isWhole))
  · cases hasRead with
    | fraction isWhole decimals => exact .mk isWhole (.present decimals)

/-- A number may end where it is complete. -/
theorem HasRead.exists_isText (hasRead : HasRead stage text) (complete : stage.isComplete) :
    ∃ numeral : Numeral, numeral.IsText text := by
  have alone : takesMark stage → ∃ numeral : Numeral, numeral.IsText text := by
    intro takes
    have written := Numeral.exists_isText_of_isMantissa (hasRead.isMantissa takes) .absent
    rwa [List.append_nil] at written
  cases hasRead with
  | sign | point | mark | markSign => cases complete
  | zero | whole | fraction => exact alone (by simp [takesMark])
  | exponent isMantissa isMark signed decimals =>
      exact Numeral.exists_isText_of_isMantissa isMantissa (.present isMark signed decimals)

theorem hasRead_of_takeDigit {numeral : Numeral} {digit : Nat} (hasRead : HasRead stage text)
    (small : digit < 10) (taken : takeDigit ⟨stage, numeral⟩ digit = .more next) :
    HasRead next.stage (text ++ [digit.digitChar]) := by
  cases hasRead with
  | sign =>
      obtain rfl := NumeralStep.more.inj taken
      by_cases isZero : digit = 0
      · rw [isZero]
        exact .zero true
      · have leading : [digit].head? ≠ some 0 := by simpa using isZero
        show HasRead (if digit = 0 then .zero else .whole) _
        rw [if_neg isZero]
        exact .whole true (areDecimals_singleton small) leading
  | zero negative => cases taken
  | @whole digits text negative decimals leading =>
      obtain rfl := NumeralStep.more.inj taken
      have stays : (digits ++ [digit]).head? ≠ some 0 := by
        rwa [List.head?_append_of_ne_nil _ decimals.nonempty]
      rw [List.append_assoc]
      exact .whole negative (decimals.concat small) stays
  | point isWhole =>
      obtain rfl := NumeralStep.more.inj taken
      rw [List.append_assoc]
      exact .fraction isWhole (areDecimals_singleton small)
  | fraction isWhole decimals =>
      obtain rfl := NumeralStep.more.inj taken
      rw [List.append_assoc]
      exact .fraction isWhole (decimals.concat small)
  | mark isMantissa isMark =>
      obtain rfl := NumeralStep.more.inj taken
      rw [List.append_assoc]
      exact .exponent isMantissa isMark .none (areDecimals_singleton small)
  | markSign isMantissa isMark signed =>
      obtain rfl := NumeralStep.more.inj taken
      rw [List.append_assoc]
      exact .exponent isMantissa isMark signed (areDecimals_singleton small)
  | exponent isMantissa isMark signed decimals =>
      obtain rfl := NumeralStep.more.inj taken
      rw [List.append_assoc, List.cons_append, List.append_assoc]
      exact .exponent isMantissa isMark signed (decimals.concat small)

/-- Each character that continues a numeral brings it to the stage that it has then read. -/
theorem hasRead_of_step (hasRead : HasRead scan.stage text) (taken : scan.step c = .more next) :
    HasRead next.stage (text ++ [c]) := by
  obtain ⟨stage, numeral⟩ := scan
  rw [step] at taken
  cases isDigit : decimalDigit? c with
  | some digit =>
      rw [isDigit] at taken
      obtain ⟨small, rfl⟩ := eq_digitChar_of_decimalDigit? isDigit
      exact hasRead_of_takeDigit hasRead small taken
  | none =>
      rw [isDigit] at taken
      cases stage with
      | sign | point | markSign | exponent => cases taken
      | zero | whole =>
          have isWhole : IsWhole text := hasRead.isWhole (by simp)
          dsimp only at taken
          split at taken
          · rename_i isPoint
            obtain rfl := NumeralStep.more.inj taken
            rw [isPoint]
            exact .point isWhole
          · split at taken
            · rename_i isMark
              obtain rfl := NumeralStep.more.inj taken
              exact .mark (.of_isWhole isWhole) isMark
            · cases taken
      | fraction =>
          have isMantissa : IsMantissa text := hasRead.isMantissa (.inr (.inr rfl))
          dsimp only at taken
          split at taken
          · rename_i isMark
            obtain rfl := NumeralStep.more.inj taken
            exact .mark isMantissa isMark
          · cases taken
      | mark =>
          cases hasRead with
          | mark isMantissa isMark =>
              dsimp only at taken
              rw [List.append_assoc]
              split at taken
              · rename_i isPlus
                obtain rfl := NumeralStep.more.inj taken
                rw [isPlus]
                exact .markSign isMantissa isMark .plus
              · split at taken
                · rename_i isMinus
                  obtain rfl := NumeralStep.more.inj taken
                  rw [isMinus]
                  exact .markSign isMantissa isMark .minus
                · cases taken

theorem isComplete_of_step_ended (taken : scan.step c = .ended) : scan.stage.isComplete := by
  obtain ⟨stage, numeral⟩ := scan
  unfold step at taken
  split at taken
  · rename_i digit _
    cases stage <;> cases taken
  · cases stage with
    | zero | whole | fraction | exponent => rfl
    | sign | point | markSign => cases taken
    | mark =>
        dsimp only at taken
        split at taken
        · cases taken
        · split at taken <;> cases taken

end NumeralScan

end Json

end SymbolRules
