import SymbolRules.Proofs.Json.Grammar

/-!
# Reading JSON strings

A string that is kept is read as the text that its code units encode, and refused if they encode
none (`TextScan.readAll_kept`). In a string that is skipped any code units may stand
(`TextScan.readAll_skipped`).
-/

namespace SymbolRules

/-- The text that code units encode. -/
def Utf16.text? (units : List CodeUnit) : Option String :=
  (decode? units).map fun scalars => String.ofList (scalars.map Char.ofNat)

theorem Utf16.decode?_char_append (c : Char) (units : List CodeUnit) :
    decode? ((Pair.ofNat c.toNat).units ++ units) = (decode? units).map (c.toNat :: ·) := by
  have encoded : Pair.encode (c.toNat : Int) = .ok (Pair.ofNat c.toNat) :=
    Pair.encode_eq_ok_iff.2 ⟨isScalar_toNat c, rfl⟩
  exact decode?_units_append encoded units

/-- The units of a text encode it. -/
theorem Utf16.text?_encode (text : String) : text? (encode text) = some text := by
  have decoded : decode? (encode text) = some (text.toList.map Char.toNat) := by
    rw [encode, ← List.flatMap_map Char.toNat fun scalar => (Pair.ofNat scalar).units]
    apply decode?_flatMap_units
    simp [isScalar_toNat]
  have chars : Char.ofNat ∘ Char.toNat = id := funext Char.ofNat_toNat
  rw [text?, decoded, Option.map_some, List.map_map, chars, List.map_id, String.ofList_toList]

theorem Utf16.encode_injective {first second : String} (same : encode first = encode second) :
    first = second := by
  have encoded := text?_encode first
  rw [same, text?_encode] at encoded
  exact (Option.some.inj encoded).symm

namespace Hex

/-- A digit takes one byte, so that the four digits of a unit end with the fourth. -/
theorem utf8Size_of_isDigit {c : Char} {value : Nat} (isDigit : IsDigit c value) :
    c.utf8Size = 1 := by
  have all : ∀ value : Fin 16,
      value.val.digitChar.utf8Size = 1 ∧ value.val.digitChar.toUpper.utf8Size = 1 := by
    decide +kernel
  obtain ⟨small, rfl | rfl⟩ := isDigit
  · exact (all ⟨value, small⟩).1
  · exact (all ⟨value, small⟩).2

theorem utf8Size_of_areDigits {text : List Char} {value : Nat} (areDigits : AreDigits text value) :
    ∀ c ∈ text, c.utf8Size = 1 := by
  obtain ⟨digits, each, -⟩ := areDigits
  induction each with
  | nil => simp
  | cons first _ ih => exact List.forall_mem_cons.2 ⟨utf8Size_of_isDigit first, ih⟩

/-- The digits of a 16-bit word are read in either case. -/
theorem word16?_of_areDigits {text : List Char} {word : UInt16} (four : text.length = 4)
    (areDigits : AreDigits text word.toNat) : word16? text = some word := by
  obtain ⟨digits, each, isWord⟩ := areDigits
  match text, four with
  | [a, b, c, d], _ =>
      simp only [List.forall₂_cons_left_iff, List.forall₂_nil_left_iff] at each
      obtain ⟨first, _, isFirst, ⟨second, _, isSecond, ⟨third, _, isThird,
        ⟨fourth, _, isFourth, rfl, rfl⟩, rfl⟩, rfl⟩, rfl⟩ := each
      have value : first * 4096 + second * 256 + third * 16 + fourth = word.toNat := by
        rw [isWord]
        simp [Nat.ofDigits]
        omega
      rw [word16?, digitValue?_eq_some_iff.2 isFirst, digitValue?_eq_some_iff.2 isSecond,
        digitValue?_eq_some_iff.2 isThird, digitValue?_eq_some_iff.2 isFourth]
      show some (UInt16.ofNat _) = some word
      rw [value, UInt16.ofNat_toNat]

end Hex

namespace Json

namespace TextScan

/-- Reads on to the end of a string. Gives its content and what comes behind its quote. -/
def readAll (kept : Bool) : TextScan → List Char → Except Fault (String × List Char)
  | _, [] => .error .truncated
  | scan, c :: rest =>
      match scan.step kept c with
      | .more next => readAll kept next rest
      | .ended text => .ok (text, rest)
      | .malformed => .error .malformed

variable {kept : Bool} {read : List Char} {high : CodeUnit}

theorem readAll_cons {scan : TextScan} (c : Char) (rest : List Char) :
    scan.readAll kept (c :: rest) =
      match scan.step kept c with
      | .more next => next.readAll kept rest
      | .ended text => .ok (text, rest)
      | .malformed => .error .malformed := rfl

theorem readAll_quote (rest : List Char) :
    (plain read).readAll kept ('"' :: rest) = .ok (String.ofList read.reverse, rest) := rfl

theorem readAll_plain {c : Char} (notQuote : c ≠ '"') (notBackslash : c ≠ '\\')
    (notControl : 0x20 ≤ c.toNat) (rest : List Char) :
    (plain read).readAll kept (c :: rest) = (plain (c :: read)).readAll kept rest := by
  have taken : step kept (plain read) c = .more (plain (c :: read)) := by
    have visible : isControl c = false := by simpa [isControl] using notControl
    unfold step
    split
    · exact absurd rfl notQuote
    · simp [extend?, notBackslash, visible]
  rw [readAll_cons, taken]

theorem unescape?_of_mem {letter meant : Char} (isShort : (letter, meant) ∈ shortEscapes) :
    letter ≠ 'u' ∧ unescape? letter = some meant := by
  revert isShort
  have all : ∀ escape ∈ shortEscapes, escape.1 ≠ 'u' ∧ unescape? escape.1 = some escape.2 := by
    decide
  exact all (letter, meant)

theorem readAll_short {letter meant : Char} (isShort : (letter, meant) ∈ shortEscapes)
    (rest : List Char) :
    (plain read).readAll kept ('\\' :: letter :: rest) =
      (plain (meant :: read)).readAll kept rest := by
  obtain ⟨notUnit, isMeant⟩ := unescape?_of_mem isShort
  have taken : step kept (escape read) letter = .more (plain (meant :: read)) := by
    simp [step, extend?, notUnit, isMeant]
  rw [readAll_cons]
  show (escape read).readAll kept (letter :: rest) = _
  rw [readAll_cons, taken]

/-- The outcome of reading on behind the four digits of a unit. -/
def afterUnit (kept : Bool) (read : List Char) (high : Option CodeUnit) (u : CodeUnit)
    (rest : List Char) : Except Fault (String × List Char) :=
  match (if kept then takeUnit read high u else some (plain read)) with
  | some next => next.readAll kept rest
  | none => .error .malformed

theorem readAll_digits {u : CodeUnit} {digits : List Char} (four : digits.length = 4)
    (isUnit : Hex.AreDigits digits u.toNat) (high : Option CodeUnit) (rest : List Char) :
    (unit read high []).readAll kept (digits ++ rest) = afterUnit kept read high u rest := by
  have bytes : ∀ c ∈ digits, c.utf8Size = 1 := Hex.utf8Size_of_areDigits isUnit
  have isWord : Hex.word16? digits = some u := Hex.word16?_of_areDigits four isUnit
  match digits, four with
  | [a, b, c, d], _ =>
      simp only [List.forall_mem_cons] at bytes
      obtain ⟨first, second, third, fourth, -⟩ := bytes
      have collected : ∀ (front : List Char) (next : Char) (tail : List Char),
          byteCount (front ++ [next]) < 4 →
          (unit read high front).readAll kept (next :: tail) =
            (unit read high (front ++ [next])).readAll kept tail := by
        intro front next tail few
        have taken : step kept (unit read high front) next =
            .more (unit read high (front ++ [next])) := by
          simp [step, extend?, few]
        rw [readAll_cons, taken]
      have one : byteCount ([] ++ [a]) < 4 := by simp [byteCount, first]
      have two : byteCount ([a] ++ [b]) < 4 := by simp [byteCount, first, second]
      have three : byteCount ([a, b] ++ [c]) < 4 := by simp [byteCount, first, second, third]
      have all : ¬ byteCount ([a, b, c] ++ [d]) < 4 := by
        simp [byteCount, first, second, third, fourth]
      have last : (unit read high [a, b, c]).extend? kept d =
          if kept then takeUnit read high u else some (plain read) := by
        simp only [extend?, if_neg all]
        simp [isWord]
      calc (unit read high []).readAll kept (a :: b :: c :: d :: rest)
          = (unit read high [a]).readAll kept (b :: c :: d :: rest) := collected [] a _ one
        _ = (unit read high [a, b]).readAll kept (c :: d :: rest) := collected [a] b _ two
        _ = (unit read high [a, b, c]).readAll kept (d :: rest) := collected [a, b] c _ three
        _ = afterUnit kept read high u rest := by
          rw [readAll_cons, step.eq_def]
          dsimp only
          rw [last, afterUnit]
          cases (if kept then takeUnit read high u else some (plain read)) <;> rfl

theorem readAll_unit {u : CodeUnit} {digits : List Char} (four : digits.length = 4)
    (isUnit : Hex.AreDigits digits u.toNat) (rest : List Char) :
    (plain read).readAll kept ('\\' :: 'u' :: (digits ++ rest)) = afterUnit kept read none u rest :=
  readAll_digits four isUnit none rest

/-- What a string comes to whose rest stands for these scalar values, if for any. -/
def settled (read : List Char) (rest : List Char) :
    Option (List Nat) → Except Fault (String × List Char)
  | none => .error .malformed
  | some scalars => .ok (String.ofList (read.reverse ++ scalars.map Char.ofNat), rest)

theorem settled_map (scalar : Nat) (rest : List Char) (scalars : Option (List Nat)) :
    settled read rest (scalars.map (scalar :: ·)) =
      settled (Char.ofNat scalar :: read) rest scalars := by
  cases scalars <;> simp [settled]

theorem readAll_lowDue {c : Char} (notBackslash : c ≠ '\\') (rest : List Char) :
    (lowDue read high).readAll kept (c :: rest) = .error .malformed := by
  have refused : step kept (lowDue read high) c = .malformed := by
    simp [step, extend?, notBackslash]
  rw [readAll_cons, refused]

theorem readAll_lowDue_short {letter meant : Char} (isShort : (letter, meant) ∈ shortEscapes)
    (rest : List Char) :
    (lowDue read high).readAll kept ('\\' :: letter :: rest) = .error .malformed := by
  have refused : step kept (lowEscape read high) letter = .malformed := by
    simp [step, extend?, (unescape?_of_mem isShort).1]
  show (lowEscape read high).readAll kept (letter :: rest) = _
  rw [readAll_cons, refused]

/-- Behind an escaped high surrogate, a character does not complete a pair. -/
theorem decode?_high_char (isHigh : IsHighSurrogate high) (c : Char) (units : List CodeUnit) :
    Utf16.decode? (high :: ((Pair.ofNat c.toNat).units ++ units)) = none := by
  obtain ⟨first, others, isUnits, notLow⟩ := Pair.exists_units_ofNat (isScalar_toNat c)
  simp [isUnits, Utf16.decode?, isHigh, notLow]

/-- The text of a string that is kept is what its units encode. Behind an escaped high surrogate
    the rest is read together with that surrogate. -/
theorem readAll_spells {units : List CodeUnit} {inside : List Char} (spells : Spells units inside)
    (rest : List Char) :
    (∀ read, (plain read).readAll true (inside ++ '"' :: rest) =
      settled read rest (Utf16.decode? units)) ∧
    ∀ read high, IsHighSurrogate high →
      (lowDue read high).readAll true (inside ++ '"' :: rest) =
        settled read rest (Utf16.decode? (high :: units)) := by
  induction spells with
  | nil =>
      refine ⟨fun read => ?_, fun read high isHigh => ?_⟩
      · simp [readAll_quote, settled, Utf16.decode?]
      · rw [List.nil_append, readAll_lowDue (by decide)]
        simp [Utf16.decode?, isHigh, settled]
  | @plain c units text notQuote notBackslash notControl later ih =>
      refine ⟨fun read => ?_, fun read high isHigh => ?_⟩
      · rw [List.cons_append, readAll_plain notQuote notBackslash notControl, ih.1,
          Utf16.decode?_char_append, settled_map, Char.ofNat_toNat]
      · rw [List.cons_append, readAll_lowDue notBackslash, decode?_high_char isHigh]
        rfl
  | @short letter meant units text isShort later ih =>
      refine ⟨fun read => ?_, fun read high isHigh => ?_⟩
      · rw [List.cons_append, List.cons_append, readAll_short isShort, ih.1,
          Utf16.decode?_char_append, settled_map, Char.ofNat_toNat]
      · rw [List.cons_append, List.cons_append, readAll_lowDue_short isShort,
          decode?_high_char isHigh]
        rfl
  | @unit unit digits units text four isUnit later ih =>
      refine ⟨fun read => ?_, fun read high isHigh => ?_⟩
      · rw [List.cons_append, List.cons_append, List.append_assoc, readAll_unit four isUnit,
          afterUnit, if_pos rfl, takeUnit]
        by_cases isLow : IsLowSurrogate unit
        · have notHigh : ¬ IsHighSurrogate unit := by
            rw [isLowSurrogate_iff] at isLow
            rw [isHighSurrogate_iff]
            omega
          rw [if_pos isLow, Utf16.decode?_cons_of_isLowSurrogate isLow notHigh]
          rfl
        · rw [if_neg isLow]
          by_cases isHigh : IsHighSurrogate unit
          · rw [if_pos isHigh]
            exact ih.2 read unit isHigh
          · rw [if_neg isHigh, Utf16.decode?_cons_of_not_surrogate isHigh isLow, settled_map]
            exact ih.1 _
      · rw [List.cons_append, List.cons_append, List.append_assoc]
        show (TextScan.unit read (some high) []).readAll true _ = _
        rw [readAll_digits four isUnit, afterUnit, if_pos rfl, takeUnit]
        by_cases isLow : IsLowSurrogate unit
        · rw [if_pos isLow, Utf16.decode?_surrogates isHigh isLow, settled_map]
          exact ih.1 _
        · rw [if_neg isLow]
          simp [Utf16.decode?, isHigh, isLow, settled]

/-- A string that is kept is read as the text that its units encode, and refused if there is no
    such text. -/
theorem readAll_kept {units : List CodeUnit} {inside : List Char} (spells : Spells units inside)
    (rest : List Char) :
    (plain []).readAll true (inside ++ '"' :: rest) =
      match Utf16.text? units with
      | some text => .ok (text, rest)
      | none => .error .malformed := by
  rw [(readAll_spells spells rest).1, Utf16.text?]
  cases Utf16.decode? units <;> rfl

/-- A string that is skipped may have any units. -/
theorem readAll_skipped {units : List CodeUnit} {inside : List Char} (spells : Spells units inside)
    (read rest : List Char) :
    ∃ text, (plain read).readAll false (inside ++ '"' :: rest) = .ok (text, rest) := by
  induction spells generalizing read with
  | nil => exact ⟨_, readAll_quote rest⟩
  | plain notQuote notBackslash notControl later ih =>
      rw [List.cons_append, readAll_plain notQuote notBackslash notControl]
      exact ih _
  | short isShort later ih =>
      rw [List.cons_append, List.cons_append, readAll_short isShort]
      exact ih _
  | unit four isUnit later ih =>
      rw [List.cons_append, List.cons_append, List.append_assoc, readAll_unit four isUnit]
      exact ih _

end TextScan

end Json

end SymbolRules
