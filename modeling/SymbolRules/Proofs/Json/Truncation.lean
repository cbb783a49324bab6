import SymbolRules.Proofs.Json.Reading
import SymbolRules.Proofs.Json.Unknown

/-!
# Texts that are cut off

Wherever a text is cut off, the reader reports that it ends too early (`Truncates`), even where
what was read so far lacks a member.
-/

namespace SymbolRules

namespace Json

/-- Every proper beginning of a text is found to end too early. -/
def Truncates {α : Type} (outcome : List Char → Except Fault α) (text : List Char) : Prop :=
  ∀ front, front <+: text → front ≠ text → outcome front = .error .truncated

namespace Truncates

variable {α β : Type} {outcome : List Char → Except Fault α} {next : List Char → Except Fault β}
  {front text before : List Char} {c : Char}

theorem nil : Truncates outcome [] := by
  intro front begins proper
  exact absurd (List.prefix_nil.1 begins) proper

theorem cons (empty : outcome [] = .error .truncated)
    (goesOn : ∀ rest, next rest = .error .truncated → outcome (c :: rest) = .error .truncated)
    (later : Truncates next text) : Truncates outcome (c :: text) := by
  intro front begins proper
  cases front with
  | nil => exact empty
  | cons first rest =>
      obtain ⟨rfl, others⟩ := List.cons_prefix_cons.1 begins
      exact goesOn rest (later rest others fun same => proper (by rw [same]))

theorem singleton (empty : outcome [] = .error .truncated) (c : Char) :
    Truncates outcome [c] := by
  intro front begins proper
  cases front with
  | nil => exact empty
  | cons first rest =>
      obtain ⟨rfl, others⟩ := List.cons_prefix_cons.1 begins
      exact absurd (by rw [List.prefix_nil.1 others]) proper

theorem append (first : Truncates outcome front)
    (goesOn : ∀ rest, rest <+: text → next rest = .error .truncated →
      outcome (front ++ rest) = .error .truncated)
    (later : Truncates next text) : Truncates outcome (front ++ text) := by
  intro cut begins proper
  have behind : ∀ rest, cut = front ++ rest → outcome cut = .error .truncated := by
    rintro rest rfl
    have begins := (List.prefix_append_right_inj front).1 begins
    exact goesOn rest begins (later rest begins fun same => proper (by rw [same]))
  obtain inside | ⟨rest, isCut⟩ :=
    List.prefix_or_prefix_of_prefix begins (List.prefix_append front text)
  · by_cases whole : cut = front
    · exact behind [] (by rw [whole, List.append_nil])
    · exact first cut inside whole
  · exact behind rest isCut.symm

/-- White space in front does not matter where it is skipped. -/
theorem skip (skips : ∀ before rest, AreSpaces before → outcome (before ++ rest) = outcome rest)
    (spaces : AreSpaces before) (empty : outcome [] = .error .truncated)
    (later : Truncates outcome text) : Truncates outcome (before ++ text) := by
  refine append ?_ (fun rest _ cut => ?_) later
  · intro front begins _
    have blank : AreSpaces front := fun c isChar => spaces c (begins.subset isChar)
    rw [← List.append_nil front, skips front [] blank, empty]
  · rw [skips before rest spaces, cut]

end Truncates

/-! ### Strings -/

/-- A string that is read up to its quote is cut off anywhere before that. -/
theorem TextScan.truncates_readAll {kept : Bool} {scan : TextScan} {text : List Char}
    {found : String} (isRead : scan.readAll kept text = .ok (found, [])) :
    Truncates (scan.readAll kept) text := by
  induction text generalizing scan with
  | nil => exact .nil
  | cons c rest ih =>
      rw [readAll_cons] at isRead
      cases taken : scan.step kept c with
      | more next =>
          rw [taken] at isRead
          refine .cons rfl (fun rest cut => ?_) (ih isRead)
          rw [readAll_cons, taken]
          exact cut
      | ended found =>
          rw [taken] at isRead
          obtain ⟨-, rfl⟩ := Prod.mk.inj (Except.ok.inj isRead)
          exact .singleton rfl c
      | malformed =>
          rw [taken] at isRead
          cases isRead

theorem exists_inside_of_isQuoted {units : List CodeUnit} {text : List Char} {found : String}
    (written : IsQuoted units text) (encoded : Utf16.text? units = some found) :
    ∃ inside, text = '"' :: inside ∧ Truncates (TextScan.readAll true (.plain [])) inside := by
  obtain ⟨spells⟩ := written
  have isRead := TextScan.readAll_kept spells []
  rw [encoded] at isRead
  exact ⟨_, rfl, TextScan.truncates_readAll isRead⟩

namespace State

variable {shape : Shape} {stack : List Frame} {frame : Frame} {text : List Char}

theorem truncates_isString {units : List CodeUnit} {found : String} (written : IsQuoted units text)
    (encoded : Utf16.text? units = some found) (shape : Shape) (stack : List Frame) :
    Truncates (State.reading (.value (some shape)) stack).outcome text := by
  obtain ⟨inside, rfl, cuts⟩ := exists_inside_of_isQuoted written encoded
  refine .cons rfl (fun rest cut => ?_) cuts
  rw [outcome_value (by decide)]
  show (State.reading (.string (some shape) (.plain [])) stack).outcome rest = _
  rw [outcome_string]
  show (TextScan.readAll true (.plain []) rest).bind _ = _
  rw [cut]
  rfl

theorem truncates_isName {units : List CodeUnit} {found : String} (written : IsQuoted units text)
    (encoded : Utf16.text? units = some found) (keeps : keepsNames stack = true) :
    Truncates (State.reading .nextName stack).outcome text := by
  obtain ⟨inside, rfl, cuts⟩ := exists_inside_of_isQuoted written encoded
  refine .cons rfl (fun rest cut => ?_) cuts
  rw [outcome_token rfl (by decide)]
  show (State.reading (.name (.plain [])) stack).outcome rest = _
  rw [outcome_name, keeps, cut]
  rfl

end State

/-! ### Numbers -/

namespace Numeral

/-- A natural number is written with its digits alone. -/
theorem exists_decimals_of_natural {numeral : Numeral} {text : List Char} {n : Nat}
    (written : numeral.IsText text) (natural : numeral.natural? = some n) :
    ∃ digits, AreDecimals digits text ∧ (digits.head? = some 0 → digits = [0]) ∧
      ofDecimal digits.reverse = n := by
  obtain ⟨decimals, leading, isFraction, isExponent⟩ := written
  rename_i negative exponentNegative whole fraction exponent wholeText fractionText exponentText
  simp only [natural?, Option.ite_none_left_eq_some, Option.some.injEq, Bool.or_eq_true,
    not_or, Bool.not_eq_true, Bool.not_eq_false', List.isEmpty_iff,
    List.reverse_eq_nil_iff] at natural
  obtain ⟨⟨⟨rfl, rfl⟩, rfl⟩, value⟩ := natural
  refine ⟨whole, ?_, leading, value⟩
  cases isFraction with
  | present none => exact absurd rfl none.nonempty
  | absent =>
      cases isExponent with
      | present _ _ none => exact absurd rfl none.nonempty
      | absent => simpa using decimals

theorem ofDecimal_reverse_le_of_prefix {front digits : List Nat} (begins : front <+: digits) :
    ofDecimal front.reverse ≤ ofDecimal digits.reverse := by
  obtain ⟨others, rfl⟩ := begins
  rw [ofDecimal, ofDecimal, List.foldr_reverse, List.foldr_reverse, List.foldl_append]
  exact le_foldl_decimal _ others

end Numeral

namespace State

variable {stack : List Frame} {frame : Frame} {text : List Char}

/-- A number that is cut off is a smaller number, which must not end where it does. -/
theorem truncates_isNumeral {numeral : Numeral} {n : Nat} (written : numeral.IsText text)
    (natural : numeral.natural? = some n) (small : n < UInt32.size) (frame : Frame)
    (stack : List Frame) :
    Truncates (State.reading (.value (some .number)) (frame :: stack)).outcome text := by
  obtain ⟨digits, ⟨-, areDigits, rfl⟩, leading, rfl⟩ :=
    Numeral.exists_decimals_of_natural written natural
  intro cut begins _
  obtain ⟨front, isFront, rfl⟩ := List.prefix_map_iff.1 begins
  by_cases nonempty : front = []
  · rw [nonempty]
    rfl
  have decimals : AreDecimals front (front.map Nat.digitChar) :=
    ⟨nonempty, fun digit isDigit => areDigits digit (isFront.subset isDigit), rfl⟩
  have leading : front.head? = some 0 → front = [0] := by
    intro isZero
    obtain ⟨others, rfl⟩ := isFront
    have alone := leading (by rw [List.head?_append, isZero]; rfl)
    obtain ⟨isNil, -⟩ | ⟨isZero, -⟩ := List.append_eq_singleton_iff.1 alone
    · exact absurd isNil nonempty
    · exact isZero
  have isNatural : Numeral.natural? { whole := front.reverse } = some (ofDecimal front.reverse) :=
    rfl
  have fits := Nat.lt_of_le_of_lt (Numeral.ofDecimal_reverse_le_of_prefix isFront) small
  have isRead : readNumber { whole := front.reverse } (some .number) =
      .ok (some (.number (ofDecimal front.reverse))) := by
    simp [readNumber, Numeral.overflows_eq_false isNatural fits, isNatural, fits]
  rw [← List.append_nil (front.map _),
    outcome_isNumeral (Numeral.isText_of_areDecimals decimals leading) isDelimited_nil, isRead]
  rfl

end State

/-! ### Arrays and objects -/

theorem IsDelimited.of_prefix {front text : List Char} (delimited : IsDelimited text)
    (begins : front <+: text) : IsDelimited front := by
  intro c isFirst
  obtain ⟨others, rfl⟩ := begins
  exact delimited c (by rw [List.head?_append, isFirst]; rfl)

namespace State

variable {shape : Shape} {stack : List Frame} {frame last : Frame} {c closer : Char}
  {text inside rest : List Char}

/-- White space between two tokens does not matter. -/
theorem truncates_skip {phase : Phase} {before : List Char} (between : phase.isBetween)
    (spaces : AreSpaces before) (later : Truncates (State.reading phase stack).outcome text) :
    Truncates (State.reading phase stack).outcome (before ++ text) :=
  .skip (fun _ rest spaces => outcome_skip between spaces rest) spaces
    (outcome_nil_of_isBetween between stack) later

section Listed

variable {α : Type} {IsPart : α → List Char → Prop} {readPart : Frame → α → Except Fault Frame}
  {parts : List α}

/-- How a part is cut off that a frame goes on with. -/
structure TruncatesPart (IsPart : α → List Char → Prop) (frame : Frame) (stack : List Frame)
    (part : α) : Prop where
  empty : outcomeNext frame stack [] = .error .truncated
  inside : ∀ text, IsPart part text → Truncates (outcomeNext frame stack) text

/-- Behind a part the automaton goes on with the frame that holds it. The first part may be taken in
    a way of its own, if that begins as it does behind a comma. -/
theorem truncates_part {part : α} {next : Frame} (cuts : TruncatesPart IsPart frame stack part)
    (reads : ReadsPart closer stack IsPart readPart part) (isCloser : frame.closer = closer)
    (isRead : readPart frame part = .ok next) (written : IsPart part text)
    {outcome : List Char → Except Fault Value} (empty : outcome [] = .error .truncated)
    (begins : ∃ c later, text = c :: later ∧
      ∀ rest, outcome (c :: rest) = outcomeNext frame stack (c :: rest))
    (delimited : IsDelimited rest)
    (later : Truncates (State.reading .after (next :: stack)).outcome rest) :
    Truncates outcome (text ++ rest) := by
  obtain ⟨c, others, rfl, agrees⟩ := begins
  refine .append ?_ ?_ later
  · intro front inFront proper
    cases front with
    | nil => exact empty
    | cons first front =>
        obtain ⟨rfl, -⟩ := List.cons_prefix_cons.1 inFront
        rw [agrees]
        exact cuts.inside _ written _ inFront proper
  · intro front inFront cut
    rw [List.cons_append, agrees, ← List.cons_append,
      reads frame _ front isCloser written (delimited.of_prefix inFront), isRead]
    exact cut

/-- The parts of an array or object are cut off anywhere before the closing bracket. -/
theorem truncates_listed (stack : List Frame) (Knows : Frame → List α → Prop)
    (cuts : ∀ frame part others next, Knows frame (part :: others) →
      readPart frame part = .ok next → TruncatesPart IsPart frame stack part ∧ Knows next others)
    (reads : ∀ part ∈ parts, ReadsPart closer stack IsPart readPart part)
    (keeps : ∀ frame part next, readPart frame part = .ok next → next.closer = frame.closer)
    (written : Listed IsPart parts inside) (isCloser : frame.closer = closer)
    (known : Knows frame parts) (isRead : parts.foldlM readPart frame = .ok last)
    {outcome : List Char → Except Fault Value} (empty : outcome [] = .error .truncated)
    (skips : ∀ before rest, AreSpaces before → outcome (before ++ rest) = outcome rest)
    (begins : ∀ part text, IsPart part text → ∃ c later, text = c :: later ∧
      ∀ rest, outcome (c :: rest) = outcomeNext frame stack (c :: rest)) :
    Truncates outcome (inside ++ [closer]) := by
  induction written generalizing frame outcome with
  | none spaces => exact .skip skips spaces empty (.singleton empty closer)
  | @one part before text after leading isPart trailing =>
      rw [List.foldlM_cons] at isRead
      obtain ⟨next, isRead, -⟩ := bind_eq_ok_iff.1 isRead
      have delimited : IsDelimited (after ++ [closer]) :=
        isDelimited_append trailing (isCloser ▸ isDelimited_closer frame [])
      rw [List.append_assoc, List.append_assoc]
      refine .skip skips leading empty ?_
      refine truncates_part (cuts _ _ _ _ known isRead).1 (reads part List.mem_cons_self)
        isCloser isRead isPart empty (begins part text isPart) delimited ?_
      exact truncates_skip rfl trailing (.singleton rfl closer)
  | @more part following others before text after later leading isPart trailing written ih =>
      rw [List.foldlM_cons] at isRead
      obtain ⟨next, isRead, areRead⟩ := bind_eq_ok_iff.1 isRead
      obtain ⟨cut, knownNext⟩ := cuts _ _ _ _ known isRead
      have delimited : IsDelimited (after ++ ',' :: (later ++ [closer])) :=
        isDelimited_append trailing (isDelimited_comma _)
      have goesOn : outcomeNext next stack [] = .error .truncated := by
        rw [List.foldlM_cons] at areRead
        obtain ⟨_, isNext, -⟩ := bind_eq_ok_iff.1 areRead
        exact (cuts _ _ _ _ knownNext isNext).1.empty
      rw [List.append_assoc, List.append_assoc, List.append_assoc, List.cons_append]
      refine .skip skips leading empty ?_
      refine truncates_part cut (reads part List.mem_cons_self) isCloser isRead isPart empty
        (begins part text isPart) delimited ?_
      refine truncates_skip rfl trailing ?_
      refine .cons rfl (fun rest cut => (outcome_comma next stack rest).trans cut) ?_
      refine ih (fun part isPart => reads part (List.mem_cons_of_mem _ isPart))
        ((keeps frame part next isRead).trans isCloser) knownNext areRead goesOn
        (fun _ rest spaces => outcomeNext_skip spaces rest) fun part text isPart => ?_
      obtain ⟨c, later, isText, -⟩ := begins part text isPart
      exact ⟨c, later, isText, fun _ => rfl⟩

end Listed

/-- How a tree is cut off wherever it stands. Only a number at the outermost level may end where it
    is cut off. -/
def TruncatesAs (tree : Tree) : Prop :=
  ∀ shape stack text value, tree.IsText text → tree.read (some shape) = .ok value →
    ¬ tree.HasUnknown shape → (stack ≠ [] ∨ shape ≠ .number) →
    Truncates (State.reading (.value (some shape)) stack).outcome text

theorem truncatesPart_item {item : Tree} {items : List Tree} {next : Frame}
    (cuts : TruncatesAs item) (known : Tree.KnowsItems frame (item :: items))
    (isRead : item.readItem frame = .ok next) (stack : List Frame) :
    TruncatesPart Tree.IsText frame stack item := by
  obtain ⟨shape, value, isElement, isValue, noUnknown, -⟩ := Tree.exists_of_readItem known isRead
  have isBracket : frame.closer = ']' := by
    cases frame with
    | list | tuple => rfl
    | object | skipped => exact known.elim
  have goesOn : outcomeNext frame stack =
      (State.reading (.value (some shape)) (frame :: stack)).outcome := by
    funext text
    rw [outcomeNext, next_of_bracket isBracket, isElement]
    rfl
  refine ⟨?_, fun text written => ?_⟩
  · rw [goesOn]
    rfl
  · rw [goesOn]
    exact cuts shape _ text value written isValue noUnknown (.inl (by simp))

theorem truncatesPart_member {entry : List CodeUnit × Tree} {entries : List (List CodeUnit × Tree)}
    {next : Frame} (cuts : TruncatesAs entry.2)
    (known : Tree.KnowsMembers frame (entry :: entries))
    (isRead : Tree.readMember frame entry = .ok next) (stack : List Frame) :
    TruncatesPart (IsMember Tree.IsText) frame stack entry := by
  obtain ⟨name, shape, entered, value, encoded, isEntered, isValue, noUnknown, -⟩ :=
    Tree.exists_of_readMember known isRead
  obtain ⟨members, read, current, rfl, -⟩ := known
  refine ⟨rfl, ?_⟩
  rintro text ⟨named, leading, trailing, written⟩
  have inValue := cuts shape (entered :: stack) _ value written isValue noUnknown (.inl (by simp))
  have behindName : Truncates (State.reading (.colon (some shape)) (entered :: stack)).outcome _ :=
    truncates_skip rfl leading
      (.cons rfl (fun rest cut => (outcome_colon _ _ rest).trans cut)
        (truncates_skip rfl trailing inValue))
  refine .append (truncates_isName named encoded rfl) (fun rest _ cut => ?_) behindName
  show (State.reading .nextName (.object members read current :: stack)).outcome _ = _
  rw [outcome_isQuoted named, isEntered]
  exact cut

/-- The items of an array are cut off anywhere before its bracket. -/
theorem truncates_items {items : List Tree} (cuts : ∀ item ∈ items, TruncatesAs item)
    (known : Tree.KnowsItems frame items) (isBracket : frame.closer = ']')
    (isRead : items.foldlM Tree.readItem frame = .ok last)
    (written : Listed Tree.IsText items inside) (stack : List Frame) :
    Truncates (State.reading .first (frame :: stack)).outcome (inside ++ [']']) := by
  refine truncates_listed stack
    (fun frame items => Tree.KnowsItems frame items ∧ ∀ item ∈ items, TruncatesAs item)
    ?_ ?_ Tree.closer_readItem written isBracket ⟨known, cuts⟩ isRead rfl
    (fun _ rest spaces => outcome_skip rfl spaces rest) ?_
  · rintro frame item others next ⟨known, cuts⟩ isRead
    obtain ⟨cut, later⟩ := List.forall_mem_cons.1 cuts
    obtain ⟨-, -, -, -, -, knownNext⟩ := Tree.exists_of_readItem known isRead
    exact ⟨truncatesPart_item cut known isRead stack, knownNext, later⟩
  · intro item isItem frame text rest isBracket written delimited
    exact outcomeNext_item (readsAs item) isBracket written delimited stack
  · intro item text written
    obtain ⟨c, later, rfl, notSpace, notCloser⟩ := exists_first_of_isText written
    exact ⟨c, later, rfl, outcome_first isBracket notSpace notCloser stack⟩

/-- The members of an object are cut off anywhere before its brace. -/
theorem truncates_members {entries : List (List CodeUnit × Tree)}
    (cuts : ∀ entry ∈ entries, TruncatesAs entry.2) (known : Tree.KnowsMembers frame entries)
    (isBrace : frame.closer = '}') (isRead : entries.foldlM Tree.readMember frame = .ok last)
    (written : Listed (IsMember Tree.IsText) entries inside) (stack : List Frame) :
    Truncates (State.reading .firstName (frame :: stack)).outcome (inside ++ ['}']) := by
  refine truncates_listed stack
    (fun frame entries => Tree.KnowsMembers frame entries ∧
      ∀ entry ∈ entries, TruncatesAs entry.2)
    ?_ ?_ Tree.closer_readMember written isBrace ⟨known, cuts⟩ isRead rfl
    (fun _ rest spaces => outcome_skip rfl spaces rest) ?_
  · rintro frame entry others next ⟨known, cuts⟩ isRead
    obtain ⟨cut, later⟩ := List.forall_mem_cons.1 cuts
    obtain ⟨-, -, -, -, -, -, -, -, knownNext⟩ := Tree.exists_of_readMember known isRead
    exact ⟨truncatesPart_member cut known isRead stack, knownNext, later⟩
  · intro entry isEntry frame text rest isBrace written delimited
    exact outcomeNext_member (readsAs entry.2) isBrace written delimited stack
  · rintro entry text ⟨⟨spells⟩, leading, trailing, isValue⟩
    exact ⟨'"', _, rfl, outcome_firstName isBrace stack⟩

/-- A tree without unknown names that is read is cut off nowhere without notice. -/
theorem truncatesAs (tree : Tree) : TruncatesAs tree := by
  induction tree using Tree.induction with
  | word word =>
      intro shape stack text value written isRead
      rw [Tree.read] at isRead
      cases isRead
  | number numeral =>
      rintro shape stack text value ⟨⟩ isRead - inside
      rename_i written
      rw [Tree.read] at isRead
      obtain ⟨rfl, n, natural, small, -⟩ := exists_of_readNumber isRead
      cases stack with
      | nil => exact absurd rfl (inside.resolve_left (by simp))
      | cons frame stack => exact truncates_isNumeral written natural small frame stack
  | string units =>
      rintro shape stack text value ⟨⟩ isRead - -
      rename_i written
      rw [Tree.read] at isRead
      obtain ⟨-, found, encoded, -⟩ := exists_of_readString isRead
      exact truncates_isString written encoded shape stack
  | array items ih =>
      rintro shape stack text value ⟨⟩ isRead noUnknown -
      rename_i inside written
      rw [Tree.read] at isRead
      obtain ⟨frame, entered, isRead⟩ := bind_eq_ok_iff.1 isRead
      obtain ⟨last, areRead, -⟩ := bind_eq_ok_iff.1 isRead
      rw [Tree.readItems_eq_foldlM] at areRead
      have inItems := truncates_items ih (Tree.knowsItems_of_arrayFrame entered noUnknown)
        (closer_of_arrayFrame entered) areRead written stack
      refine .cons rfl (fun rest cut => ?_) inItems
      rw [outcome_value (by decide)]
      show (enterArray (some shape) stack).bind _ = _
      rw [enterArray_eq, entered]
      exact cut
  | object entries ih =>
      rintro shape stack text value ⟨⟩ isRead noUnknown -
      rename_i inside written
      rw [Tree.read] at isRead
      obtain ⟨frame, entered, isRead⟩ := bind_eq_ok_iff.1 isRead
      obtain ⟨last, areRead, -⟩ := bind_eq_ok_iff.1 isRead
      rw [Tree.readMembers_eq_foldlM] at areRead
      have inMembers := truncates_members ih (Tree.knowsMembers_of_objectFrame entered noUnknown)
        (closer_of_objectFrame entered) areRead written stack
      refine .cons rfl (fun rest cut => ?_) inMembers
      rw [outcome_value (by decide)]
      show (enterObject (some shape) stack).bind _ = _
      rw [enterObject_eq, entered]
      exact cut

end State

end Json

end SymbolRules
