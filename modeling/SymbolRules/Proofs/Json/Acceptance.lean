import SymbolRules.Proofs.Json.Reading
import SymbolRules.Proofs.Json.Tokens

/-!
# Texts that are read

Whatever text the automaton reads as a value, it is the text of a tree
(`exists_isDocument_of_read`).
-/

namespace SymbolRules

namespace Json

namespace State

variable {phase : Phase} {shape : Option Shape} {stack : List Frame} {frame : Frame}
  {result : Value} {closer c : Char} {text front rest : List Char}

/-! ### Tokens -/

/-- Between two tokens there is white space, and then the next one begins. -/
theorem exists_token (between : phase.isBetween)
    (isRead : (State.reading phase stack).outcome text = .ok result) :
    ∃ before c rest, text = before ++ c :: rest ∧ AreSpaces before ∧ isSpace c = false ∧
      (State.reading phase stack).outcome (c :: rest) = .ok result := by
  induction text with
  | nil =>
      rw [outcome_nil_of_isBetween between] at isRead
      cases isRead
  | cons c text ih =>
      cases space : isSpace c with
      | false => exact ⟨[], c, text, rfl, by simp [AreSpaces], space, isRead⟩
      | true =>
          have one : AreSpaces [c] := by simpa [AreSpaces] using space
          rw [← List.singleton_append, outcome_skip between one] at isRead
          obtain ⟨before, first, rest, rfl, spaces, notSpace, goesOn⟩ := ih isRead
          exact ⟨c :: before, first, rest, rfl, List.forall_mem_cons.2 ⟨space, spaces⟩, notSpace,
            goesOn⟩

theorem areSpaces_of_done {value : Value} (isRead : (State.done value).outcome text = .ok result) :
    AreSpaces text := by
  induction text with
  | nil => simp [AreSpaces]
  | cons c text ih =>
      rw [outcome_cons, step, stepBehind] at isRead
      split at isRead
      · rename_i space
        exact List.forall_mem_cons.2 ⟨space, ih isRead⟩
      · cases isRead

theorem exists_deliver_of_endString {found : String}
    (isRead : (endString shape found stack).bind (·.outcome rest) = .ok result) :
    ∃ read, (deliver stack read).outcome rest = .ok result := by
  unfold endString at isRead
  split at isRead
  · exact ⟨_, isRead⟩
  · exact ⟨_, isRead⟩
  · cases isRead

theorem exists_word {chars : List Char}
    (isRead : (State.reading (.word shape chars) stack).outcome text = .ok result) :
    ∃ read rest, text = chars ++ rest ∧ (deliver stack read).outcome rest = .ok result := by
  induction text generalizing chars with
  | nil => cases isRead
  | cons c text ih =>
      rw [outcome_cons] at isRead
      cases chars with
      | nil => cases isRead
      | cons expected chars =>
          rw [step] at isRead
          split at isRead
          · cases isRead
          · rename_i same
            obtain rfl := not_not.1 same
            split at isRead
            · rename_i last
              obtain rfl := List.isEmpty_iff.1 last
              rw [endWord_eq, bind_deliver] at isRead
              obtain ⟨read, -, goesOn⟩ := bind_eq_ok_iff.1 isRead
              exact ⟨read, text, rfl, goesOn⟩
            · obtain ⟨read, rest, rfl, goesOn⟩ := ih isRead
              exact ⟨read, rest, rfl, goesOn⟩

theorem exists_number {scan : NumeralScan}
    (isRead : (State.reading (.number shape scan) stack).outcome text = .ok result)
    (hasRead : NumeralScan.HasRead scan.stage front) :
    ∃ numeral more read rest, text = more ++ rest ∧ Numeral.IsText numeral (front ++ more) ∧
      (deliver stack read).outcome rest = .ok result := by
  induction text generalizing scan front with
  | nil =>
      rw [outcome_nil, finish] at isRead
      split at isRead
      · rename_i complete
        obtain ⟨numeral, written⟩ := hasRead.exists_isText complete
        obtain ⟨fault, failed⟩ | ⟨read, ended⟩ := endNumber_eq_error_or shape scan.numeral stack
        · rw [failed] at isRead
          cases isRead
        · rw [ended] at isRead
          refine ⟨numeral, [], read, [], rfl, by rwa [List.append_nil], ?_⟩
          exact (finish_deliver stack read).trans isRead
      · split at isRead <;> cases isRead
  | cons c text ih =>
      rw [outcome_cons, step] at isRead
      cases taken : scan.step c with
      | more next =>
          rw [taken] at isRead
          obtain ⟨numeral, more, read, rest, rfl, written, goesOn⟩ :=
            ih isRead (NumeralScan.hasRead_of_step hasRead taken)
          refine ⟨numeral, c :: more, read, rest, rfl, ?_, goesOn⟩
          rwa [List.append_assoc] at written
      | malformed =>
          rw [taken] at isRead
          cases isRead
      | ended =>
          rw [taken] at isRead
          obtain ⟨numeral, written⟩ :=
            hasRead.exists_isText (NumeralScan.isComplete_of_step_ended taken)
          obtain ⟨fault, failed⟩ | ⟨read, ended⟩ := endNumber_eq_error_or shape scan.numeral stack
          · rw [failed] at isRead
            cases isRead
          · rw [ended] at isRead
            refine ⟨numeral, [], read, c :: text, rfl, by rwa [List.append_nil], ?_⟩
            rw [outcome_cons, step_deliver]
            exact isRead

/-! ### Arrays and objects -/

/-- A text that begins with a part, behind which the frame goes on with one that ends alike. -/
def BeginsWithPart {α : Type} (IsPart : α → List Char → Prop) (closer : Char) (stack : List Frame)
    (result : Value) (text : List Char) : Prop :=
  ∃ before part written next rest, text = before ++ (written ++ rest) ∧ AreSpaces before ∧
    IsPart part written ∧ next.closer = closer ∧
      (State.reading .after (next :: stack)).outcome rest = .ok result

theorem exists_deliver_of_closed (isRead : outcomeClosed frame stack rest = .ok result) :
    ∃ read, (deliver stack read).outcome rest = .ok result := by
  obtain ⟨read, -, goesOn⟩ := bind_eq_ok_iff.1 isRead
  exact ⟨read, goesOn⟩

/-- Behind a part there is a comma or the closing bracket. -/
theorem exists_comma_or_closer
    (isRead : (State.reading .after (frame :: stack)).outcome text = .ok result) :
    ∃ after rest, AreSpaces after ∧
      (text = after ++ ',' :: rest ∧ outcomeNext frame stack rest = .ok result ∨
        text = after ++ frame.closer :: rest ∧ outcomeClosed frame stack rest = .ok result) := by
  obtain ⟨after, c, rest, rfl, spaces, notSpace, isRead⟩ := exists_token rfl isRead
  refine ⟨after, rest, spaces, ?_⟩
  by_cases isComma : c = ','
  · subst isComma
    rw [outcome_comma] at isRead
    exact .inl ⟨rfl, isRead⟩
  · by_cases isCloser : c = frame.closer
    · subst isCloser
      rw [outcome_closer] at isRead
      exact .inr ⟨rfl, isRead⟩
    · rw [outcome_token rfl notSpace, stepToken, goOn, if_neg isComma, if_neg isCloser] at isRead
      cases isRead

/-- Parts are read up to the closing bracket, if each text up to some length begins with one. -/
theorem exists_listed {α : Type} {IsPart : α → List Char → Prop} {bound : Nat}
    (begins : ∀ frame text, text.length < bound → frame.closer = closer →
      outcomeNext frame stack text = .ok result → BeginsWithPart IsPart closer stack result text)
    (short : text.length < bound) (isCloser : frame.closer = closer)
    (isRead : outcomeNext frame stack text = .ok result) :
    ∃ part parts inside read rest, text = inside ++ closer :: rest ∧
      Listed IsPart (part :: parts) inside ∧ (deliver stack read).outcome rest = .ok result := by
  induction isLength : text.length using Nat.strongRecOn generalizing text frame with
  | ind size ih =>
      obtain ⟨before, part, written, next, behind, rfl, leading, isPart, same, behindPart⟩ :=
        begins frame text short isCloser isRead
      obtain ⟨after, rest, trailing, ⟨rfl, behindComma⟩ | ⟨rfl, closed⟩⟩ :=
        exists_comma_or_closer behindPart
      · have shorter : rest.length < size := by
          rw [← isLength]
          simp
          omega
        obtain ⟨following, others, inside, read, rest, rfl, listed, goesOn⟩ :=
          ih rest.length shorter (by omega) same behindComma rfl
        refine ⟨part, following :: others, _, read, rest, ?_, .more leading isPart trailing listed,
          goesOn⟩
        simp
      · obtain ⟨read, goesOn⟩ := exists_deliver_of_closed closed
        refine ⟨part, [], _, read, rest, ?_, .one leading isPart trailing, goesOn⟩
        simp [same]

/-! ### Trees -/

/-- A text that begins with a tree, behind which the automaton goes on. -/
def BeginsWithTree (stack : List Frame) (result : Value) (text : List Char) : Prop :=
  ∃ tree written read rest, text = written ++ rest ∧ Tree.IsText tree written ∧
    (deliver stack read).outcome rest = .ok result

/-- Whatever the automaton reads where a value stands, it begins with a tree. -/
def ReadsTrees (result : Value) (text : List Char) : Prop :=
  ∀ shape stack, (State.reading (.value shape) stack).outcome text = .ok result →
    ∃ before later, text = before ++ later ∧ AreSpaces before ∧ BeginsWithTree stack result later

theorem beginsWithPart_item (reads : ReadsTrees result text) (isBracket : frame.closer = ']')
    (isRead : outcomeNext frame stack text = .ok result) :
    BeginsWithPart Tree.IsText ']' stack result text := by
  rw [outcomeNext, next_of_bracket isBracket] at isRead
  obtain ⟨phase, isPhase, isRead⟩ := bind_eq_ok_iff.1 isRead
  obtain ⟨shape, -, rfl⟩ := map_eq_ok_iff.1 isPhase
  obtain ⟨before, _, rfl, spaces, tree, written, read, rest, rfl, isTree, goesOn⟩ :=
    reads shape (frame :: stack) isRead
  rw [deliver_cons] at goesOn
  exact ⟨before, tree, written, _, rest, rfl, spaces, isTree,
    (frame.closer_take read).trans isBracket, goesOn⟩

theorem exists_isQuoted
    (isRead : (State.reading .nextName (frame :: stack)).outcome text = .ok result) :
    ∃ before units written shape entered rest, text = before ++ (written ++ rest) ∧
      AreSpaces before ∧ IsQuoted units written ∧ entered.closer = frame.closer ∧
      (State.reading (.colon shape) (entered :: stack)).outcome rest = .ok result := by
  obtain ⟨before, c, behind, rfl, leading, notSpace, begun⟩ := exists_token rfl isRead
  have isQuote : c = '"' := by
    by_contra notQuote
    rw [outcome_token rfl notSpace, stepToken, if_neg notQuote] at begun
    cases begun
  subst isQuote
  rw [outcome_token rfl notSpace, stepToken, if_pos rfl] at begun
  have inName : (State.reading (.name (.plain [])) (frame :: stack)).outcome behind =
    .ok result := begun
  rw [outcome_name] at inName
  obtain ⟨⟨name, rest⟩, isFound, ended⟩ := bind_eq_ok_iff.1 inName
  obtain ⟨units, inside, rfl, spells⟩ := TextScan.exists_spells_of_readAll isFound
  obtain ⟨next, isNext, goesOn⟩ := bind_eq_ok_iff.1 ended
  rw [endName_eq] at isNext
  obtain ⟨⟨shape, entered⟩, isEntered, rfl⟩ := map_eq_ok_iff.1 isNext
  refine ⟨before, units, _, shape, entered, rest, ?_, leading, .mk spells,
    Frame.closer_enter isEntered, goesOn⟩
  simp

theorem exists_colon (isRead : (State.reading (.colon shape) stack).outcome text = .ok result) :
    ∃ before rest, text = before ++ ':' :: rest ∧ AreSpaces before ∧
      (State.reading (.value shape) stack).outcome rest = .ok result := by
  obtain ⟨before, c, rest, rfl, leading, notSpace, begun⟩ := exists_token rfl isRead
  have isColon : c = ':' := by
    by_contra notColon
    rw [outcome_token rfl notSpace, stepToken, if_neg notColon] at begun
    cases begun
  subst isColon
  rw [outcome_colon] at begun
  exact ⟨before, rest, rfl, leading, begun⟩

theorem beginsWithPart_member
    (reads : ∀ rest, rest.length < text.length → ReadsTrees result rest)
    (isBrace : frame.closer = '}') (isRead : outcomeNext frame stack text = .ok result) :
    BeginsWithPart (IsMember Tree.IsText) '}' stack result text := by
  rw [outcomeNext, next_of_brace isBrace] at isRead
  obtain ⟨before, units, nameText, shape, entered, behindName, rfl, leading, named, same, colon⟩ :=
    exists_isQuoted isRead
  obtain ⟨between, behindColon, rfl, spaces, inValue⟩ := exists_colon colon
  have shorter : behindColon.length <
      (before ++ (nameText ++ (between ++ ':' :: behindColon))).length := by
    simp
    omega
  obtain ⟨after, _, rfl, trailing, tree, written, read, rest, rfl, isTree, goesOn⟩ :=
    reads behindColon shorter shape _ inValue
  rw [deliver_cons] at goesOn
  refine ⟨before, (units, tree), _, _, rest, ?_, leading, .mk named spaces trailing isTree,
    ((entered.closer_take read).trans same).trans isBrace, goesOn⟩
  simp

/-- The inside of an array is read up to its bracket. -/
theorem exists_items (reads : ∀ rest, rest.length ≤ text.length → ReadsTrees result rest)
    (isBracket : frame.closer = ']')
    (isRead : (State.reading .first (frame :: stack)).outcome text = .ok result) :
    ∃ items inside read rest, text = inside ++ ']' :: rest ∧ Listed Tree.IsText items inside ∧
      (deliver stack read).outcome rest = .ok result := by
  obtain ⟨before, c, behind, rfl, spaces, notSpace, begun⟩ := exists_token rfl isRead
  by_cases isCloser : c = ']'
  · subst isCloser
    rw [← isBracket, outcome_first_closer] at begun
    obtain ⟨read, goesOn⟩ := exists_deliver_of_closed begun
    exact ⟨[], before, read, behind, rfl, .none spaces, goesOn⟩
  · rw [outcome_first isBracket notSpace isCloser, ← outcomeNext_skip spaces] at begun
    have begins : ∀ frame text, text.length < (before ++ c :: behind).length + 1 →
        frame.closer = ']' → outcomeNext frame stack text = .ok result →
        BeginsWithPart Tree.IsText ']' stack result text :=
      fun frame text short isBracket => beginsWithPart_item (reads text (by omega)) isBracket
    obtain ⟨item, items, inside, read, rest, isText, listed, goesOn⟩ :=
      exists_listed begins (Nat.lt_succ_self _) isBracket begun
    exact ⟨item :: items, inside, read, rest, isText, listed, goesOn⟩

/-- The inside of an object is read up to its brace. -/
theorem exists_members (reads : ∀ rest, rest.length ≤ text.length → ReadsTrees result rest)
    (isBrace : frame.closer = '}')
    (isRead : (State.reading .firstName (frame :: stack)).outcome text = .ok result) :
    ∃ members inside read rest, text = inside ++ '}' :: rest ∧
      Listed (IsMember Tree.IsText) members inside ∧
      (deliver stack read).outcome rest = .ok result := by
  obtain ⟨before, c, behind, rfl, spaces, notSpace, begun⟩ := exists_token rfl isRead
  by_cases isCloser : c = '}'
  · subst isCloser
    rw [← isBrace, outcome_firstName_closer isBrace] at begun
    obtain ⟨read, goesOn⟩ := exists_deliver_of_closed begun
    exact ⟨[], before, read, behind, rfl, .none spaces, goesOn⟩
  · have isQuote : c = '"' := by
      by_contra notQuote
      rw [outcome_token rfl notSpace, stepToken, beginFirstName, if_neg notQuote, isBrace,
        if_neg isCloser] at begun
      cases begun
    subst isQuote
    rw [outcome_firstName isBrace, ← outcomeNext_skip spaces] at begun
    have begins : ∀ frame text, text.length < (before ++ '"' :: behind).length + 1 →
        frame.closer = '}' → outcomeNext frame stack text = .ok result →
        BeginsWithPart (IsMember Tree.IsText) '}' stack result text :=
      fun frame text short isBrace =>
        beginsWithPart_member (fun rest shorter => reads rest (by omega)) isBrace
    obtain ⟨member, members, inside, read, rest, isText, listed, goesOn⟩ :=
      exists_listed begins (Nat.lt_succ_self _) isBrace begun
    exact ⟨member :: members, inside, read, rest, isText, listed, goesOn⟩

theorem exists_chars_of_restOfWord? {chars : List Char} (isWord : restOfWord? c = some chars) :
    ∃ word : Word, word.chars = c :: chars := by
  unfold restOfWord? at isWord
  split at isWord
  · rename_i isNull
    obtain rfl := Option.some.inj isWord
    exact ⟨.null, by rw [isNull]; rfl⟩
  · split at isWord
    · rename_i isTrue
      obtain rfl := Option.some.inj isWord
      exact ⟨.true, by rw [isTrue]; rfl⟩
    · split at isWord
      · rename_i isFalse
        obtain rfl := Option.some.inj isWord
        exact ⟨.false, by rw [isFalse]; rfl⟩
      · cases isWord

theorem beginsWithTree_string
    (isRead : (State.reading (.string shape (.plain [])) stack).outcome text = .ok result) :
    BeginsWithTree stack result ('"' :: text) := by
  rw [outcome_string] at isRead
  obtain ⟨⟨found, rest⟩, isFound, ended⟩ := bind_eq_ok_iff.1 isRead
  obtain ⟨units, inside, rfl, spells⟩ := TextScan.exists_spells_of_readAll isFound
  obtain ⟨read, goesOn⟩ := exists_deliver_of_endString ended
  exact ⟨.string units, _, read, rest, by simp, .string (.mk spells), goesOn⟩

theorem beginsWithTree_array (reads : ∀ rest, rest.length ≤ text.length → ReadsTrees result rest)
    (isRead : (enterArray shape stack).bind (·.outcome text) = .ok result) :
    BeginsWithTree stack result ('[' :: text) := by
  rw [enterArray_eq] at isRead
  obtain ⟨next, isNext, inArray⟩ := bind_eq_ok_iff.1 isRead
  obtain ⟨frame, entered, rfl⟩ := map_eq_ok_iff.1 isNext
  obtain ⟨items, inside, read, rest, rfl, listed, goesOn⟩ :=
    exists_items reads (closer_of_arrayFrame entered) inArray
  exact ⟨.array items, _, read, rest, by simp, .array listed, goesOn⟩

theorem beginsWithTree_object (reads : ∀ rest, rest.length ≤ text.length → ReadsTrees result rest)
    (isRead : (enterObject shape stack).bind (·.outcome text) = .ok result) :
    BeginsWithTree stack result ('{' :: text) := by
  rw [enterObject_eq] at isRead
  obtain ⟨next, isNext, inObject⟩ := bind_eq_ok_iff.1 isRead
  obtain ⟨frame, entered, rfl⟩ := map_eq_ok_iff.1 isNext
  obtain ⟨members, inside, read, rest, rfl, listed, goesOn⟩ :=
    exists_members reads (closer_of_objectFrame entered) inObject
  exact ⟨.object members, _, read, rest, by simp, .object listed, goesOn⟩

theorem beginsWithTree_number {scan : NumeralScan} (starts : NumeralScan.start? c = some scan)
    (isRead : (State.reading (.number shape scan) stack).outcome text = .ok result) :
    BeginsWithTree stack result (c :: text) := by
  obtain ⟨numeral, more, read, rest, rfl, written, goesOn⟩ :=
    exists_number isRead (NumeralScan.hasRead_of_start? starts)
  exact ⟨.number numeral, _, read, rest, rfl, .number written, goesOn⟩

theorem beginsWithTree_word {chars : List Char} (begins : restOfWord? c = some chars)
    (isRead : (State.reading (.word shape chars) stack).outcome text = .ok result) :
    BeginsWithTree stack result (c :: text) := by
  obtain ⟨word, isChars⟩ := exists_chars_of_restOfWord? begins
  obtain ⟨read, rest, rfl, goesOn⟩ := exists_word isRead
  exact ⟨.word word, _, read, rest, by simp [isChars], .word word, goesOn⟩

/-- The automaton reads no text but that of a tree. -/
theorem readsTrees (text : List Char) : ReadsTrees result text := by
  induction isLength : text.length using Nat.strongRecOn generalizing text with
  | ind size ih =>
      intro shape stack isRead
      obtain ⟨before, c, behind, rfl, spaces, notSpace, begun⟩ := exists_token rfl isRead
      refine ⟨before, c :: behind, rfl, spaces, ?_⟩
      have shorter : ∀ rest : List Char, rest.length ≤ behind.length →
          ReadsTrees result rest := by
        intro rest short
        refine ih rest.length ?_ rest rfl
        rw [← isLength]
        simp
        omega
      rw [outcome_value notSpace, beginValue] at begun
      by_cases isQuote : c = '"'
      · subst isQuote
        rw [if_pos rfl] at begun
        exact beginsWithTree_string begun
      rw [if_neg isQuote] at begun
      by_cases isBracket : c = '['
      · subst isBracket
        rw [if_pos rfl] at begun
        exact beginsWithTree_array shorter begun
      rw [if_neg isBracket] at begun
      by_cases isBrace : c = '{'
      · subst isBrace
        rw [if_pos rfl] at begun
        exact beginsWithTree_object shorter begun
      rw [if_neg isBrace] at begun
      cases starts : NumeralScan.start? c with
      | some scan =>
          rw [starts] at begun
          exact beginsWithTree_number starts begun
      | none =>
          rw [starts] at begun
          cases begins : restOfWord? c with
          | some chars =>
              rw [begins] at begun
              exact beginsWithTree_word begins begun
          | none =>
              rw [begins] at begun
              cases begun

end State

/-- Whatever is read as a value of a shape is the text of a tree. -/
theorem exists_isDocument_of_read {shape : Shape} {text : String} {value : Value}
    (isRead : read shape text = .ok value) : ∃ tree : Tree, tree.IsDocument text := by
  have isRead : (State.reading (.value (some shape)) []).outcome text.toList = .ok value := isRead
  obtain ⟨before, later, isText, leading, tree, written, read, rest, rfl, isTree, goesOn⟩ :=
    State.readsTrees text.toList _ _ isRead
  have trailing : AreSpaces rest := by
    cases read with
    | some read => exact State.areSpaces_of_done goesOn
    | none =>
        -- Behind a value that is skipped the text goes on inside some frame.
        have behind : (State.reading .after []).outcome rest = .ok value := goesOn
        obtain ⟨_, c, later, rfl, -, notSpace, begun⟩ := State.exists_token rfl behind
        rw [State.outcome_token rfl notSpace] at begun
        cases begun
  exact ⟨tree, before, written, rest, leading, isTree, trailing, isText⟩

/-- A text is read as a value exactly if it is the text of a tree that is read as that value. -/
theorem read_eq_ok_iff {shape : Shape} {text : String} {value : Value} :
    read shape text = .ok value ↔
      ∃ tree : Tree, tree.IsDocument text ∧ tree.read (some shape) = .ok (some value) := by
  constructor
  · intro isRead
    obtain ⟨tree, document⟩ := exists_isDocument_of_read isRead
    rw [read_isDocument document] at isRead
    obtain ⟨found, isFound, isValue⟩ := bind_eq_ok_iff.1 isRead
    cases found with
    | none => cases isValue
    | some found =>
        obtain rfl := Except.ok.inj isValue
        exact ⟨tree, document, isFound⟩
  · rintro ⟨tree, document, isRead⟩
    rw [read_isDocument document, isRead]
    rfl

end Json

end SymbolRules
