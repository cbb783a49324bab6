import SymbolRules.Proofs.Json.Scalars

/-!
# Reading whole texts

The automaton reads every text of a tree as the tree is read, wherever the tree stands
(`State.readsAs`), so that a whole text is read as its tree is (`read_isDocument`).
-/

namespace SymbolRules

namespace Json

namespace State

variable {shape : Option Shape} {stack : List Frame} {frame : Frame} {c closer : Char}
  {text inside rest : List Char}

/-! ### Arrays and objects -/

theorem isBetween_of_next {phase : Phase} (goesOn : frame.next = .ok phase) : phase.isBetween := by
  cases frame with
  | list | object | skipped =>
      obtain rfl := Except.ok.inj goesOn
      rfl
  | tuple pending read =>
      cases pending with
      | nil => cases goesOn
      | cons member pending =>
          obtain rfl := Except.ok.inj goesOn
          rfl

/-- What a frame makes of the rest of a text that goes on with its next part. -/
def outcomeNext (frame : Frame) (stack : List Frame) (text : List Char) : Except Fault Value :=
  frame.next.bind fun phase => (State.reading phase (frame :: stack)).outcome text

theorem outcomeNext_skip {before : List Char} (spaces : AreSpaces before) (rest : List Char) :
    outcomeNext frame stack (before ++ rest) = outcomeNext frame stack rest := by
  unfold outcomeNext
  cases goesOn : frame.next with
  | error fault => rfl
  | ok phase => exact outcome_skip (isBetween_of_next goesOn) spaces rest

/-- What a frame makes of the rest of a text behind its closing bracket. -/
def outcomeClosed (frame : Frame) (stack : List Frame) (rest : List Char) : Except Fault Value :=
  frame.close.bind fun value => (deliver stack value).outcome rest

theorem bind_outcomeClosed (read : Except Fault Frame) (stack : List Frame) (rest : List Char) :
    (read.bind Frame.close).bind (fun value => (deliver stack value).outcome rest) =
      read.bind fun last => outcomeClosed last stack rest := by
  cases read <;> rfl

theorem bind_closeFrame (frame : Frame) (stack : List Frame) (rest : List Char) :
    (closeFrame frame stack).bind (·.outcome rest) = outcomeClosed frame stack rest :=
  bind_deliver frame.close stack rest

theorem outcome_comma (frame : Frame) (stack : List Frame) (rest : List Char) :
    (State.reading .after (frame :: stack)).outcome (',' :: rest) =
      outcomeNext frame stack rest := by
  rw [outcome_token rfl (by decide)]
  show (frame.next.map (State.reading · (frame :: stack))).bind _ = _
  rw [outcomeNext]
  cases frame.next <;> rfl

theorem outcome_closer (frame : Frame) (stack : List Frame) (rest : List Char) :
    (State.reading .after (frame :: stack)).outcome (frame.closer :: rest) =
      outcomeClosed frame stack rest := by
  obtain ⟨-, notSpace, notComma⟩ := Frame.closer_cases frame
  rw [outcome_token rfl notSpace, stepToken, goOn, if_neg notComma, if_pos rfl, bind_closeFrame]

theorem isDelimited_closer (frame : Frame) (rest : List Char) :
    IsDelimited (frame.closer :: rest) := by
  intro first isFirst
  obtain rfl := Option.some.inj isFirst
  obtain ⟨isBracket | isBrace, -⟩ := Frame.closer_cases frame
  · simp [isBracket]
  · simp [isBrace]

section Listed

variable {α : Type} {IsPart : α → List Char → Prop} {readPart : Frame → α → Except Fault Frame}
  {parts : List α}

/-- How a part is read into a frame that ends with the given bracket, whatever follows the part. -/
def ReadsPart (closer : Char) (stack : List Frame) (IsPart : α → List Char → Prop)
    (readPart : Frame → α → Except Fault Frame) (part : α) : Prop :=
  ∀ frame text rest, frame.closer = closer → IsPart part text → IsDelimited rest →
    outcomeNext frame stack (text ++ rest) =
      (readPart frame part).bind fun next => (State.reading .after (next :: stack)).outcome rest

/-- The parts of an array or object, read one after the other. -/
theorem outcome_listed (stack : List Frame)
    (reads : ∀ part ∈ parts, ReadsPart closer stack IsPart readPart part)
    (keeps : ∀ frame part next, readPart frame part = .ok next → next.closer = frame.closer)
    (written : Listed IsPart parts inside) (nonempty : parts ≠ [])
    (isCloser : frame.closer = closer) (rest : List Char) :
    outcomeNext frame stack (inside ++ closer :: rest) =
      (parts.foldlM readPart frame).bind fun last => outcomeClosed last stack rest := by
  induction written generalizing frame with
  | none spaces => exact absurd rfl nonempty
  | @one part before text after leading isPart trailing =>
      have delimited : IsDelimited (after ++ closer :: rest) :=
        isDelimited_append trailing (isCloser ▸ isDelimited_closer frame rest)
      rw [List.append_assoc, outcomeNext_skip leading, List.append_assoc,
        reads part List.mem_cons_self frame text _ isCloser isPart delimited, List.foldlM_cons]
      cases isRead : readPart frame part with
      | error fault => rfl
      | ok next =>
          have same : next.closer = closer := (keeps frame part next isRead).trans isCloser
          show (State.reading .after (next :: stack)).outcome (after ++ closer :: rest) =
            outcomeClosed next stack rest
          rw [outcome_skip rfl trailing, ← same, outcome_closer]
  | @more part following others before text after later leading isPart trailing written ih =>
      have delimited : IsDelimited (after ++ ',' :: (later ++ closer :: rest)) :=
        isDelimited_append trailing (isDelimited_comma _)
      rw [List.append_assoc, outcomeNext_skip leading, List.append_assoc, List.append_assoc,
        List.cons_append, reads part List.mem_cons_self frame text _ isCloser isPart delimited,
        List.foldlM_cons]
      cases isRead : readPart frame part with
      | error fault => rfl
      | ok next =>
          have same : next.closer = closer := (keeps frame part next isRead).trans isCloser
          show (State.reading .after (next :: stack)).outcome _ = _
          rw [outcome_skip rfl trailing, outcome_comma]
          exact ih (fun part isPart => reads part (List.mem_cons_of_mem _ isPart)) (by simp) same

/-- The inside of an array or object, which may be empty. Behind the opening bracket the closing
    one may follow at once. -/
theorem outcome_inside {phase : Phase} (between : phase.isBetween) (stack : List Frame)
    (closes : ∀ rest, (State.reading phase (frame :: stack)).outcome (frame.closer :: rest) =
      outcomeClosed frame stack rest)
    (begins : ∀ part text rest, IsPart part text →
      (State.reading phase (frame :: stack)).outcome (text ++ rest) =
        outcomeNext frame stack (text ++ rest))
    (reads : ∀ part ∈ parts, ReadsPart frame.closer stack IsPart readPart part)
    (keeps : ∀ frame part next, readPart frame part = .ok next → next.closer = frame.closer)
    (written : Listed IsPart parts inside) (rest : List Char) :
    (State.reading phase (frame :: stack)).outcome (inside ++ frame.closer :: rest) =
      (parts.foldlM readPart frame).bind fun last => outcomeClosed last stack rest := by
  have enters : parts ≠ [] →
      (State.reading phase (frame :: stack)).outcome (inside ++ frame.closer :: rest) =
        outcomeNext frame stack (inside ++ frame.closer :: rest) := by
    intro nonempty
    cases written with
    | none spaces => exact absurd rfl nonempty
    | one leading isPart trailing | more leading isPart trailing written =>
        rw [List.append_assoc, outcome_skip between leading, outcomeNext_skip leading,
          List.append_assoc, begins _ _ _ isPart]
  cases parts with
  | nil =>
      cases written with
      | none spaces =>
          rw [outcome_skip between spaces, closes]
          rfl
  | cons part parts =>
      rw [enters (by simp)]
      exact outcome_listed stack reads keeps written (by simp) rfl rest

end Listed

theorem enterArray_eq (shape : Option Shape) (stack : List Frame) :
    enterArray shape stack =
      (arrayFrame shape).map fun frame => .reading .first (frame :: stack) := by
  rcases shape with _ | _ | _ <;> rfl

theorem enterObject_eq (shape : Option Shape) (stack : List Frame) :
    enterObject shape stack =
      (objectFrame shape).map fun frame => .reading .firstName (frame :: stack) := by
  rcases shape with _ | _ | _ <;> rfl

theorem deliver_cons (frame : Frame) (stack : List Frame) (value : Option Value) :
    deliver (frame :: stack) value = .reading .after (frame.take value :: stack) := by
  cases value <;> rfl

theorem bind_deliver_cons (read : Except Fault (Option Value)) (frame : Frame)
    (stack : List Frame) (rest : List Char) :
    (read.bind fun value => (deliver (frame :: stack) value).outcome rest) =
      (read.map frame.take).bind fun next =>
        (State.reading .after (next :: stack)).outcome rest := by
  cases read with
  | error fault => rfl
  | ok value =>
      show (deliver (frame :: stack) value).outcome rest = _
      rw [deliver_cons]
      rfl

theorem next_of_bracket (isBracket : frame.closer = ']') :
    frame.next = frame.element.map .value := by
  cases frame with
  | list => rfl
  | tuple pending read => cases pending <;> rfl
  | object | skipped => cases isBracket

theorem next_of_brace (isBrace : frame.closer = '}') : frame.next = .ok .nextName := by
  cases frame with
  | list | tuple => cases isBrace
  | object | skipped => rfl

/-- The first element of an array is read as any other. -/
theorem outcome_first (isBracket : frame.closer = ']') (notSpace : isSpace c = false)
    (notCloser : c ≠ ']') (stack : List Frame) (rest : List Char) :
    (State.reading .first (frame :: stack)).outcome (c :: rest) =
      outcomeNext frame stack (c :: rest) := by
  rw [outcome_token rfl notSpace, stepToken, beginFirst, if_neg (isBracket ▸ notCloser)]
  cases frame with
  | list element items => exact (outcome_value notSpace _ rest).symm
  | tuple pending read =>
      cases pending with
      | nil => rfl
      | cons member pending => exact (outcome_value notSpace _ rest).symm
  | object | skipped => cases isBracket

/-- The first name of an object is read as any other. -/
theorem outcome_firstName (isBrace : frame.closer = '}') (stack : List Frame)
    (rest : List Char) :
    (State.reading .firstName (frame :: stack)).outcome ('"' :: rest) =
      outcomeNext frame stack ('"' :: rest) := by
  have notSpace : isSpace '"' = false := by decide
  rw [outcomeNext, next_of_brace isBrace, outcome_token rfl notSpace]
  exact (outcome_token rfl notSpace (frame :: stack) rest).symm

theorem outcome_first_closer (frame : Frame) (stack : List Frame) (rest : List Char) :
    (State.reading .first (frame :: stack)).outcome (frame.closer :: rest) =
      outcomeClosed frame stack rest := by
  obtain ⟨-, notSpace, -⟩ := Frame.closer_cases frame
  rw [outcome_token rfl notSpace, stepToken, beginFirst, if_pos rfl, bind_closeFrame]

theorem outcome_firstName_closer (isBrace : frame.closer = '}') (stack : List Frame)
    (rest : List Char) :
    (State.reading .firstName (frame :: stack)).outcome (frame.closer :: rest) =
      outcomeClosed frame stack rest := by
  obtain ⟨-, notSpace, -⟩ := Frame.closer_cases frame
  have notQuote : frame.closer ≠ '"' := by
    rw [isBrace]
    decide
  rw [outcome_token rfl notSpace, stepToken, beginFirstName, if_neg notQuote, if_pos rfl,
    bind_closeFrame]

/-- No tree begins with white space or with the bracket that ends an array. -/
theorem exists_first_of_isText {tree : Tree} (written : tree.IsText text) :
    ∃ first later, text = first :: later ∧ isSpace first = false ∧ first ≠ ']' := by
  cases written with
  | word word =>
      cases word with
      | null | true | false => exact ⟨_, _, rfl, by decide, by decide⟩
  | number written =>
      obtain ⟨first, later, scan, last, isText, starts, -⟩ :=
        NumeralScan.exists_start?_of_isText written isDelimited_nil
      refine ⟨first, later, isText, (beginValue_of_start? starts none []).1, ?_⟩
      rintro rfl
      cases starts
  | string written =>
      obtain ⟨spells⟩ := written
      exact ⟨_, _, rfl, by decide, by decide⟩
  | array written | object written => exact ⟨_, _, rfl, by decide, by decide⟩

/-! ### The theorem -/

/-- How a tree is read wherever it stands. -/
def ReadsAs (tree : Tree) : Prop :=
  ∀ shape stack text rest, tree.IsText text → IsDelimited rest →
    (State.reading (.value shape) stack).outcome (text ++ rest) =
      (tree.read shape).bind fun value => (deliver stack value).outcome rest

theorem outcomeNext_item {item : Tree} (reads : ReadsAs item) (isBracket : frame.closer = ']')
    (written : item.IsText text) (delimited : IsDelimited rest) (stack : List Frame) :
    outcomeNext frame stack (text ++ rest) =
      (item.readItem frame).bind fun next =>
        (State.reading .after (next :: stack)).outcome rest := by
  rw [outcomeNext, next_of_bracket isBracket, Tree.readItem]
  cases frame.element with
  | error fault => rfl
  | ok shape =>
      show (State.reading (.value shape) (frame :: stack)).outcome (text ++ rest) = _
      rw [reads shape (frame :: stack) text rest written delimited, bind_deliver_cons]
      rfl

theorem outcomeNext_member {member : List CodeUnit × Tree} (reads : ReadsAs member.2)
    (isBrace : frame.closer = '}') (written : IsMember Tree.IsText member text)
    (delimited : IsDelimited rest) (stack : List Frame) :
    outcomeNext frame stack (text ++ rest) =
      (Tree.readMember frame member).bind fun next =>
        (State.reading .after (next :: stack)).outcome rest := by
  obtain ⟨named, leading, trailing, isValue⟩ := written
  rename_i name value nameText before after valueText
  rw [outcomeNext, next_of_brace isBrace, Tree.readMember, List.append_assoc, List.append_assoc,
    List.cons_append, List.append_assoc]
  show (State.reading .nextName (frame :: stack)).outcome _ = _
  rw [outcome_isName named leading]
  cases frame.enterUnits name with
  | error fault => rfl
  | ok entered =>
      show (State.reading (.value entered.1) (entered.2 :: stack)).outcome
        (after ++ (valueText ++ rest)) = _
      rw [outcome_skip rfl trailing, reads _ _ _ _ isValue delimited, bind_deliver_cons]
      rfl

/-- The automaton reads every text of a tree as the tree is read. -/
theorem readsAs (tree : Tree) : ReadsAs tree := by
  induction tree using Tree.induction with
  | word word =>
      rintro shape stack text rest ⟨⟩ -
      exact outcome_isWord word shape stack rest
  | number numeral =>
      rintro shape stack text rest ⟨⟩ delimited
      rename_i written
      exact outcome_isNumeral written delimited shape stack
  | string units =>
      rintro shape stack text rest ⟨⟩ -
      rename_i written
      exact outcome_isString written shape stack rest
  | array items ih =>
      rintro shape stack text rest ⟨⟩ -
      rename_i inside written
      rw [List.cons_append, outcome_value (by decide), Tree.read]
      show (enterArray shape stack).bind _ = _
      rw [enterArray_eq]
      cases entered : arrayFrame shape with
      | error fault => rfl
      | ok frame =>
          have isBracket := closer_of_arrayFrame entered
          have begins : ∀ (item : Tree) text rest, item.IsText text →
              (State.reading .first (frame :: stack)).outcome (text ++ rest) =
                outcomeNext frame stack (text ++ rest) := by
            intro item text rest written
            obtain ⟨first, later, rfl, notSpace, notCloser⟩ := exists_first_of_isText written
            exact outcome_first isBracket notSpace notCloser stack (later ++ rest)
          show (State.reading .first (frame :: stack)).outcome (inside ++ [']'] ++ rest) =
            ((Tree.readItems frame items).bind Frame.close).bind _
          rw [List.append_assoc, ← isBracket, List.singleton_append, Tree.readItems_eq_foldlM,
            bind_outcomeClosed]
          refine outcome_inside rfl stack (outcome_first_closer frame stack) begins ?_
            Tree.closer_readItem written rest
          intro item isItem next text rest same isText delimited
          exact outcomeNext_item (ih item isItem) (same.trans isBracket) isText delimited stack
  | object members ih =>
      rintro shape stack text rest ⟨⟩ -
      rename_i inside written
      rw [List.cons_append, outcome_value (by decide), Tree.read]
      show (enterObject shape stack).bind _ = _
      rw [enterObject_eq]
      cases entered : objectFrame shape with
      | error fault => rfl
      | ok frame =>
          have isBrace := closer_of_objectFrame entered
          have begins : ∀ member text rest, IsMember Tree.IsText member text →
              (State.reading .firstName (frame :: stack)).outcome (text ++ rest) =
                outcomeNext frame stack (text ++ rest) := by
            rintro member text rest ⟨⟨spells⟩, leading, trailing, isValue⟩
            exact outcome_firstName isBrace stack _
          show (State.reading .firstName (frame :: stack)).outcome (inside ++ ['}'] ++ rest) =
            ((Tree.readMembers frame members).bind Frame.close).bind _
          rw [List.append_assoc, ← isBrace, List.singleton_append, Tree.readMembers_eq_foldlM,
            bind_outcomeClosed]
          refine outcome_inside rfl stack (outcome_firstName_closer isBrace stack) begins ?_
            Tree.closer_readMember written rest
          intro member isMember next text rest same isText delimited
          exact outcomeNext_member (ih member isMember) (same.trans isBrace) isText delimited stack

end State

/-- A whole text is read as its tree is. -/
theorem read_isDocument {tree : Tree} {text : String} (document : tree.IsDocument text)
    (shape : Shape) :
    read shape text = (tree.read (some shape)).bind fun value =>
      value.elim (.error .truncated) .ok := by
  obtain ⟨before, inside, after, leading, written, trailing, isText⟩ := document
  have delimited : IsDelimited after := by
    have alone := isDelimited_append trailing isDelimited_nil
    rwa [List.append_nil] at alone
  show (State.reading (.value (some shape)) []).outcome text.toList = _
  rw [isText, State.outcome_skip rfl leading, State.readsAs tree _ _ _ _ written delimited]
  cases tree.read (some shape) with
  | error fault => rfl
  | ok value =>
      cases value with
      | none =>
          show (State.reading .after []).outcome after = _
          rw [← List.append_nil after, State.outcome_skip rfl trailing]
          rfl
      | some value => exact State.outcome_done trailing

end Json

end SymbolRules
