import SymbolRules.Json.Frame

/-!
# Reading JSON of a known shape

A text is read from left to right against a shape, by an automaton with a stack
that takes one character at a time. So the fault that is reported is the first one
met: the text is malformed, it does not fit the shape, or it ends too early.

A record is written as an object, or as an array of its members in their order.
Optional members may be missing. Members of other names are skipped: their values
may be of any form and any depth, and nothing is kept of them.
-/

namespace SymbolRules

namespace Json

/-- White space between tokens. -/
def isSpace (c : Char) : Bool := c = ' ' || c = '\t' || c = '\n' || c = '\r'

/-- The state of the automaton. -/
inductive State where
  | reading (phase : Phase) (stack : List Frame)
  | done (value : Value)

namespace State

/-- Goes on behind a value, which is put into the innermost frame unless it is
    skipped. -/
def deliver (stack : List Frame) : Option Value → State
  | none => .reading .after stack
  | some value =>
      match stack with
      | [] => .done value
      | frame :: rest => .reading .after (frame.put value :: rest)

/-- Closes a frame and goes on behind its value. -/
def closeFrame (frame : Frame) (stack : List Frame) : Except Fault State :=
  frame.close.map (deliver stack)

/-- Enters an array. -/
def enterArray (shape : Option Shape) (stack : List Frame) : Except Fault State :=
  match shape with
  | none => .ok (.reading .first (.list none [] :: stack))
  | some (.list element) => .ok (.reading .first (.list (some element) [] :: stack))
  | some (.record members) => .ok (.reading .first (.tuple members [] :: stack))
  | some _ => .error .mismatch

/-- Enters an object. -/
def enterObject (shape : Option Shape) (stack : List Frame) : Except Fault State :=
  match shape with
  | none => .ok (.reading .firstName (.skipped :: stack))
  | some (.record members) => .ok (.reading .firstName (.object members [] none :: stack))
  | some _ => .error .mismatch

/-- Ends a string. -/
def endString (shape : Option Shape) (text : String) (stack : List Frame) :
    Except Fault State :=
  match shape with
  | none => .ok (deliver stack none)
  | some .string => .ok (deliver stack (some (.string text)))
  | some _ => .error .mismatch

/-- Ends a number. One that is too large for a double is refused before its shape
    is looked at, unless it is skipped. -/
def endNumber (shape : Option Shape) (numeral : Numeral) (stack : List Frame) :
    Except Fault State :=
  match shape with
  | none => .ok (deliver stack none)
  | some shape =>
      if numeral.overflows then .error .malformed
      else
        match shape, numeral.natural? with
        | .number, some n =>
            if n < UInt32.size then .ok (deliver stack (some (.number n)))
            else .error .mismatch
        | _, _ => .error .mismatch

/-- Ends `null`, `true` or `false`, which fit no shape. -/
def endWord (shape : Option Shape) (stack : List Frame) : Except Fault State :=
  match shape with
  | none => .ok (deliver stack none)
  | some _ => .error .mismatch

/-- Ends a name. The innermost frame tells which shape its value has; a name read
    before must not come again. -/
def endName (name : String) (stack : List Frame) : Except Fault State :=
  match stack with
  | .object members read _ :: rest =>
      match members.find? (·.name == name) with
      | none => .ok (.reading (.colon none) (.object members read none :: rest))
      | some member =>
          if Frame.hasRead read name then .error .mismatch
          else
            .ok (.reading (.colon (some member.shape))
              (.object members read (some name) :: rest))
  | stack => .ok (.reading (.colon none) stack)

/-- The rest of the word that begins with a letter. -/
def restOfWord? (c : Char) : Option (List Char) :=
  if c = 'n' then some ['u', 'l', 'l']
  else if c = 't' then some ['r', 'u', 'e']
  else if c = 'f' then some ['a', 'l', 's', 'e']
  else none

/-- Takes the first character of a value. -/
def beginValue (shape : Option Shape) (stack : List Frame) (c : Char) :
    Except Fault State :=
  if c = '"' then .ok (.reading (.string shape (.plain [])) stack)
  else if c = '[' then enterArray shape stack
  else if c = '{' then enterObject shape stack
  else
    match NumeralScan.start? c, restOfWord? c with
    | some scan, _ => .ok (.reading (.number shape scan) stack)
    | none, some rest => .ok (.reading (.word shape rest) stack)
    | none, none => .error .malformed

/-- Takes the first character behind the opening bracket of an array. -/
def beginFirst (stack : List Frame) (c : Char) : Except Fault State :=
  match stack with
  | [] => .error .malformed
  | frame :: rest =>
      if c = frame.closer then closeFrame frame rest
      else
        match frame.next with
        | .ok (.value shape) => beginValue shape stack c
        | _ => .error .malformed

/-- Takes the first character behind a value. -/
def goOn (stack : List Frame) (c : Char) : Except Fault State :=
  match stack with
  | [] => .error .malformed
  | frame :: rest =>
      if c = ',' then frame.next.map (.reading · stack)
      else if c = frame.closer then closeFrame frame rest
      else .error .malformed

/-- Takes the first character behind the opening bracket of an object. -/
def beginFirstName (stack : List Frame) (c : Char) : Except Fault State :=
  match stack with
  | [] => .error .malformed
  | frame :: rest =>
      if c = '"' then .ok (.reading (.name (.plain [])) stack)
      else if c = frame.closer then closeFrame frame rest
      else .error .malformed

/-- Takes a character that is not white space between two tokens. -/
def stepToken (phase : Phase) (stack : List Frame) (c : Char) : Except Fault State :=
  match phase with
  | .value shape => beginValue shape stack c
  | .first => beginFirst stack c
  | .after => goOn stack c
  | .firstName => beginFirstName stack c
  | .nextName =>
      if c = '"' then .ok (.reading (.name (.plain [])) stack) else .error .malformed
  | .colon shape =>
      if c = ':' then .ok (.reading (.value shape) stack) else .error .malformed
  | _ => .error .malformed

/-- Takes a character between two tokens. -/
def stepBetween (phase : Phase) (stack : List Frame) (c : Char) : Except Fault State :=
  if isSpace c then .ok (.reading phase stack) else stepToken phase stack c

/-- Takes a character behind the end of a value: the outermost one, or one
    inside a list or record. -/
def stepBehind (state : State) (c : Char) : Except Fault State :=
  match state with
  | .done value => if isSpace c then .ok (.done value) else .error .malformed
  | .reading phase stack => stepBetween phase stack c

/-- Whether the names of the innermost frame matter. They do not in an object that
    is skipped. -/
def keepsNames : List Frame → Bool
  | .skipped :: _ => false
  | _ => true

/-- Takes one character. -/
def step (state : State) (c : Char) : Except Fault State :=
  match state with
  | .done _ => stepBehind state c
  | .reading phase stack =>
      match phase with
      | .name scan =>
          match scan.step (keepsNames stack) c with
          | .more scan => .ok (.reading (.name scan) stack)
          | .ended name => endName name stack
          | .malformed => .error .malformed
      | .string shape scan =>
          match scan.step shape.isSome c with
          | .more scan => .ok (.reading (.string shape scan) stack)
          | .ended text => endString shape text stack
          | .malformed => .error .malformed
      | .number shape scan =>
          match scan.step c with
          | .more scan => .ok (.reading (.number shape scan) stack)
          | .malformed => .error .malformed
          | .ended => (endNumber shape scan.numeral stack).bind (stepBehind · c)
      | .word shape rest =>
          match rest with
          | [] => .error .malformed
          | expected :: rest =>
              if c ≠ expected then .error .malformed
              else if rest.isEmpty then endWord shape stack
              else .ok (.reading (.word shape rest) stack)
      | phase => stepBetween phase stack c

/-- The value read, at the end of the text. -/
def value (state : State) : Except Fault Value :=
  match state with
  | .done value => .ok value
  | .reading .. => .error .truncated

/-- Takes the end of the text. Only a number can end there; one that is cut off
    is malformed where it is skipped. -/
def finish (state : State) : Except Fault Value :=
  match state with
  | .reading (.number shape scan) stack =>
      if scan.stage.isComplete then
        (endNumber shape scan.numeral stack).bind State.value
      else if shape.isSome then .error .truncated
      else .error .malformed
  | state => state.value

/-- Takes all characters of a text. -/
def run (state : State) (text : List Char) : Except Fault State :=
  text.foldlM step state

end State

/-- Reads a value of the given shape from the whole of a text. -/
def read (shape : Shape) (text : String) : Except Fault Value :=
  (State.run (.reading (.value (some shape)) []) text.toList).bind State.finish

end Json

end SymbolRules
