import SymbolRules.Proofs.Except
import SymbolRules.Proofs.Json.Strings

/-!
# What trees are read as

A tree is read as a value of a shape, or not at all (`Tree.read`): white space, escapes and
whatever surrounds the tree do not matter. An array or object is read into a frame, one part after
the other.
-/

namespace SymbolRules

namespace Json

namespace Frame

/-- Puts a value into its place, unless it is skipped. -/
def take (frame : Frame) : Option Value → Frame
  | none => frame
  | some value => frame.put value

/-- The shape of the next element of an array. An array of members has no more elements than there
    are members. -/
def element : Frame → Except Fault (Option Shape)
  | list element _ => .ok element
  | tuple (member :: _) _ => .ok (some member.shape)
  | _ => .error .malformed

/-- Enters the member of an object that has the given name. Gives the shape of its value. -/
def enter (name : String) : Frame → Except Fault (Option Shape × Frame)
  | object members read _ =>
      match members.find? (·.name == name) with
      | none => .ok (none, object members read none)
      | some member =>
          if hasRead read name then .error .mismatch
          else .ok (some member.shape, object members read (some name))
  | frame => .ok (none, frame)

/-- Enters a member by the units of its name, which do not matter in an object that is skipped. -/
def enterUnits (units : List CodeUnit) : Frame → Except Fault (Option Shape × Frame)
  | skipped => .ok (none, skipped)
  | frame =>
      match Utf16.text? units with
      | none => .error .malformed
      | some name => frame.enter name

end Frame

/-- The frame of an array. -/
def arrayFrame : Option Shape → Except Fault Frame
  | none => .ok (.list none [])
  | some (.list element) => .ok (.list (some element) [])
  | some (.record members) => .ok (.tuple members [])
  | some _ => .error .mismatch

/-- The frame of an object. -/
def objectFrame : Option Shape → Except Fault Frame
  | none => .ok .skipped
  | some (.record members) => .ok (.object members [] none)
  | some _ => .error .mismatch

/-- What a word is read as. -/
def readWord : Option Shape → Except Fault (Option Value)
  | none => .ok none
  | some _ => .error .mismatch

/-- What a number is read as. -/
def readNumber (numeral : Numeral) : Option Shape → Except Fault (Option Value)
  | none => .ok none
  | some shape =>
      if numeral.overflows then .error .malformed
      else
        match shape, numeral.natural? with
        | .number, some n =>
            if n < UInt32.size then .ok (some (.number n)) else .error .mismatch
        | _, _ => .error .mismatch

/-- What a string is read as. -/
def readString (units : List CodeUnit) : Option Shape → Except Fault (Option Value)
  | none => .ok none
  | some shape =>
      match Utf16.text? units with
      | none => .error .malformed
      | some text =>
          match shape with
          | .string => .ok (some (.string text))
          | _ => .error .mismatch

namespace Tree

mutual

/-- What a tree is read as: a value of the shape, or nothing if it is skipped. -/
def read (shape : Option Shape) : Tree → Except Fault (Option Value)
  | .word _ => readWord shape
  | .number numeral => readNumber numeral shape
  | .string units => readString units shape
  | .array items =>
      (arrayFrame shape).bind fun frame => (readItems frame items).bind Frame.close
  | .object members =>
      (objectFrame shape).bind fun frame => (readMembers frame members).bind Frame.close

/-- What a frame comes to with some elements. -/
def readItems (frame : Frame) : List Tree → Except Fault Frame
  | [] => .ok frame
  | item :: rest =>
      frame.element.bind fun shape =>
        (read shape item).bind fun value => readItems (frame.take value) rest

/-- What a frame comes to with some members. -/
def readMembers (frame : Frame) : List (List CodeUnit × Tree) → Except Fault Frame
  | [] => .ok frame
  | (name, value) :: rest =>
      (frame.enterUnits name).bind fun (shape, frame) =>
        (read shape value).bind fun value => readMembers (frame.take value) rest

end

/-- What a frame comes to with one more element. -/
def readItem (frame : Frame) (item : Tree) : Except Fault Frame :=
  frame.element.bind fun shape => (item.read shape).map frame.take

/-- What a frame comes to with one more member. -/
def readMember (frame : Frame) (member : List CodeUnit × Tree) : Except Fault Frame :=
  (frame.enterUnits member.1).bind fun (shape, frame) => (member.2.read shape).map frame.take

theorem readItems_eq_foldlM (frame : Frame) (items : List Tree) :
    readItems frame items = items.foldlM readItem frame := by
  induction items generalizing frame with
  | nil => rfl
  | cons item items ih =>
      rw [readItems, List.foldlM_cons, readItem]
      cases frame.element with
      | error fault => rfl
      | ok shape =>
          show (read shape item).bind _ = ((read shape item).map frame.take).bind _
          cases read shape item with
          | error fault => rfl
          | ok value => exact ih _

theorem readMembers_eq_foldlM (frame : Frame) (members : List (List CodeUnit × Tree)) :
    readMembers frame members = members.foldlM readMember frame := by
  induction members generalizing frame with
  | nil => rfl
  | cons member members ih =>
      obtain ⟨name, value⟩ := member
      rw [readMembers, List.foldlM_cons, readMember]
      cases frame.enterUnits name with
      | error fault => rfl
      | ok entered =>
          show (read entered.1 value).bind _ = ((read entered.1 value).map entered.2.take).bind _
          cases read entered.1 value with
          | error fault => rfl
          | ok value => exact ih _

/-- What holds of a tree if it holds of the trees in it holds of all trees. -/
theorem induction {P : Tree → Prop} (word : ∀ word, P (.word word))
    (number : ∀ numeral, P (.number numeral)) (string : ∀ units, P (.string units))
    (array : ∀ items, (∀ item ∈ items, P item) → P (.array items))
    (object : ∀ members, (∀ member ∈ members, P member.2) → P (.object members)) :
    ∀ tree, P tree
  | .word isWord => word isWord
  | .number numeral => number numeral
  | .string units => string units
  | .array items =>
      array items fun item _ => induction word number string array object item
  | .object members =>
      object members fun member _ => induction word number string array object member.2
termination_by tree => sizeOf tree
decreasing_by
  · rename_i isItem
    have smaller := List.sizeOf_lt_of_mem isItem
    rw [Tree.array.sizeOf_spec]
    omega
  · rename_i isMember
    obtain ⟨name, value⟩ := member
    have smaller := List.sizeOf_lt_of_mem isMember
    rw [Prod.mk.sizeOf_spec] at smaller
    rw [Tree.object.sizeOf_spec]
    show sizeOf value < _
    omega

end Tree

/-! ### Brackets -/

variable {shape : Option Shape} {frame : Frame}

theorem Frame.closer_cases (frame : Frame) :
    (frame.closer = ']' ∨ frame.closer = '}') ∧ isSpace frame.closer = false ∧
      frame.closer ≠ ',' := by
  have isCloser : frame.closer = ']' ∨ frame.closer = '}' := by
    cases frame with
    | list | tuple => exact .inl rfl
    | object | skipped => exact .inr rfl
  refine ⟨isCloser, ?_⟩
  obtain isBracket | isBrace := isCloser
  · rw [isBracket]
    decide
  · rw [isBrace]
    decide

theorem closer_of_arrayFrame (entered : arrayFrame shape = .ok frame) : frame.closer = ']' := by
  rcases shape with _ | _ | _ | _ | _ <;> cases entered <;> rfl

theorem closer_of_objectFrame (entered : objectFrame shape = .ok frame) : frame.closer = '}' := by
  rcases shape with _ | _ | _ | _ | _ <;> cases entered <;> rfl

theorem Frame.closer_take (frame : Frame) (value : Option Value) :
    (frame.take value).closer = frame.closer := by
  cases value with
  | none => rfl
  | some value =>
      cases frame with
      | list | skipped => rfl
      | tuple pending read => cases pending <;> rfl
      | object members read current => cases current <;> rfl

theorem Frame.closer_of_map_take {read : Except Fault (Option Value)} {next : Frame}
    (taken : read.map frame.take = .ok next) : next.closer = frame.closer := by
  obtain ⟨value, -, rfl⟩ := map_eq_ok_iff.1 taken
  exact Frame.closer_take frame value

theorem Frame.closer_enter {name : String} {entered : Option Shape × Frame}
    (isEntered : frame.enter name = .ok entered) : entered.2.closer = frame.closer := by
  cases frame with
  | list | tuple | skipped =>
      obtain rfl := Except.ok.inj isEntered
      rfl
  | object members read current =>
      rw [Frame.enter] at isEntered
      split at isEntered
      · obtain rfl := Except.ok.inj isEntered
        rfl
      · split at isEntered
        · cases isEntered
        · obtain rfl := Except.ok.inj isEntered
          rfl

theorem Frame.closer_enterUnits {units : List CodeUnit} {entered : Option Shape × Frame}
    (isEntered : frame.enterUnits units = .ok entered) : entered.2.closer = frame.closer := by
  unfold Frame.enterUnits at isEntered
  split at isEntered
  · obtain rfl := Except.ok.inj isEntered
    rfl
  · split at isEntered
    · cases isEntered
    · exact closer_enter isEntered

theorem Tree.closer_readItem (frame : Frame) (item : Tree) (next : Frame)
    (isRead : Tree.readItem frame item = .ok next) : next.closer = frame.closer := by
  obtain ⟨shape, -, taken⟩ := bind_eq_ok_iff.1 isRead
  exact Frame.closer_of_map_take taken

theorem Tree.closer_readMember (frame : Frame) (member : List CodeUnit × Tree) (next : Frame)
    (isRead : Tree.readMember frame member = .ok next) : next.closer = frame.closer := by
  obtain ⟨found, entered, taken⟩ := bind_eq_ok_iff.1 isRead
  exact (Frame.closer_of_map_take taken).trans (Frame.closer_enterUnits entered)

end Json

end SymbolRules
