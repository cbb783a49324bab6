import SymbolRules.Proofs.Json.Trees

/-!
# Unknown names

An object may have names that are none of its record's members (`Tree.HasUnknown`). If no object
in a tree has one, then every part of the tree is read as a value of some shape
(`Tree.exists_of_readItem`, `Tree.exists_of_readMember`).
-/

namespace SymbolRules

namespace Json

/-- Some object that is read as a record has a name that is none of its members'. What stands
    behind such a name is skipped. -/
inductive Tree.HasUnknown : Shape → Tree → Prop
  | here {members : List (Member Shape)} {entries : List (List CodeUnit × Tree)}
      {entry : List CodeUnit × Tree} (isEntry : entry ∈ entries)
      (unknown : ∀ member ∈ members, Utf16.text? entry.1 ≠ some member.name) :
      HasUnknown (.record members) (.object entries)
  | member {members : List (Member Shape)} {entries : List (List CodeUnit × Tree)}
      {entry : List CodeUnit × Tree} {member : Member Shape} (isEntry : entry ∈ entries)
      (isMember : member ∈ members) (named : Utf16.text? entry.1 = some member.name)
      (inside : HasUnknown member.shape entry.2) :
      HasUnknown (.record members) (.object entries)
  | tuple {members : List (Member Shape)} {items : List Tree} {pair : Member Shape × Tree}
      (isPair : pair ∈ members.zip items) (inside : HasUnknown pair.1.shape pair.2) :
      HasUnknown (.record members) (.array items)
  | list {element : Shape} {items : List Tree} {item : Tree} (isItem : item ∈ items)
      (inside : HasUnknown element item) : HasUnknown (.list element) (.array items)

namespace Tree

variable {element : Shape} {members : List (Member Shape)} {member : Member Shape} {item : Tree}
  {items : List Tree} {entry : List CodeUnit × Tree} {entries : List (List CodeUnit × Tree)}

theorem not_hasUnknown_array_nil (shape : Shape) : ¬ HasUnknown shape (.array []) := by
  intro unknown
  cases unknown with
  | tuple isPair => simp at isPair
  | list isItem => simp at isItem

theorem hasUnknown_list_cons_iff :
    HasUnknown (.list element) (.array (item :: items)) ↔
      HasUnknown element item ∨ HasUnknown (.list element) (.array items) := by
  constructor
  · intro unknown
    cases unknown with
    | list isItem inside =>
        obtain rfl | later := List.mem_cons.1 isItem
        · exact .inl inside
        · exact .inr (.list later inside)
  · rintro (inside | unknown)
    · exact .list List.mem_cons_self inside
    · cases unknown with
      | list isItem inside => exact .list (List.mem_cons_of_mem _ isItem) inside

theorem hasUnknown_tuple_cons_iff :
    HasUnknown (.record (member :: members)) (.array (item :: items)) ↔
      HasUnknown member.shape item ∨ HasUnknown (.record members) (.array items) := by
  constructor
  · intro unknown
    cases unknown with
    | tuple isPair inside =>
        obtain rfl | later := List.mem_cons.1 isPair
        · exact .inl inside
        · exact .inr (.tuple later inside)
  · rintro (inside | unknown)
    · have isPair : (member, item) ∈ (member :: members).zip (item :: items) :=
        List.mem_cons_self
      exact .tuple isPair inside
    · cases unknown with
      | tuple isPair inside => exact .tuple (List.mem_cons_of_mem _ isPair) inside

/-- An entry has an unknown name, or it has a known one and the unknown one is inside its value. -/
def EntryHasUnknown (members : List (Member Shape)) (entry : List CodeUnit × Tree) : Prop :=
  (∀ member ∈ members, Utf16.text? entry.1 ≠ some member.name) ∨
    ∃ member ∈ members, Utf16.text? entry.1 = some member.name ∧ HasUnknown member.shape entry.2

theorem hasUnknown_object_iff :
    HasUnknown (.record members) (.object entries) ↔
      ∃ entry ∈ entries, EntryHasUnknown members entry := by
  constructor
  · intro unknown
    cases unknown with
    | here isEntry unknown => exact ⟨_, isEntry, .inl unknown⟩
    | member isEntry isMember named inside =>
        exact ⟨_, isEntry, .inr ⟨_, isMember, named, inside⟩⟩
  · rintro ⟨entry, isEntry, unknown | ⟨member, isMember, named, inside⟩⟩
    · exact .here isEntry unknown
    · exact .member isEntry isMember named inside

end Tree

namespace Frame

variable {frame next : Frame} {shape : Shape}

/-- Whether a frame makes a value of what it reads. A value that is skipped has none. -/
def isKept : Frame → Bool
  | list element _ => element.isSome
  | tuple .. | object .. => true
  | skipped => false

theorem isKept_of_arrayFrame (entered : arrayFrame (some shape) = .ok frame) :
    frame.isKept = true := by
  cases shape <;> cases entered <;> rfl

theorem isKept_of_objectFrame (entered : objectFrame (some shape) = .ok frame) :
    frame.isKept = true := by
  cases shape <;> cases entered
  rfl

theorem isKept_take (frame : Frame) (value : Option Value) :
    (frame.take value).isKept = frame.isKept := by
  cases value with
  | none => rfl
  | some value =>
      cases frame with
      | list | skipped => rfl
      | tuple pending read => cases pending <;> rfl
      | object members read current => cases current <;> rfl

/-- Entering a member of an object, whether it has the name of a known one or not. -/
theorem exists_of_enterUnits_object {members : List (Member Shape)} {read : List (String × Value)}
    {current : Option String} {units : List CodeUnit} {entered : Option Shape × Frame}
    (isEntered : (object members read current).enterUnits units = .ok entered) :
    ∃ name, Utf16.text? units = some name ∧
      (members.find? (·.name == name) = none ∧ entered = (none, object members read none) ∨
        ∃ member, members.find? (·.name == name) = some member ∧
          entered = (some member.shape, object members read (some name))) := by
  rw [enterUnits] at isEntered
  · split at isEntered
    · cases isEntered
    · rename_i name encoded
      refine ⟨name, encoded, ?_⟩
      rw [enter] at isEntered
      cases known : members.find? (·.name == name) with
      | none =>
          rw [known] at isEntered
          exact .inl ⟨rfl, (Except.ok.inj isEntered).symm⟩
      | some member =>
          rw [known] at isEntered
          dsimp only at isEntered
          split at isEntered
          · cases isEntered
          · exact .inr ⟨member, rfl, (Except.ok.inj isEntered).symm⟩
  · rintro ⟨⟩

theorem isKept_enterUnits {units : List CodeUnit} {entered : Option Shape × Frame}
    (isEntered : frame.enterUnits units = .ok entered) : entered.2.isKept = frame.isKept := by
  cases frame with
  | skipped =>
      obtain rfl := Except.ok.inj isEntered
      rfl
  | list | tuple =>
      rw [enterUnits] at isEntered
      · split at isEntered
        · cases isEntered
        · obtain rfl := Except.ok.inj isEntered
          rfl
      · rintro ⟨⟩
  | object members read current =>
      obtain ⟨name, -, ⟨-, rfl⟩ | ⟨member, -, rfl⟩⟩ := exists_of_enterUnits_object isEntered
      · rfl
      · rfl

theorem isKept_of_foldlM {α : Type} {readPart : Frame → α → Except Fault Frame}
    (keeps : ∀ frame part next, readPart frame part = .ok next → next.isKept = frame.isKept)
    {parts : List α} {last : Frame} (folded : parts.foldlM readPart frame = .ok last) :
    last.isKept = frame.isKept := by
  induction parts generalizing frame with
  | nil =>
      obtain rfl := Except.ok.inj folded
      rfl
  | cons part parts ih =>
      rw [List.foldlM_cons] at folded
      obtain ⟨next, isRead, folded⟩ := bind_eq_ok_iff.1 folded
      exact (ih folded).trans (keeps frame part next isRead)

theorem isSome_of_close {value : Option Value} (kept : frame.isKept = true)
    (closed : frame.close = .ok value) : value.isSome := by
  cases frame with
  | list element items =>
      obtain ⟨shape, rfl⟩ := Option.isSome_iff_exists.1 kept
      obtain rfl := Except.ok.inj closed
      rfl
  | tuple | object =>
      rw [close] at closed
      split at closed
      · cases closed
      · obtain rfl := Except.ok.inj closed
        rfl
  | skipped => cases kept

end Frame

namespace Tree

theorem isKept_readItem (frame : Frame) (item : Tree) (next : Frame)
    (isRead : readItem frame item = .ok next) : next.isKept = frame.isKept := by
  obtain ⟨shape, -, taken⟩ := bind_eq_ok_iff.1 isRead
  obtain ⟨value, -, rfl⟩ := map_eq_ok_iff.1 taken
  exact Frame.isKept_take frame value

theorem isKept_readMember (frame : Frame) (member : List CodeUnit × Tree) (next : Frame)
    (isRead : readMember frame member = .ok next) : next.isKept = frame.isKept := by
  obtain ⟨entered, isEntered, taken⟩ := bind_eq_ok_iff.1 isRead
  obtain ⟨value, -, rfl⟩ := map_eq_ok_iff.1 taken
  exact (Frame.isKept_take _ value).trans (Frame.isKept_enterUnits isEntered)

end Tree

theorem exists_of_readNumber {numeral : Numeral} {shape : Shape} {value : Option Value}
    (isRead : readNumber numeral (some shape) = .ok value) :
    shape = .number ∧ ∃ n, numeral.natural? = some n ∧ n < UInt32.size ∧
      value = some (.number n) := by
  unfold readNumber at isRead
  dsimp only at isRead
  split at isRead
  · cases isRead
  · split at isRead
    · rename_i n natural
      split at isRead
      · rename_i small
        exact ⟨rfl, n, natural, small, (Except.ok.inj isRead).symm⟩
      · cases isRead
    · cases isRead

theorem exists_of_readString {units : List CodeUnit} {shape : Shape} {value : Option Value}
    (isRead : readString units (some shape) = .ok value) :
    shape = .string ∧ ∃ text, Utf16.text? units = some text ∧ value = some (.string text) := by
  unfold readString at isRead
  dsimp only at isRead
  split at isRead
  · cases isRead
  · rename_i text encoded
    split at isRead
    · exact ⟨rfl, text, encoded, (Except.ok.inj isRead).symm⟩
    · cases isRead

namespace Tree

/-- A tree that is read as a value of a shape is not skipped. -/
theorem isSome_of_read {tree : Tree} {shape : Shape} {value : Option Value}
    (isRead : tree.read (some shape) = .ok value) : value.isSome := by
  cases tree with
  | word word =>
      rw [read] at isRead
      cases isRead
  | number numeral =>
      rw [read] at isRead
      obtain ⟨-, n, -, -, rfl⟩ := exists_of_readNumber isRead
      rfl
  | string units =>
      rw [read] at isRead
      obtain ⟨-, text, -, rfl⟩ := exists_of_readString isRead
      rfl
  | array items =>
      rw [read] at isRead
      obtain ⟨frame, entered, isRead⟩ := bind_eq_ok_iff.1 isRead
      obtain ⟨last, isRead, closed⟩ := bind_eq_ok_iff.1 isRead
      rw [readItems_eq_foldlM] at isRead
      have kept := Frame.isKept_of_foldlM isKept_readItem isRead
      exact Frame.isSome_of_close (kept.trans (Frame.isKept_of_arrayFrame entered)) closed
  | object members =>
      rw [read] at isRead
      obtain ⟨frame, entered, isRead⟩ := bind_eq_ok_iff.1 isRead
      obtain ⟨last, isRead, closed⟩ := bind_eq_ok_iff.1 isRead
      rw [readMembers_eq_foldlM] at isRead
      have kept := Frame.isKept_of_foldlM isKept_readMember isRead
      exact Frame.isSome_of_close (kept.trans (Frame.isKept_of_objectFrame entered)) closed

/-! ### Frames -/

/-- The frame is one of an array that is kept, and the items to come have no unknown names. -/
def KnowsItems : Frame → List Tree → Prop
  | .list (some element) _, items => ¬ HasUnknown (.list element) (.array items)
  | .tuple pending _, items => ¬ HasUnknown (.record pending) (.array items)
  | _, _ => False

/-- The frame is one of an object that is kept, and the members to come have no unknown names. -/
def KnowsMembers (frame : Frame) (entries : List (List CodeUnit × Tree)) : Prop :=
  ∃ members read current, frame = .object members read current ∧
    ¬ HasUnknown (.record members) (.object entries)

variable {frame next : Frame} {shape : Shape} {item : Tree} {items : List Tree}

theorem knowsItems_of_arrayFrame (entered : arrayFrame (some shape) = .ok frame)
    (known : ¬ HasUnknown shape (.array items)) : KnowsItems frame items := by
  cases shape with
  | number | string => cases entered
  | list | record =>
      obtain rfl := Except.ok.inj entered
      exact known

theorem knowsMembers_of_objectFrame {entries : List (List CodeUnit × Tree)}
    (entered : objectFrame (some shape) = .ok frame)
    (known : ¬ HasUnknown shape (.object entries)) : KnowsMembers frame entries := by
  cases shape with
  | number | string | list => cases entered
  | record members =>
      obtain rfl := Except.ok.inj entered
      exact ⟨members, [], none, rfl, known⟩

/-- An item of a known list is read as a value of a shape. -/
theorem exists_of_readItem (known : KnowsItems frame (item :: items))
    (isRead : readItem frame item = .ok next) :
    ∃ shape value, frame.element = .ok (some shape) ∧ item.read (some shape) = .ok value ∧
      ¬ HasUnknown shape item ∧ KnowsItems next items := by
  obtain ⟨shape, isElement, taken⟩ := bind_eq_ok_iff.1 isRead
  obtain ⟨value, isRead, rfl⟩ := map_eq_ok_iff.1 taken
  cases frame with
  | list element read =>
      cases element with
      | none => exact known.elim
      | some element =>
          obtain rfl := Except.ok.inj isElement
          obtain ⟨first, others⟩ := not_or.1 (mt hasUnknown_list_cons_iff.2 known)
          refine ⟨element, value, rfl, isRead, first, ?_⟩
          cases value <;> exact others
  | tuple pending read =>
      cases pending with
      | nil => cases isElement
      | cons member pending =>
          obtain rfl := Except.ok.inj isElement
          obtain ⟨value, rfl⟩ := Option.isSome_iff_exists.1 (isSome_of_read isRead)
          obtain ⟨first, others⟩ := not_or.1 (mt hasUnknown_tuple_cons_iff.2 known)
          exact ⟨member.shape, some value, rfl, isRead, first, others⟩
  | object | skipped => exact known.elim

/-- A member of a known object has a name that tells the shape of its value. -/
theorem exists_of_readMember {entry : List CodeUnit × Tree}
    {entries : List (List CodeUnit × Tree)} (known : KnowsMembers frame (entry :: entries))
    (isRead : readMember frame entry = .ok next) :
    ∃ name shape entered value, Utf16.text? entry.1 = some name ∧
      frame.enterUnits entry.1 = .ok (some shape, entered) ∧
      entry.2.read (some shape) = .ok value ∧ ¬ HasUnknown shape entry.2 ∧
      KnowsMembers next entries := by
  obtain ⟨members, read, current, rfl, known⟩ := known
  rw [hasUnknown_object_iff, List.exists_mem_cons_iff, not_or] at known
  obtain ⟨first, others⟩ := known
  obtain ⟨entered, isEntered, taken⟩ := bind_eq_ok_iff.1 isRead
  obtain ⟨value, isValue, rfl⟩ := map_eq_ok_iff.1 taken
  obtain ⟨name, encoded, ⟨unknown, -⟩ | ⟨member, found, rfl⟩⟩ :=
    Frame.exists_of_enterUnits_object isEntered
  · refine absurd (.inl fun member isMember same => ?_) first
    have other := List.find?_eq_none.1 unknown member isMember
    rw [encoded] at same
    exact other (beq_iff_eq.2 (Option.some.inj same).symm)
  · have named : Utf16.text? entry.1 = some member.name := by
      have same : member.name = name := by simpa using List.find?_some found
      rw [encoded, same]
    have isMember := List.mem_of_find?_eq_some found
    obtain ⟨value, rfl⟩ := Option.isSome_iff_exists.1 (isSome_of_read isValue)
    refine ⟨name, member.shape, _, some value, encoded, isEntered, isValue,
      fun inside => first (.inr ⟨member, isMember, named, inside⟩), members, _, _, rfl, ?_⟩
    rwa [hasUnknown_object_iff]

end Tree

end Json

end SymbolRules
