import SymbolRules.Proofs.FirstUse
import SymbolRules.Proofs.Json.Reading

/-!
# Records in JSON

A record is written as an object or as an array of its fields (`Tree.IsRecord`). The fields of an
object may come in any order, and members of other names may stand between them: the record is
read from its fields alone (`Tree.read_isRecord`).
-/

namespace SymbolRules

namespace Json

namespace Tree

/-- A text. -/
def ofText (text : String) : Tree := .string (Utf16.encode text)

/-- A natural number. -/
def ofNat (n : Nat) : Tree := .number (Numeral.ofNat n)

/-- Members by the units of their names. -/
def encoded (members : List (String × Tree)) : List (List CodeUnit × Tree) :=
  members.map fun (name, value) => (Utf16.encode name, value)

/-- An object whose names are texts. -/
def ofMembers (members : List (String × Tree)) : Tree := .object (encoded members)

/-- An array of items. -/
def IsList {α : Type} (IsItem : α → Tree → Prop) (items : List α) (tree : Tree) : Prop :=
  ∃ trees, tree = .array trees ∧ List.Forall₂ IsItem items trees

/-- An object with the given fields in any order. A field without a value is missing. Any members
    of other names may stand between the fields. -/
def IsObject (fields : List (String × Option Tree)) (tree : Tree) : Prop :=
  ∃ members, tree = ofMembers members ∧
    ∀ field ∈ fields, Keyed.under field.1 members = field.2.toList

/-- An array of the given fields, none of which is missing. -/
def IsTuple (fields : List (String × Option Tree)) (tree : Tree) : Prop :=
  ∃ items, tree = .array items ∧ fields.map Prod.snd = items.map some

/-- A record of the given fields in either notation. -/
def IsRecord (fields : List (String × Option Tree)) (tree : Tree) : Prop :=
  IsObject fields tree ∨ IsTuple fields tree

/-- How a tree is read as a value of a shape. -/
def ReadsTo (shape : Shape) (tree : Tree) (value : Value) : Prop :=
  tree.read (some shape) = .ok (some value)

/-! ### Single values and lists -/

/-- Whatever a tree is, it can be skipped. -/
theorem read_none (tree : Tree) : tree.read none = .ok none := by
  induction tree using Tree.induction with
  | word | number | string => rfl
  | array items ih =>
      have skips : ∀ skipped ⊆ items, readItems (.list none []) skipped = .ok (.list none []) := by
        intro skipped isPart
        induction skipped with
        | nil => rfl
        | cons item skipped later =>
            obtain ⟨isItem, others⟩ := List.cons_subset.1 isPart
            rw [readItems, Frame.element]
            show (item.read none).bind _ = _
            rw [ih item isItem]
            exact later others
      rw [read]
      show (readItems (.list none []) items).bind Frame.close = _
      rw [skips items (List.Subset.refl items)]
      rfl
  | object members ih =>
      have skips : ∀ skipped ⊆ members, readMembers .skipped skipped = .ok .skipped := by
        intro skipped isPart
        induction skipped with
        | nil => rfl
        | cons member skipped later =>
            obtain ⟨isMember, others⟩ := List.cons_subset.1 isPart
            rw [readMembers]
            show (member.2.read none).bind _ = _
            rw [ih member isMember]
            exact later others
      rw [read]
      show (readMembers .skipped members).bind Frame.close = _
      rw [skips members (List.Subset.refl members)]
      rfl

theorem readsTo_ofText (text : String) : ReadsTo .string (ofText text) (.string text) := by
  rw [ReadsTo, ofText, read, readString, Utf16.text?_encode]

theorem readsTo_ofNat {n : Nat} (fits : n < UInt32.size) :
    ReadsTo .number (ofNat n) (.number n) := by
  have natural := Numeral.natural?_ofNat n
  have small := Numeral.overflows_eq_false natural fits
  simp [ReadsTo, ofNat, read, readNumber, small, natural, fits]

theorem readItems_list {element : Shape} {items : List Tree} {values : List Value}
    (each : List.Forall₂ (ReadsTo element) items values) (read : List Value) :
    readItems (.list (some element) read) items =
      .ok (.list (some element) (values.reverse ++ read)) := by
  induction each generalizing read with
  | nil => rfl
  | @cons item value items values first _ ih =>
      rw [readItems, Frame.element]
      show (item.read (some element)).bind _ = _
      rw [first, List.reverse_cons, List.append_assoc]
      exact ih (value :: read)

theorem readsTo_array {element : Shape} {items : List Tree} {values : List Value}
    (each : List.Forall₂ (ReadsTo element) items values) :
    ReadsTo (.list element) (.array items) (.array values) := by
  rw [ReadsTo, read]
  show (readItems (.list (some element) []) items).bind Frame.close = _
  rw [readItems_list each, List.append_nil]
  show Except.ok (some (Value.array values.reverse.reverse)) = _
  rw [List.reverse_reverse]

/-! ### The members of an object -/

section Members

variable {members : List (Member Shape)} {named : List (String × Tree)}
  {found : List (String × Value)} {name : String} {member : Member Shape} {tree : Tree}

theorem enterUnits_encode :
    (Frame.object members found none).enterUnits (Utf16.encode name) =
      (Frame.object members found none).enter name := by
  simp only [Frame.enterUnits, Utf16.text?_encode]

theorem readMember_of_unknown (unknown : members.find? (·.name == name) = none) :
    readMember (.object members found none) (Utf16.encode name, tree) =
      .ok (.object members found none) := by
  rw [readMember, enterUnits_encode, Frame.enter, unknown]
  show (tree.read none).map _ = _
  rw [read_none]
  rfl

theorem readMember_of_repeated (known : members.find? (·.name == name) = some member)
    (twice : Frame.hasRead found name = true) :
    readMember (.object members found none) (Utf16.encode name, tree) = .error .mismatch := by
  rw [readMember, enterUnits_encode, Frame.enter, known]
  dsimp only
  rw [if_pos twice]
  rfl

theorem readMember_of_known (known : members.find? (·.name == name) = some member)
    (once : Frame.hasRead found name = false) :
    readMember (.object members found none) (Utf16.encode name, tree) =
      (tree.read (some member.shape)).map (Frame.object members found (some name)).take := by
  rw [readMember, enterUnits_encode, Frame.enter, known]
  dsimp only
  rw [once]
  rfl

theorem hasRead_eq_true_iff : Frame.hasRead found name = true ↔ Keyed.under name found ≠ [] := by
  rw [Keyed.under_ne_nil_iff]
  simp [Frame.hasRead]

theorem hasRead_eq_false_iff : Frame.hasRead found name = false ↔ Keyed.under name found = [] := by
  rw [← Bool.not_eq_true, hasRead_eq_true_iff, not_not]

/-- What keeps the members of an object from being read: a value that does not fit, or a known name
    that comes again. -/
def Clashes (members : List (Member Shape)) (found : List (String × Value))
    (named : List (String × Tree)) : Prop :=
  (∃ entry ∈ named, ∃ member ∈ members.find? (·.name == entry.1),
    entry.2.read (some member.shape) = .error .mismatch) ∨
  ∃ name, (members.find? (·.name == name)).isSome ∧ Keyed.under name named ≠ [] ∧
    2 ≤ (Keyed.under name named).length + (Keyed.under name found).length

theorem ne_of_unknown {other : String} (unknown : members.find? (·.name == name) = none)
    (isKnown : (members.find? (·.name == other)).isSome) : name ≠ other := by
  intro same
  rw [← same, unknown] at isKnown
  cases isKnown

theorem clashes_cons_of_unknown (unknown : members.find? (·.name == name) = none) :
    Clashes members found ((name, tree) :: named) ↔ Clashes members found named := by
  unfold Clashes
  apply or_congr
  · simp [unknown]
  · refine exists_congr fun other => and_congr_right fun isKnown => ?_
    rw [Keyed.under_cons, if_neg (ne_of_unknown unknown isKnown)]

theorem clashes_cons_of_known {value : Value} (known : members.find? (·.name == name) = some member)
    (isRead : ReadsTo member.shape tree value) (fresh : Keyed.under name found = []) :
    Clashes members found ((name, tree) :: named) ↔
      Clashes members ((name, value) :: found) named := by
  have fits : tree.read (some member.shape) = .ok (some value) := isRead
  unfold Clashes
  apply or_congr
  · simp [known, fits]
  · refine exists_congr fun other => and_congr_right fun _ => ?_
    rw [Keyed.under_cons, Keyed.under_cons]
    by_cases same : name = other
    · subst same
      cases Keyed.under name named <;> simp [fresh]
    · rw [if_neg same, if_neg same]

/-- Whether the first value of each known name that is not found yet either is read or does not
    fit. Nothing is asked of any further value: it is not looked at. -/
def FirstsSettle (members : List (Member Shape)) (found : List (String × Value))
    (named : List (String × Tree)) : Prop :=
  ∀ name, Keyed.under name found = [] → ∀ tree ∈ (Keyed.under name named).head?,
    ∀ member ∈ members.find? (·.name == name),
      tree.read (some member.shape) = .error .mismatch ∨ ∃ value, ReadsTo member.shape tree value

theorem FirstsSettle.of_cons_unknown (each : FirstsSettle members found ((name, tree) :: named))
    (unknown : members.find? (·.name == name) = none) : FirstsSettle members found named := by
  intro other unused later isFirst member isKnown
  have different := ne_of_unknown unknown (Option.isSome_of_mem isKnown)
  apply each other unused later _ member isKnown
  rwa [Keyed.under_cons, if_neg different]

theorem FirstsSettle.of_cons_known (each : FirstsSettle members found ((name, tree) :: named))
    (value : Value) : FirstsSettle members ((name, value) :: found) named := by
  intro other unused later isFirst
  rw [Keyed.under_cons] at unused
  split at unused
  · cases unused
  · rename_i different
    apply each other unused later
    rwa [Keyed.under_cons, if_neg different]

/-- The members of an object are read one after the other, unless they clash. -/
theorem foldlM_readMember (read : List (String × Value))
    (each : FirstsSettle members read named) :
    ((encoded named).foldlM readMember (.object members read none) = .error .mismatch ∧
      Clashes members read named) ∨
    ¬ Clashes members read named ∧ ∃ found,
      (encoded named).foldlM readMember (.object members read none) =
        .ok (.object members (found.reverse ++ read) none) ∧
      ∀ name member, members.find? (·.name == name) = some member →
        List.Forall₂ (ReadsTo member.shape) (Keyed.under name named) (Keyed.under name found) := by
  induction named generalizing read with
  | nil =>
      refine .inr ⟨?_, [], rfl, fun _ _ _ => .nil⟩
      simp [Clashes, Keyed.under]
  | cons entry named ih =>
      obtain ⟨name, tree⟩ := entry
      rw [encoded, List.map_cons, List.foldlM_cons]
      cases known : members.find? (·.name == name) with
      | none =>
          rw [readMember_of_unknown known, clashes_cons_of_unknown known]
          rcases ih read (each.of_cons_unknown known) with failed | ⟨apart, found, folded, related⟩
          · exact .inl failed
          · refine .inr ⟨apart, found, folded, fun other member isMember => ?_⟩
            rw [Keyed.under_cons, if_neg (ne_of_unknown known (by rw [isMember]; rfl))]
            exact related other member isMember
      | some member =>
          cases again : Frame.hasRead read name with
          | true =>
              rw [readMember_of_repeated known again]
              refine .inl ⟨rfl, .inr ⟨name, by rw [known]; rfl, ?_⟩⟩
              have used := List.length_pos_iff.2 (hasRead_eq_true_iff.1 again)
              rw [Keyed.under_cons, if_pos rfl, List.length_cons]
              exact ⟨List.cons_ne_nil _ _, by omega⟩
          | false =>
              have fresh := hasRead_eq_false_iff.1 again
              have isFirst : tree ∈ (Keyed.under name ((name, tree) :: named)).head? := by
                rw [Keyed.under_cons, if_pos rfl]
                rfl
              rw [readMember_of_known known again]
              rcases each name fresh tree isFirst member known with failed | ⟨value, isRead⟩
              · rw [failed]
                exact .inl ⟨rfl, .inl ⟨_, List.mem_cons_self, member, known, failed⟩⟩
              · rw [clashes_cons_of_known known isRead fresh, isRead]
                rcases ih ((name, value) :: read) (each.of_cons_known value) with
                  failed | ⟨apart, found, folded, related⟩
                · exact .inl failed
                · refine .inr ⟨apart, (name, value) :: found, ?_, fun other _ isOther => ?_⟩
                  · rw [List.reverse_cons, List.append_assoc]
                    exact folded
                  · rw [Keyed.under_cons, Keyed.under_cons]
                    split
                    · rename_i same
                      subst same
                      obtain rfl := Option.some.inj (known.symm.trans isOther)
                      exact .cons isRead (related name member known)
                    · exact related other _ isOther

theorem lookup_eq_head?_under (name : String) (found : List (String × Value)) :
    found.lookup name = (Keyed.under name found).head? := by
  induction found with
  | nil => rfl
  | cons entry found ih =>
      obtain ⟨other, value⟩ := entry
      rw [Keyed.under_cons, List.lookup_cons]
      by_cases same : other = name
      · simp [same]
      · have different : (name == other) = false := beq_eq_false_iff_ne.2 (Ne.symm same)
        rw [if_neg same, different]
        exact ih

/-- A member is found by its name, if no two have the same. -/
theorem find?_of_nodup (unique : (members.map (·.name)).Nodup) (isMember : member ∈ members) :
    members.find? (·.name == member.name) = some member := by
  induction members with
  | nil => cases isMember
  | cons first members ih =>
      obtain ⟨fresh, later⟩ := List.nodup_cons.1 unique
      rw [List.find?_cons]
      rcases List.mem_cons.1 isMember with rfl | isLater
      · simp
      · have different : (first.name == member.name) = false := by
          apply beq_eq_false_iff_ne.2
          intro same
          exact fresh (List.mem_map.2 ⟨member, isLater, same.symm⟩)
        rw [different]
        exact ih later isLater

/-! ### Records -/

/-- What is given for a member of a record: a value of its shape, or none if the member may be
    missing. -/
structure FitsMember (member : Member Shape) (field : String × Option Tree) : Prop where
  named : field.1 = member.name
  typed : ∀ tree ∈ field.2, ∃ value, ReadsTo member.shape tree value
  present : member.required = true → field.2 ≠ none

variable {fields : List (String × Option Tree)}

theorem exists_field_of_mem (fit : List.Forall₂ FitsMember members fields)
    (isMember : member ∈ members) : ∃ field ∈ fields, FitsMember member field := by
  induction fit with
  | nil => cases isMember
  | cons first _ ih =>
      rcases List.mem_cons.1 isMember with rfl | later
      · exact ⟨_, List.mem_cons_self, first⟩
      · obtain ⟨field, isField, fits⟩ := ih later
        exact ⟨field, List.mem_cons_of_mem _ isField, fits⟩

/-- What is found of a record: for each member what is given for it. -/
def IsFound (members : List (Member Shape)) (fields : List (String × Option Tree))
    (found : List (String × Value)) : Prop :=
  List.Forall₂ (fun member field =>
    Option.Rel (ReadsTo member.shape) field.2 (found.lookup member.name)) members fields

/-- What stands in an object under a known name is what is given for that member. -/
theorem exists_given (fit : List.Forall₂ FitsMember members fields)
    (stands : ∀ field ∈ fields, Keyed.under field.1 named = field.2.toList)
    (known : members.find? (·.name == name) = some member) :
    ∃ field, FitsMember member field ∧ Keyed.under name named = field.2.toList := by
  obtain ⟨field, isField, fits⟩ := exists_field_of_mem fit (List.mem_of_find?_eq_some known)
  have isName : member.name = name := by simpa using List.find?_some known
  refine ⟨field, fits, ?_⟩
  rw [← isName, ← fits.named]
  exact stands field isField

/-- What is found under a name is what is given there. -/
theorem rel_lookup {shape : Shape} {given : Option Tree}
    (isGiven : Keyed.under name named = given.toList)
    (each : List.Forall₂ (ReadsTo shape) (Keyed.under name named) (Keyed.under name found)) :
    Option.Rel (ReadsTo shape) given (found.lookup name) := by
  rw [lookup_eq_head?_under]
  rw [isGiven] at each
  cases given with
  | none =>
      rw [List.forall₂_nil_left_iff.1 each]
      exact .none
  | some tree =>
      obtain ⟨value, others, isRead, -, isFound⟩ := List.forall₂_cons_left_iff.1 each
      rw [isFound]
      exact .some isRead

theorem close_object
    (complete : ∀ member ∈ members, member.required = true → found.lookup member.name ≠ none) :
    Frame.close (.object members found.reverse none) = .ok (some (.object found)) := by
  have noneMissing : members.any
      (fun member => member.required && !Frame.hasRead found.reverse member.name) = false := by
    rw [List.any_eq_false]
    intro member isMember missing
    obtain ⟨isRequired, absent⟩ := Bool.and_eq_true_iff.1 missing
    apply complete member isMember isRequired
    have unread := hasRead_eq_false_iff.1 (by simpa using absent)
    rw [lookup_eq_head?_under, List.head?_eq_none_iff, Keyed.under_eq_nil_iff]
    rw [Keyed.under_eq_nil_iff] at unread
    simpa using unread
  rw [Frame.close, noneMissing, List.reverse_reverse]
  rfl

theorem readsTo_of_given (fit : List.Forall₂ FitsMember members fields)
    (stands : ∀ field ∈ fields, Keyed.under field.1 named = field.2.toList) :
    ∀ entry ∈ named, ∀ member ∈ members.find? (·.name == entry.1),
      ∃ value, ReadsTo member.shape entry.2 value := by
  intro entry isEntry member known
  obtain ⟨field, fits, isGiven⟩ := exists_given fit stands known
  have among : entry.2 ∈ Keyed.under entry.1 named := Keyed.mem_under.2 isEntry
  rw [isGiven, Option.mem_toList] at among
  exact fits.typed entry.2 among

theorem not_clashes_of_given (fit : List.Forall₂ FitsMember members fields)
    (stands : ∀ field ∈ fields, Keyed.under field.1 named = field.2.toList) :
    ¬ Clashes members [] named := by
  intro clash
  rcases clash with ⟨entry, isEntry, member, known, failed⟩ | ⟨name, isKnown, -, twice⟩
  · obtain ⟨value, isRead⟩ := readsTo_of_given fit stands entry isEntry member known
    cases failed.symm.trans isRead
  · obtain ⟨member, known⟩ := Option.isSome_iff_exists.1 isKnown
    obtain ⟨field, -, isGiven⟩ := exists_given fit stands known
    rw [isGiven] at twice
    cases value : field.2 <;> simp [value, Keyed.under] at twice

theorem read_isObject (fit : List.Forall₂ FitsMember members fields)
    (unique : (members.map (·.name)).Nodup) (isObject : IsObject fields tree) :
    ∃ found, ReadsTo (.record members) tree (.object found) ∧ IsFound members fields found := by
  obtain ⟨named, rfl, stands⟩ := isObject
  have typed := readsTo_of_given fit stands
  obtain ⟨-, clash⟩ | ⟨-, found, folded, related⟩ :=
    foldlM_readMember [] fun name _ tree isFirst member known =>
      .inr (typed (name, tree) (Keyed.mem_under.1 (List.mem_of_mem_head? isFirst)) member known)
  · exact absurd clash (not_clashes_of_given fit stands)
  have looked : ∀ member ∈ members, ∀ field ∈ fields, FitsMember member field →
      Option.Rel (ReadsTo member.shape) field.2 (found.lookup member.name) := by
    intro member isMember field isField fits
    have isGiven := stands field isField
    rw [fits.named] at isGiven
    exact rel_lookup isGiven (related member.name member (find?_of_nodup unique isMember))
  have complete : ∀ member ∈ members, member.required = true →
      found.lookup member.name ≠ none := by
    intro member isMember isRequired missing
    obtain ⟨⟨fieldName, given⟩, isField, fits⟩ := exists_field_of_mem fit isMember
    apply fits.present isRequired
    have isLooked := looked member isMember _ isField fits
    rw [missing] at isLooked
    cases isLooked
    rfl
  refine ⟨found, ?_, ?_⟩
  · rw [ReadsTo, ofMembers, read]
    show (readMembers (.object members [] none) (encoded named)).bind Frame.close = _
    rw [readMembers_eq_foldlM, folded, List.append_nil]
    exact close_object complete
  · obtain ⟨sameLength, pairs⟩ := List.forall₂_iff_zip.1 fit
    refine List.forall₂_iff_zip.2 ⟨sameLength, fun {member field} isPair => ?_⟩
    obtain ⟨isMember, isField⟩ := List.of_mem_zip isPair
    exact looked member isMember field isField (pairs isPair)

theorem lookup_cons_of_ne {name other : String} (different : other ≠ name) (value : Value)
    (found : List (String × Value)) :
    ((name, value) :: found).lookup other = found.lookup other := by
  rw [List.lookup_cons, beq_eq_false_iff_ne.2 different]

theorem readItems_tuple (fit : List.Forall₂ FitsMember members fields)
    (unique : (members.map (·.name)).Nodup) {items : List Tree}
    (all : fields.map Prod.snd = items.map some) (read : List (String × Value)) :
    ∃ found, readItems (.tuple members read) items = .ok (.tuple [] (found.reverse ++ read)) ∧
      IsFound members fields found := by
  induction fit generalizing items read with
  | nil =>
      obtain rfl : items = [] := List.map_eq_nil_iff.1 all.symm
      exact ⟨[], rfl, .nil⟩
  | @cons member field members fields first _ ih =>
      match items, all with
      | item :: items, all =>
          obtain ⟨isItem, others⟩ := List.cons.inj all
          obtain ⟨fresh, later⟩ := List.nodup_cons.1 unique
          obtain ⟨value, isRead⟩ := first.typed item isItem
          obtain ⟨found, folded, isFound⟩ := ih later others ((member.name, value) :: read)
          refine ⟨(member.name, value) :: found, ?_, .cons ?_ ?_⟩
          · rw [readItems, Frame.element]
            show (item.read (some member.shape)).bind _ = _
            rw [isRead, List.reverse_cons, List.append_assoc]
            exact folded
          · rw [isItem, List.lookup_cons_self]
            exact .some isRead
          · obtain ⟨sameLength, pairs⟩ := List.forall₂_iff_zip.1 isFound
            refine List.forall₂_iff_zip.2 ⟨sameLength, fun {other _} isPair => ?_⟩
            have isOther : other ∈ members := (List.of_mem_zip isPair).1
            have different : other.name ≠ member.name := by
              intro same
              exact fresh (List.mem_map.2 ⟨other, isOther, same⟩)
            rw [lookup_cons_of_ne different]
            exact pairs isPair

/-- A record is read from its fields, whichever notation it is written in. -/
theorem read_isRecord (fit : List.Forall₂ FitsMember members fields)
    (unique : (members.map (·.name)).Nodup) (isRecord : IsRecord fields tree) :
    ∃ found, ReadsTo (.record members) tree (.object found) ∧ IsFound members fields found := by
  obtain isObject | ⟨items, rfl, all⟩ := isRecord
  · exact read_isObject fit unique isObject
  · obtain ⟨found, folded, isFound⟩ := readItems_tuple fit unique all []
    refine ⟨found, ?_, isFound⟩
    rw [ReadsTo, read]
    show (readItems (.tuple members []) items).bind Frame.close = _
    rw [folded, List.append_nil]
    show Except.ok (some (Value.object found.reverse.reverse)) = _
    rw [List.reverse_reverse]

end Members

end Tree

end Json

end SymbolRules
