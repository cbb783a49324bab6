import SymbolRules.Proofs.Json.Records

/-!
# Fields given twice

A tree fits a shape if every known name in it has values of the right shape (`Tree.Fits`), be it
once, several times or not at all. If one object in it has a known name twice, reading the tree
reports a mismatch and nothing else (`Tree.read_of_repeats`).
-/

namespace SymbolRules

namespace Json

namespace Tree

/-- The values of known names are of their shapes. Names may be missing or come more than once,
    and then only the first value must be of the shape. Members of unknown names may be anything. -/
inductive Fits : Shape → Tree → Prop
  | number {n : Nat} (fits : n < UInt32.size) : Fits .number (ofNat n)
  | string (text : String) : Fits .string (ofText text)
  | list {element : Shape} {items : List Tree} (each : ∀ item ∈ items, Fits element item) :
      Fits (.list element) (.array items)
  | tuple {members : List (Member Shape)} {items : List Tree}
      (enough : items.length ≤ members.length)
      (each : ∀ pair ∈ members.zip items, Fits pair.1.shape pair.2) :
      Fits (.record members) (.array items)
  | object {members : List (Member Shape)} {named : List (String × Tree)}
      (each : ∀ name, ∀ value ∈ (Keyed.under name named).head?,
        ∀ member ∈ members.find? (·.name == name), Fits member.shape value) :
      Fits (.record members) (ofMembers named)

/-- Some object has a known name at least twice. -/
inductive Repeats : Shape → Tree → Prop
  | here {members : List (Member Shape)} {named : List (String × Tree)} (name : String)
      (known : (members.find? (·.name == name)).isSome)
      (twice : 2 ≤ (Keyed.under name named).length) :
      Repeats (.record members) (ofMembers named)
  | list {element : Shape} {items : List Tree} {item : Tree} (isItem : item ∈ items)
      (inside : Repeats element item) : Repeats (.list element) (.array items)
  | tuple {members : List (Member Shape)} {items : List Tree} {pair : Member Shape × Tree}
      (isPair : pair ∈ members.zip items) (inside : Repeats pair.1.shape pair.2) :
      Repeats (.record members) (.array items)
  | object {members : List (Member Shape)} {named : List (String × Tree)} {entry : String × Tree}
      {member : Member Shape} (isEntry : entry ∈ named)
      (known : members.find? (·.name == entry.1) = some member)
      (inside : Repeats member.shape entry.2) :
      Repeats (.record members) (ofMembers named)

/-- A tree is read, or it does not fit. If some object in it repeats a name, it does not. -/
def Settles (shape : Shape) (tree : Tree) : Prop :=
  tree.read (some shape) = .error .mismatch ∨
    ∃ value, ReadsTo shape tree value ∧ ¬ Repeats shape tree

theorem ofMembers_injective {first second : List (String × Tree)}
    (same : ofMembers first = ofMembers second) : first = second := by
  refine List.map_injective_iff.2 ?_ (Tree.object.inj same)
  rintro ⟨name, value⟩ ⟨other, otherValue⟩ equal
  obtain ⟨sameName, rfl⟩ := Prod.mk.inj equal
  rw [Utf16.encode_injective sameName]

variable {members : List (Member Shape)} {named : List (String × Tree)} {items : List Tree}
  {element shape : Shape} {tree : Tree}

theorem repeats_list_iff :
    Repeats (.list element) (.array items) ↔ ∃ item ∈ items, Repeats element item := by
  constructor
  · intro repeats
    cases repeats with
    | list isItem inside => exact ⟨_, isItem, inside⟩
  · rintro ⟨item, isItem, inside⟩
    exact .list isItem inside

theorem repeats_tuple_iff :
    Repeats (.record members) (.array items) ↔
      ∃ pair ∈ members.zip items, Repeats pair.1.shape pair.2 := by
  constructor
  · intro repeats
    cases repeats with
    | tuple isPair inside => exact ⟨_, isPair, inside⟩
  · rintro ⟨pair, isPair, inside⟩
    exact .tuple isPair inside

theorem repeats_object_iff :
    Repeats (.record members) (ofMembers named) ↔
      (∃ name, (members.find? (·.name == name)).isSome ∧ 2 ≤ (Keyed.under name named).length) ∨
        ∃ entry ∈ named, ∃ member ∈ members.find? (·.name == entry.1),
          Repeats member.shape entry.2 := by
  constructor
  · intro repeats
    generalize isTree : ofMembers named = tree at repeats
    cases repeats with
    | here name known twice =>
        rw [ofMembers_injective isTree]
        exact .inl ⟨name, known, twice⟩
    | tuple => cases isTree
    | object isEntry known inside =>
        rw [ofMembers_injective isTree]
        exact .inr ⟨_, isEntry, _, known, inside⟩
  · rintro (⟨name, known, twice⟩ | ⟨entry, isEntry, member, known, inside⟩)
    · exact .here name known twice
    · exact .object isEntry known inside

/-! ### Lists and arrays of members -/

theorem readItems_list_settles (each : ∀ item ∈ items, Settles element item)
    (read : List Value) :
    readItems (.list (some element) read) items = .error .mismatch ∨
      ∃ values, readItems (.list (some element) read) items =
          .ok (.list (some element) values) ∧
        ∀ item ∈ items, ¬ Repeats element item := by
  induction items generalizing read with
  | nil => exact .inr ⟨read, rfl, by simp⟩
  | cons item items ih =>
      obtain ⟨first, others⟩ := List.forall_mem_cons.1 each
      rw [readItems, Frame.element]
      show (item.read (some element)).bind _ = _ ∨
        ∃ values, (item.read (some element)).bind _ = _ ∧ _
      obtain failed | ⟨value, isRead, once⟩ := first
      · rw [failed]
        exact .inl rfl
      · rw [isRead]
        obtain failed | ⟨values, read, later⟩ := ih others (value :: read)
        · exact .inl failed
        · exact .inr ⟨values, read, List.forall_mem_cons.2 ⟨once, later⟩⟩

theorem readItems_tuple_settles (enough : items.length ≤ members.length)
    (each : ∀ pair ∈ members.zip items, Settles pair.1.shape pair.2)
    (read : List (String × Value)) :
    readItems (.tuple members read) items = .error .mismatch ∨
      ∃ pending found, readItems (.tuple members read) items = .ok (.tuple pending found) ∧
        ∀ pair ∈ members.zip items, ¬ Repeats pair.1.shape pair.2 := by
  induction items generalizing members read with
  | nil => exact .inr ⟨members, read, rfl, by simp⟩
  | cons item items ih =>
      match members, enough with
      | member :: members, enough =>
          rw [List.zip_cons_cons] at each ⊢
          obtain ⟨first, others⟩ := List.forall_mem_cons.1 each
          rw [readItems, Frame.element]
          show (item.read (some member.shape)).bind _ = _ ∨
            ∃ pending found, (item.read (some member.shape)).bind _ = _ ∧ _
          obtain failed | ⟨value, isRead, once⟩ := first
          · rw [failed]
            exact .inl rfl
          · rw [isRead]
            obtain failed | ⟨pending, found, read, later⟩ :=
              ih (Nat.le_of_succ_le_succ enough) others ((member.name, value) :: read)
            · exact .inl failed
            · exact .inr ⟨pending, found, read, List.forall_mem_cons.2 ⟨once, later⟩⟩

/-! ### Trees -/

theorem settles_array (each : ∀ item ∈ items, Settles element item) :
    Settles (.list element) (.array items) := by
  have isRead : (Tree.array items).read (some (.list element)) =
      (readItems (.list (some element) []) items).bind Frame.close := by
    rw [read]
    rfl
  obtain failed | ⟨values, read, once⟩ := readItems_list_settles each []
  · refine .inl ?_
    rw [isRead, failed]
    rfl
  · refine .inr ⟨.array values.reverse, ?_, ?_⟩
    · rw [ReadsTo, isRead, read]
      rfl
    · rw [repeats_list_iff]
      rintro ⟨item, isItem, inside⟩
      exact once item isItem inside

theorem settles_tuple (enough : items.length ≤ members.length)
    (each : ∀ pair ∈ members.zip items, Settles pair.1.shape pair.2) :
    Settles (.record members) (.array items) := by
  have isRead : (Tree.array items).read (some (.record members)) =
      (readItems (.tuple members []) items).bind Frame.close := by
    rw [read]
    rfl
  obtain failed | ⟨pending, found, read, once⟩ := readItems_tuple_settles enough each []
  · refine .inl ?_
    rw [isRead, failed]
    rfl
  · cases missing : pending.any (·.required) with
    | true =>
        refine .inl ?_
        rw [isRead, read]
        show Frame.close (.tuple pending found) = _
        rw [Frame.close, if_pos missing]
    | false =>
        refine .inr ⟨.object found.reverse, ?_, ?_⟩
        · rw [ReadsTo, isRead, read]
          show Frame.close (.tuple pending found) = _
          rw [Frame.close, missing]
          rfl
        · rw [repeats_tuple_iff]
          rintro ⟨pair, isPair, inside⟩
          exact once pair isPair inside

theorem settles_object
    (each : ∀ name, ∀ value ∈ (Keyed.under name named).head?,
      ∀ member ∈ members.find? (·.name == name), Settles member.shape value) :
    Settles (.record members) (ofMembers named) := by
  have isRead : (ofMembers named).read (some (.record members)) =
      ((encoded named).foldlM readMember (.object members [] none)).bind Frame.close := by
    rw [ofMembers, read, ← readMembers_eq_foldlM]
    rfl
  have settled := foldlM_readMember [] fun name _ value isFirst member known =>
    (each name value isFirst member known).imp id (Exists.imp fun _ => And.left)
  rcases settled with ⟨failed, -⟩ | ⟨apart, found, folded, -⟩
  · refine .inl ?_
    rw [isRead, failed]
    rfl
  · rw [List.append_nil] at folded
    cases missing : members.any
        (fun member => member.required && !Frame.hasRead found.reverse member.name) with
    | true =>
        refine .inl ?_
        rw [isRead, folded]
        show Frame.close (.object members found.reverse none) = _
        rw [Frame.close, if_pos missing]
    | false =>
        refine .inr ⟨.object found.reverse.reverse, ?_, ?_⟩
        · rw [ReadsTo, isRead, folded]
          show Frame.close (.object members found.reverse none) = _
          rw [Frame.close, missing]
          rfl
        · rw [repeats_object_iff]
          rintro (⟨name, isKnown, twice⟩ | ⟨entry, isEntry, member, known, inside⟩)
          · refine apart (.inr ⟨name, isKnown, ?_, Nat.le_add_right_of_le twice⟩)
            exact List.ne_nil_of_length_pos (by omega)
          · -- No known name comes twice here, so the value of the entry is the first of its name.
            have among : entry.2 ∈ Keyed.under entry.1 named := Keyed.mem_under.2 isEntry
            have isOnly : (Keyed.under entry.1 named).length = 1 := by
              have used := List.length_pos_of_mem among
              by_contra other
              refine apart (.inr ⟨entry.1, Option.isSome_of_mem known, List.ne_nil_of_mem among, ?_⟩)
              exact Nat.le_add_right_of_le (by omega)
            obtain ⟨value, isValue⟩ := List.length_eq_one_iff.1 isOnly
            rw [isValue, List.mem_singleton] at among
            have isFirst : entry.2 ∈ (Keyed.under entry.1 named).head? := by
              rw [isValue, among]
              rfl
            rcases each entry.1 entry.2 isFirst member known with failed | ⟨_, -, once⟩
            · exact apart (.inl ⟨entry, isEntry, member, known, failed⟩)
            · exact once inside

/-- A tree that fits a shape is read, unless a member is missing or given twice. -/
theorem settles_of_fits (fits : Fits shape tree) : Settles shape tree := by
  induction fits with
  | number fits => exact .inr ⟨_, readsTo_ofNat fits, nofun⟩
  | string text => exact .inr ⟨_, readsTo_ofText text, nofun⟩
  | list each ih => exact settles_array ih
  | tuple enough each ih => exact settles_tuple enough ih
  | object each ih => exact settles_object ih

/-- A tree that repeats a member is read as no value, however it is written. -/
theorem read_of_repeats (fits : Fits shape tree) (repeats : Repeats shape tree) :
    tree.read (some shape) = .error .mismatch := by
  obtain failed | ⟨value, -, once⟩ := settles_of_fits fits
  · exact failed
  · exact absurd repeats once

end Tree

end Json

end SymbolRules
