import SymbolRules.Json.Printer
import SymbolRules.Proofs.Json.Records

/-!
# Written values

A value stands for a tree (`Value.tree`), and what is written is a text of that tree, on one line
(`Value.isText_compact`) or on several (`Value.isText_pretty`): strings are escaped where they must
be, numbers have no leading zeros, and there are commas between the parts and nowhere else.
-/

namespace SymbolRules

namespace Json

/-! ### Strings -/

theorem mem_shortEscapes_of_shortEscape? {c letter : Char}
    (isShort : shortEscape? c = some letter) : (letter, c) ∈ shortEscapes := by
  by_cases isEscaped : c ∈ ['"', '\\', '\x08', '\x0c', '\n', '\r', '\t']
  · have all : ∀ d ∈ ['"', '\\', '\x08', '\x0c', '\n', '\r', '\t'],
        ∀ letter ∈ shortEscape? d, (letter, d) ∈ shortEscapes := by
      simp [shortEscape?, shortEscapes]
    exact all c isEscaped letter isShort
  · simp only [List.mem_cons, List.not_mem_nil, or_false, not_or] at isEscaped
    simp [shortEscape?, isEscaped] at isShort

/-- The four digits of a control character. -/
theorem areDigits_hexPair {n : Nat} (small : n < 256) :
    Hex.AreDigits ('0' :: '0' :: quoteChar.hexPair n) n := by
  have digit : ∀ {value : Nat}, value < 16 → Hex.IsDigit value.digitChar value :=
    fun small => ⟨small, .inl rfl⟩
  refine ⟨[0, 0, n / 16, n % 16], ?_, ?_⟩
  · exact .cons (digit (by decide)) (.cons (digit (by decide))
      (.cons (digit (by omega)) (.cons (digit (by omega)) .nil)))
  · simp [Nat.ofDigits]
    omega

theorem spells_quoteChar (c : Char) {units : List CodeUnit} {text : List Char}
    (later : Spells units text) :
    Spells ((Pair.ofNat c.toNat).units ++ units) (quoteChar c ++ text) := by
  unfold quoteChar
  cases isShort : shortEscape? c with
  | some letter => exact .short (mem_shortEscapes_of_shortEscape? isShort) later
  | none =>
      by_cases control : isControl c = true
      · have small : c.toNat < 0x20 := by simpa [isControl] using control
        have isUnit : (UInt16.ofNat c.toNat).toNat = c.toNat :=
          UInt16.toNat_ofNat_of_lt' (Nat.lt_trans small (by decide))
        have byte : c.toNat < 256 := Nat.lt_trans small (by decide)
        have four : ('0' :: '0' :: quoteChar.hexPair c.toNat).length = 4 := rfl
        rw [Pair.units_ofNat_of_lt (Nat.lt_trans small (by decide))]
        simp only [if_pos control]
        exact .unit four (isUnit.symm ▸ areDigits_hexPair byte) later
      · have notQuote : c ≠ '"' := by
          rintro rfl
          cases isShort
        have notBackslash : c ≠ '\\' := by
          rintro rfl
          cases isShort
        simp only [if_neg control]
        exact .plain notQuote notBackslash (by simpa [isControl] using control) later

theorem isQuoted_quote (text : String) : IsQuoted (Utf16.encode text) (quote text) := by
  have spelled : ∀ cs : List Char,
      Spells (cs.flatMap fun c => (Pair.ofNat c.toNat).units) (cs.flatMap quoteChar) := by
    intro cs
    induction cs with
    | nil => exact .nil
    | cons c cs ih => exact spells_quoteChar c ih
  exact .mk (spelled text.toList)

/-! ### Lists of parts -/

/-- Parts with a comma between any two, which may be followed by white space. -/
theorem listed_intercalate {α : Type} {IsPart : α → List Char → Prop} {parts : List α}
    {texts : List (List Char)} {lead trail : List Char} (nonempty : parts ≠ [])
    (leading : AreSpaces lead) (trailing : AreSpaces trail)
    (each : List.Forall₂ IsPart parts texts) :
    Listed IsPart parts (lead ++ (List.intercalate (',' :: lead) texts ++ trail)) := by
  induction each with
  | nil => exact absurd rfl nonempty
  | @cons part text parts texts first later ih =>
      cases later with
      | nil =>
          rw [List.intercalate_singleton]
          exact .one leading first trailing
      | @cons next nextText others otherTexts isNext later =>
          have inner := Listed.more leading first areSpaces_nil (ih (by simp))
          rw [List.intercalate_cons_cons]
          simpa only [List.append_assoc, List.nil_append, List.cons_append] using inner

theorem listed_compact {α : Type} {IsPart : α → List Char → Prop} {parts : List α}
    {texts : List (List Char)} (each : List.Forall₂ IsPart parts texts) :
    Listed IsPart parts (List.intercalate [','] texts) := by
  by_cases empty : parts = []
  · subst empty
    rw [List.forall₂_nil_left_iff.1 each]
    exact .none areSpaces_nil
  · have listed := listed_intercalate empty areSpaces_nil areSpaces_nil each
    rwa [List.nil_append, List.append_nil] at listed

theorem areSpaces_newLine (indent : Nat) : AreSpaces (newLine indent) := by
  intro c member
  obtain rfl | isBlank := List.mem_cons.1 member
  · decide
  · obtain rfl := (List.mem_replicate.1 isBlank).2
    decide

/-- Between brackets, each part stands on lines of its own, and nothing stands there if there are
    no parts. -/
theorem exists_listed_prettyBlock {α : Type} {IsPart : α → List Char → Prop} {parts : List α}
    {texts : List (List Char)} (opener closer : Char) (indent : Nat)
    (each : List.Forall₂ IsPart parts texts) :
    ∃ inside, prettyBlock opener closer indent texts = opener :: (inside ++ [closer]) ∧
      Listed IsPart parts inside := by
  cases each with
  | nil => exact ⟨[], rfl, .none areSpaces_nil⟩
  | @cons part text parts texts first later =>
      have listed := listed_intercalate (List.cons_ne_nil part parts)
        (areSpaces_newLine (indent + 2)) (areSpaces_newLine indent) (.cons first later)
      exact ⟨_, by simp [prettyBlock], listed⟩

/-! ### Values -/

namespace Value

mutual

/-- The tree that a value stands for. -/
def tree : Value → Tree
  | number n => .ofNat n
  | string s => .ofText s
  | array items => .array (trees items)
  | object members => .ofMembers (memberTrees members)

/-- The trees of the elements. -/
def trees : List Value → List Tree
  | [] => []
  | value :: rest => tree value :: trees rest

/-- The members with their trees. -/
def memberTrees : List (String × Value) → List (String × Tree)
  | [] => []
  | (name, value) :: rest => (name, tree value) :: memberTrees rest

end

mutual

/-- What is written on one line is a text of the value. -/
theorem isText_compact : (value : Value) → value.tree.IsText value.compact
  | number n => by
      rw [tree, compact]
      exact .number (Numeral.isText_ofNat n)
  | string s => by
      rw [tree, compact]
      exact .string (isQuoted_quote s)
  | array items => by
      rw [tree, compact]
      exact .array (listed_compact (forall₂_compactItems items))
  | object members => by
      rw [tree, compact]
      exact .object (listed_compact (forall₂_compactMembers members))

theorem forall₂_compactItems :
    (items : List Value) → List.Forall₂ Tree.IsText (trees items) (compactItems items)
  | [] => by
      rw [trees, compactItems]
      exact .nil
  | value :: rest => by
      rw [trees, compactItems]
      exact .cons (isText_compact value) (forall₂_compactItems rest)

theorem forall₂_compactMembers :
    (members : List (String × Value)) → List.Forall₂ (IsMember Tree.IsText)
      (Tree.encoded (memberTrees members)) (compactMembers members)
  | [] => by
      rw [memberTrees, compactMembers]
      exact .nil
  | (name, value) :: rest => by
      rw [memberTrees, compactMembers]
      have member :=
        IsMember.mk (isQuoted_quote name) areSpaces_nil areSpaces_nil (isText_compact value)
      exact .cons member (forall₂_compactMembers rest)

end

mutual

/-- What is written on several lines is a text of the value. -/
theorem isText_pretty (indent : Nat) : (value : Value) → value.tree.IsText (value.pretty indent)
  | number n => by
      rw [tree, pretty]
      exact .number (Numeral.isText_ofNat n)
  | string s => by
      rw [tree, pretty]
      exact .string (isQuoted_quote s)
  | array items => by
      obtain ⟨inside, isBlock, listed⟩ :=
        exists_listed_prettyBlock '[' ']' indent (forall₂_prettyItems (indent + 2) items)
      rw [tree, pretty, isBlock]
      exact .array listed
  | object members => by
      obtain ⟨inside, isBlock, listed⟩ := exists_listed_prettyBlock '{' '}' indent
        (forall₂_prettyMembers (indent + 2) members)
      rw [tree, pretty, isBlock]
      exact .object listed

theorem forall₂_prettyItems (indent : Nat) :
    (items : List Value) → List.Forall₂ Tree.IsText (trees items) (prettyItems indent items)
  | [] => by
      rw [trees, prettyItems]
      exact .nil
  | value :: rest => by
      rw [trees, prettyItems]
      exact .cons (isText_pretty indent value) (forall₂_prettyItems indent rest)

theorem forall₂_prettyMembers (indent : Nat) :
    (members : List (String × Value)) → List.Forall₂ (IsMember Tree.IsText)
      (Tree.encoded (memberTrees members)) (prettyMembers indent members)
  | [] => by
      rw [memberTrees, prettyMembers]
      exact .nil
  | (name, value) :: rest => by
      have blank : AreSpaces [' '] := by simp [AreSpaces, isSpace]
      rw [memberTrees, prettyMembers]
      have member :=
        IsMember.mk (isQuoted_quote name) areSpaces_nil blank (isText_pretty indent value)
      exact .cons member (forall₂_prettyMembers indent rest)

end

theorem trees_eq_map (values : List Value) : trees values = values.map tree := by
  induction values with
  | nil => rfl
  | cons value values ih => rw [trees, List.map_cons, ih]

theorem memberTrees_eq_map (members : List (String × Value)) :
    memberTrees members = members.map fun member => (member.1, member.2.tree) := by
  induction members with
  | nil => rfl
  | cons member members ih => rw [memberTrees, List.map_cons, ih]

/-- An object without a name twice has its members as fields. -/
theorem isObject_tree {members : List (String × Value)} (unique : (members.map Prod.fst).Nodup) :
    Tree.IsObject (members.map fun member => (member.1, some member.2.tree))
      (object members).tree := by
  refine ⟨memberTrees members, by rw [tree], ?_⟩
  simp only [List.forall_mem_map, Option.toList_some]
  rw [memberTrees_eq_map]
  induction members with
  | nil => simp
  | cons first members ih =>
      obtain ⟨fresh, later⟩ := List.nodup_cons.1 unique
      intro member isMember
      rw [List.map_cons, Keyed.under_cons]
      rcases List.mem_cons.1 isMember with rfl | isLater
      · have none :
            Keyed.under member.1 (members.map fun member => (member.1, member.2.tree)) = [] := by
          rw [Keyed.under_eq_nil_iff, List.map_map]
          exact fresh
        rw [if_pos rfl, none]
      · have different : first.1 ≠ member.1 := by
          intro same
          exact fresh (same ▸ List.mem_map_of_mem isLater)
        rw [if_neg different]
        exact ih later member isLater

/-- A value on one line is a whole text. -/
theorem isDocument_compact (value : Value) :
    value.tree.IsDocument (String.ofList value.compact) := by
  apply Tree.IsText.isDocument
  rw [String.toList_ofList]
  exact value.isText_compact

end Value

end Json

end SymbolRules
