import SymbolRules.Config.Stored
import SymbolRules.Proofs.Json.Loading

/-!
# Loading configurations

A configuration may be given in part (`Config.Partial`). What is given is stored as a tree in many
ways: every record in it is an object or an array of its fields (`Config.Partial.IsTree`). From any
text of such a tree the given tables are loaded, and the default for each table that is not given
(`Config.Partial.read_eq`).
-/

namespace SymbolRules

open Json (Value Shape Tree)

/-- A list of texts. -/
def Json.Tree.ofTexts (texts : List String) : Tree := .array (texts.map .ofText)

/-- A list of code points. -/
def Json.Tree.ofCodePoints (codePoints : List CodePoint) : Tree :=
  .array (codePoints.map fun codePoint => .ofNat codePoint.toNat)

/-- The trees of an override. -/
def MathClassOverride.IsTree (override : MathClassOverride) (tree : Tree) : Prop :=
  tree.IsRecord
    [("code_point", some (.ofNat override.codePoint.toNat)),
      ("mathclass", some (.ofText override.mathClass))]

/-- The trees of an added command. -/
def ExtraCommand.IsTree (extra : ExtraCommand) (tree : Tree) : Prop :=
  tree.IsRecord
    [("code_point", some (.ofNat extra.codePoint.toNat)),
      ("command", some (.ofText extra.command))]

/-- The token classes that are given: any of the two lists. -/
structure TokenClasses.Partial where
  exact : Option (List String) := none
  prefixes : Option (List String) := none

namespace TokenClasses.Partial

/-- The given lists, and the default for a list that is not given. -/
def complete (given : Partial) : TokenClasses :=
  let default : TokenClasses := {}
  { exact := given.exact.getD default.exact
    prefixes := given.prefixes.getD default.prefixes }

/-- The trees of given token classes. -/
def IsTree (given : Partial) (tree : Tree) : Prop :=
  tree.IsRecord
    [("exact", given.exact.map .ofTexts), ("prefixes", given.prefixes.map .ofTexts)]

end TokenClasses.Partial

/-- The tables of a configuration that are given. -/
structure Config.Partial where
  mathClassOverrides : Option (List MathClassOverride) := none
  extraCommands : Option (List ExtraCommand) := none
  rejectedCommands : Option (List String) := none
  rejectedFragments : Option (List String) := none
  tokens : Option TokenClasses.Partial := none
  rangeExclusions : Option (List CodePoint) := none

namespace Config.Partial

/-- The given tables, and the default for each table that is not given. -/
def complete (given : Partial) : Config :=
  let default : Config := {}
  { mathClassOverrides := given.mathClassOverrides.getD default.mathClassOverrides
    extraCommands := given.extraCommands.getD default.extraCommands
    rejectedCommands := given.rejectedCommands.getD default.rejectedCommands
    rejectedFragments := given.rejectedFragments.getD default.rejectedFragments
    tokens := (given.tokens.map (·.complete)).getD default.tokens
    rangeExclusions := given.rangeExclusions.getD default.rangeExclusions }

/-- The trees of given tables. -/
def IsTree (given : Partial) (tree : Tree) : Prop :=
  ∃ overrides extras tokens : Option Tree,
    Option.Rel (Tree.IsList MathClassOverride.IsTree) given.mathClassOverrides overrides ∧
    Option.Rel (Tree.IsList ExtraCommand.IsTree) given.extraCommands extras ∧
    Option.Rel TokenClasses.Partial.IsTree given.tokens tokens ∧
    tree.IsRecord
      [("mathclass_overrides", overrides), ("extra_commands", extras),
        ("rejected_commands", given.rejectedCommands.map .ofTexts),
        ("rejected_fragments", given.rejectedFragments.map .ofTexts), ("tokens", tokens),
        ("range_exclusions", given.rangeExclusions.map .ofCodePoints)]

end Config.Partial

/-! ### Code points and lists -/

theorem loads_ofCodePoint (codePoint : CodePoint) :
    Loads .number readCodePoint? codePoint (.ofNat codePoint.toNat) := by
  refine ⟨.number codePoint.toNat, Tree.readsTo_ofNat codePoint.toNat_lt_size, ?_⟩
  show some (UInt32.ofNat codePoint.toNat) = some codePoint
  rw [UInt32.ofNat_toNat]

theorem loads_ofTexts (texts : List String) :
    Loads (.list .string) (Value.listOf? Value.string?) texts (.ofTexts texts) := by
  refine loads_array ?_
  rw [List.forall₂_map_right_iff, List.forall₂_same]
  exact fun text _ => loads_ofText text

theorem loads_ofCodePoints (codePoints : List CodePoint) :
    Loads (.list .number) (Value.listOf? readCodePoint?) codePoints (.ofCodePoints codePoints) := by
  refine loads_array ?_
  rw [List.forall₂_map_right_iff, List.forall₂_same]
  exact fun codePoint _ => loads_ofCodePoint codePoint

/-! ### Records -/

theorem MathClassOverride.loads (override : MathClassOverride) (tree : Tree)
    (isTree : override.IsTree tree) :
    Loads MathClassOverride.shape MathClassOverride.ofValue? override tree :=
  loads_pair MathClassOverride.mk (by decide) (loads_ofCodePoint override.codePoint)
    (loads_ofText override.mathClass) isTree

theorem ExtraCommand.loads (extra : ExtraCommand) (tree : Tree) (isTree : extra.IsTree tree) :
    Loads ExtraCommand.shape ExtraCommand.ofValue? extra tree :=
  loads_pair ExtraCommand.mk (by decide) (loads_ofCodePoint extra.codePoint)
    (loads_ofText extra.command) isTree

theorem TokenClasses.Partial.loads (given : Partial) (tree : Tree) (isTree : given.IsTree tree) :
    Loads TokenClasses.shape TokenClasses.ofValue? given.complete tree := by
  have loadsExact := loads_map loads_ofTexts given.exact
  have loadsPrefixes := loads_map loads_ofTexts given.prefixes
  have unique : ["exact", "prefixes"].Nodup := by decide
  obtain ⟨found, isRead, isFound⟩ := Tree.read_isRecord
    (.cons (fitsMember_optional loadsExact) (.cons (fitsMember_optional loadsPrefixes) .nil)) unique
    isTree
  obtain ⟨first, second, -⟩ : Option.Rel _ _ _ ∧ Option.Rel _ _ _ ∧ True := by
    simpa only [Tree.IsFound, List.forall₂_cons, List.forall₂_nil_right_iff] using isFound
  refine ⟨.object found, isRead, ?_⟩
  rw [ofValue?, memberOr_of_loads loadsExact first, memberOr_of_loads loadsPrefixes second]
  rfl

namespace Config.Partial

/-- From each tree of given tables these are loaded, and the default for the others. -/
theorem loads (given : Partial) (tree : Tree) (isTree : given.IsTree tree) :
    Loads Config.shape Config.ofValue? given.complete tree := by
  obtain ⟨overrides, extras, tokens, areOverrides, areExtras, areTokens, isRecord⟩ := isTree
  have loadsOverrides := loads_of_rel areOverrides fun _ _ => loads_isList MathClassOverride.loads
  have loadsExtras := loads_of_rel areExtras fun _ _ => loads_isList ExtraCommand.loads
  have loadsCommands := loads_map loads_ofTexts given.rejectedCommands
  have loadsFragments := loads_map loads_ofTexts given.rejectedFragments
  have loadsTokens := loads_of_rel areTokens TokenClasses.Partial.loads
  have loadsExclusions := loads_map loads_ofCodePoints given.rangeExclusions
  have unique : ["mathclass_overrides", "extra_commands", "rejected_commands",
      "rejected_fragments", "tokens", "range_exclusions"].Nodup := by
    decide
  obtain ⟨found, isRead, isFound⟩ := Tree.read_isRecord
    (.cons (fitsMember_optional loadsOverrides) (.cons (fitsMember_optional loadsExtras)
      (.cons (fitsMember_optional loadsCommands) (.cons (fitsMember_optional loadsFragments)
        (.cons (fitsMember_optional loadsTokens)
          (.cons (fitsMember_optional loadsExclusions) .nil)))))) unique isRecord
  simp only [Tree.IsFound, List.forall₂_cons, List.forall₂_nil_right_iff] at isFound
  obtain ⟨first, second, third, fourth, fifth, sixth, -⟩ := isFound
  refine ⟨.object found, isRead, ?_⟩
  rw [ofValue?, memberOr_of_loads loadsOverrides first, memberOr_of_loads loadsExtras second,
    memberOr_of_loads loadsCommands third, memberOr_of_loads loadsFragments fourth,
    memberOr_of_loads loadsTokens fifth, memberOr_of_loads loadsExclusions sixth,
    Option.map_id', Option.map_id']
  rfl

/-- From each text of given tables these are loaded, and the default for the others. -/
theorem read_eq {given : Partial} {tree : Tree} {text : String} (isTree : given.IsTree tree)
    (document : tree.IsDocument text) : Config.read text = .ok given.complete := by
  obtain ⟨value, isRead, isLoaded⟩ := exists_read_of_loads (given.loads tree isTree) document
  simp only [Config.read, isRead, isLoaded]

end Config.Partial

end SymbolRules
