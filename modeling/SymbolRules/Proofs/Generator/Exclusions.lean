import SymbolRules.Proofs.Generator.Held

/-!
# Excluding more symbols

Excluding more symbols from range rules changes nothing but these: a table leads to the same
immediate rules or the same error, and the range rules of each token list under each high unit what
they would list otherwise, without the symbols that are newly excluded
(`Generator.feed_excluding_more`).
-/

namespace SymbolRules

namespace Config

variable {config : Config} {more : List CodePoint}

/-- The same configuration with another list of excluded symbols. -/
def excluding (config : Config) (symbols : List CodePoint) : Config :=
  { config with rangeExclusions := symbols }

/-- The symbols that a longer list of exclusions adds, as scalar values. -/
def newlyExcluded (config : Config) (more : List CodePoint) : List Nat :=
  (more.filter fun symbol => !config.rangeExclusions.contains symbol).map UInt32.toNat

theorem symbolOf?_excluding (included : config.rangeExclusions ⊆ more) (record : Record) :
    (config.excluding more).symbolOf? record =
      (config.symbolOf? record).filter fun symbol => !more.contains symbol.2 := by
  have sameToken : (config.excluding more).recordToken? record = config.recordToken? record := rfl
  have sameList : (config.excluding more).rangeExclusions = more := rfl
  ext ⟨token, symbol⟩
  rw [symbolOf?_eq_some_iff, Option.filter_eq_some_iff, symbolOf?_eq_some_iff, sameToken,
    isRangeExcluded, isRangeExcluded, sameList]
  constructor
  · rintro ⟨isOnly, isScalar, isToken, isIncluded⟩
    have before : symbol ∉ config.rangeExclusions := fun excluded => by
      simp [included excluded] at isIncluded
    exact ⟨⟨isOnly, isScalar, isToken, by simpa using before⟩, by simpa using isIncluded⟩
  · rintro ⟨⟨isOnly, isScalar, isToken, -⟩, isIncluded⟩
    exact ⟨isOnly, isScalar, isToken, by simpa using isIncluded⟩

/-- Taking the same entries, the symbols that are newly excluded are not collected. -/
theorem symbolsOfEntries_excluding (included : config.rangeExclusions ⊆ more) (policy : Policy)
    (entries : List (Except Malformed Record)) :
    (config.excluding more).symbolsOfEntries policy entries =
      (config.symbolsOfEntries policy entries).filter fun symbol => !more.contains symbol.2 := by
  rw [symbolsOfEntries, symbolsOfEntries, List.filter_filterMap]
  exact congrArg (List.filterMap · _) (funext (symbolOf?_excluding included))

/-- A symbol that was collected before is newly excluded exactly if it is excluded now. -/
theorem mem_newlyExcluded_iff {symbol : CodePoint} (before : symbol ∉ config.rangeExclusions) :
    symbol.toNat ∈ config.newlyExcluded more ↔ symbol ∈ more := by
  simp only [newlyExcluded, List.mem_map, List.mem_filter, UInt32.toNat_inj]
  constructor
  · rintro ⟨other, ⟨isMore, -⟩, rfl⟩
    exact isMore
  · intro isMore
    exact ⟨symbol, ⟨isMore, by simpa using before⟩, rfl⟩

/-- Under each token the collected symbols are those of before, in the same order and as often,
    without the symbols that are newly excluded. -/
theorem under_symbolsOfEntries_excluding (included : config.rangeExclusions ⊆ more)
    (policy : Policy) (entries : List (Except Malformed Record)) (token : String) :
    (Keyed.under token ((config.excluding more).symbolsOfEntries policy entries)).map
        UInt32.toNat =
      ((Keyed.under token (config.symbolsOfEntries policy entries)).map UInt32.toNat).filter
        fun scalar => !(config.newlyExcluded more).contains scalar := by
  have kept := Keyed.under_filter token (fun symbol : CodePoint => !more.contains symbol)
    (config.symbolsOfEntries policy entries)
  rw [symbolsOfEntries_excluding included, kept, List.filter_map]
  congr 1
  apply List.filter_congr
  intro symbol member
  have before := (mayCollect_of_mem_symbolsOfEntries (Keyed.mem_under.1 member)).included
  have isExcluded : symbol.toNat ∈ config.newlyExcluded more ↔ symbol ∈ more :=
    mem_newlyExcluded_iff before
  simp [isExcluded]

end Config

namespace Generator

/-- Excluding more symbols leaves the immediate rules and the error of a table as they are. From
    the range rules of each token it removes the newly excluded symbols and nothing else: the others
    are listed under the same high units, in the same order and as often. A token that is left with
    no symbol has no range rule. -/
theorem feed_excluding_more (config : Config) (more : List CodePoint)
    (included : config.rangeExclusions ⊆ more) (policy : Policy) (table : String) :
    let first := (Generator.mk config []).feed policy table
    let second := (Generator.mk (config.excluding more) []).feed policy table
    second.1 = first.1 ∧
      Rule.AreRanges first.2.finish ∧ Rule.AreRanges second.2.finish ∧
      (∀ token unit, Rule.listed second.2.finish token unit =
        (Rule.listed first.2.finish token unit).filter
          fun scalar => !(config.newlyExcluded more).contains scalar) ∧
      ∀ token, (∀ unit, Rule.listed second.2.finish token unit = []) ↔
        token ∉ second.2.finish.map Rule.token := by
  intro first second
  have holds : first.2.collected.Holds _ := holds_feed config policy table
  have others : second.2.collected.Holds _ := holds_feed (config.excluding more) policy table
  have sameRules : (Generator.mk (config.excluding more) []).config.rulesOf =
      (Generator.mk config []).config.rulesOf := rfl
  have listed : ∀ token unit, Rule.listed second.2.finish token unit =
      (Rule.listed first.2.finish token unit).filter
        fun scalar => !(config.newlyExcluded more).contains scalar := by
    intro token unit
    rw [listed_finish others, listed_finish holds,
      Config.under_symbolsOfEntries_excluding included, List.filter_comm]
  exact ⟨fst_feed_congr sameRules policy table, areRanges_finish holds,
    areRanges_finish others, listed, listed_finish_eq_nil_iff others⟩

/-- The letter in the middle of an interval is excluded: its neighbours stay. -/
theorem listed_excluding_letter :
    let table := "U00041 A\nU00042 A\nU00043 A"
    let more : List CodePoint := 0x42 :: ({} : Config).rangeExclusions
    let first := (Generator.mk {} []).feed .abort table
    let second := (Generator.mk (({} : Config).excluding more) []).feed .abort table
    ({} : Config).rangeExclusions ⊆ more ∧
      Rule.listed first.2.finish "A" 0 = [0x41, 0x42, 0x43] ∧
      Rule.listed second.2.finish "A" 0 = [0x41, 0x43] := by
  intro table more first second
  have included : ({} : Config).rangeExclusions ⊆ more := List.subset_cons_self _ _
  have before : Rule.listed first.2.finish "A" 0 = [0x41, 0x42, 0x43] := by decide +kernel
  obtain ⟨-, -, -, listed, -⟩ := feed_excluding_more {} more included .abort table
  refine ⟨included, before, ?_⟩
  rw [listed "A" 0, before]
  decide +kernel

end Generator

end SymbolRules
