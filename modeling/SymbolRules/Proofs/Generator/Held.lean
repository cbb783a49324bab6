import SymbolRules.Proofs.CharClass.Listing
import SymbolRules.Proofs.Generator.Requests

/-!
# What a generator holds

A generator holds the symbols of the requests that led to it, each under its token and in order,
wherever its intervals were closed in between (`Generator.holds_reached`). Its range rules list what
it holds (`Generator.listed_finish`), so a token has one exactly if it holds a symbol
(`Generator.listed_finish_eq_nil_iff`).
-/

namespace SymbolRules

namespace Rule

/-- What a range rule lists, under high units; other rules list nothing. -/
def listing? : Rule → Option (List (CodeUnit × List Nat))
  | range pattern _ => Pattern.listing? pattern
  | _ => none

/-- The scalar values with a high unit that the range rules of a token list. -/
def listed (rules : List Rule) (token : String) (unit : CodeUnit) : List Nat :=
  ((Keyed.under token (rules.map fun rule => (rule.token, rule.listing?.getD []))).flatMap
    (Keyed.under unit)).flatten

/-- Range rules of different tokens, whose patterns can be read. -/
structure AreRanges (rules : List Rule) : Prop where
  distinct : (rules.map token).Nodup
  readable : ∀ rule ∈ rules, ∃ pattern listing, rule = .range pattern rule.token ∧
    Pattern.listing? pattern = some listing

end Rule

namespace Collection

/-- One row for each token in the order of first use, with a compressor that holds the symbols of
    that token. -/
def Holds (collection : Collection) (symbols : List (String × CodePoint)) : Prop :=
  ∃ compressors : String → Compressor,
    collection = (symbols.map Prod.fst).eraseDups.map (fun token => (token, compressors token)) ∧
      ∀ token ∈ symbols.map Prod.fst,
        (compressors token).Holds ((Keyed.under token symbols).map UInt32.toNat)

theorem holds_nil : Holds [] [] := ⟨fun _ => .empty, rfl, by simp⟩

namespace Holds

variable {collection : Collection} {symbols : List (String × CodePoint)}

theorem collect (holds : collection.Holds symbols) {symbol : String × CodePoint}
    (isScalar : IsScalar symbol.2.toNat) :
    (collection.collect symbol).Holds (symbols ++ [symbol]) := by
  obtain ⟨token, codePoint⟩ := symbol
  obtain ⟨compressors, rfl, held⟩ := holds
  have updated := Keyed.update_map_eraseDups (symbols.map Prod.fst) compressors token
    fun row => ((row.getD .empty).perform (.add codePoint.toNat)).2
  rw [← collect_eq_update _ (token, codePoint)] at updated
  refine ⟨_, updated.trans (by rw [List.map_append]; rfl), ?_⟩
  intro other used
  rw [Keyed.under_append, Keyed.under_singleton, List.map_append]
  by_cases same : other = token
  · subst same
    rw [if_pos rfl, if_pos (beq_self_eq_true _)]
    refine Compressor.Holds.add ?_ isScalar
    -- A token without a row starts from the empty compressor, and so far it has no symbols.
    by_cases before : other ∈ symbols.map Prod.fst
    · rw [if_pos before]
      exact held other before
    · rw [if_neg before, Keyed.under_eq_nil_iff.2 before]
      exact Compressor.holds_empty
  · have before : other ∈ symbols.map Prod.fst := by simpa [same] using used
    rw [if_neg same, if_neg (by simpa using Ne.symm same), List.map_nil, List.append_nil]
    exact held other before

theorem close (holds : collection.Holds symbols) :
    Holds (collection.map fun row => (row.1, row.2.close)) symbols := by
  obtain ⟨compressors, rfl, held⟩ := holds
  refine ⟨fun token => (compressors token).close, ?_, fun token used => (held token used).close⟩
  rw [List.map_map]
  rfl

/-- No token is without symbols. -/
theorem filled_eq (holds : collection.Holds symbols) : collection.filled = collection := by
  obtain ⟨compressors, rfl, held⟩ := holds
  rw [filled, List.filter_eq_self]
  intro row member
  obtain ⟨token, isKey, rfl⟩ := List.mem_map.1 member
  have used : token ∈ symbols.map Prod.fst := List.mem_eraseDups.1 isKey
  have someSymbol : (Keyed.under token symbols).map UInt32.toNat ≠ [] :=
    mt List.map_eq_nil_iff.1 (Keyed.under_ne_nil_iff.2 used)
  rw [(held token used).isEmpty_eq_false someSymbol]
  rfl

end Holds

end Collection

namespace Generator

open Collection (Holds)

theorem holds_collectAll {generator : Generator} {symbols more : List (String × CodePoint)}
    (holds : generator.collected.Holds symbols)
    (scalars : ∀ symbol ∈ more, IsScalar symbol.2.toNat) :
    (generator.collectAll more).collected.Holds (symbols ++ more) := by
  induction more using List.reverseRecOn with
  | nil => simpa [collectAll] using holds
  | append_singleton more symbol ih =>
      have before := ih fun other member => scalars other (List.mem_append_left _ member)
      have next := before.collect (scalars symbol (by simp))
      rw [collectAll_append, ← List.append_assoc]
      exact next

theorem holds_answer {generator : Generator} {symbols : List (String × CodePoint)}
    (holds : generator.collected.Holds symbols) (request : Request) :
    (generator.answer request).2.collected.Holds
      (symbols ++ request.symbols generator.config) := by
  cases listing : request.isListing with
  | false =>
      rw [generator.snd_answer listing]
      exact holds_collectAll holds fun _ member =>
        (Request.mayCollect_of_mem_symbols member).isScalar
  | true =>
      cases request with
      | ranges =>
          rw [Request.symbols, List.append_nil]
          exact holds.close
      | _ => cases listing

theorem holds_after {generator : Generator} {symbols : List (String × CodePoint)}
    (holds : generator.collected.Holds symbols) (requests : List Request) :
    (generator.after requests).collected.Holds
      (symbols ++ requests.flatMap (Request.symbols generator.config)) := by
  induction requests generalizing generator symbols with
  | nil => simpa [after] using holds
  | cons request requests ih =>
      have next := ih (holds_answer holds request)
      rw [config_answer, List.append_assoc] at next
      exact next

theorem holds_mk (config : Config) : (Generator.mk config []).collected.Holds [] :=
  Collection.holds_nil

/-- A table leaves a new generator with the symbols of its entries. -/
theorem holds_feed (config : Config) (policy : Policy) (table : String) :
    ((Generator.mk config []).feed policy table).2.collected.Holds
      (config.symbolsOfEntries policy (Table.entries table)) :=
  holds_answer (holds_mk config) (.feed policy table)

/-- A generator holds the symbols of all requests that led to it. -/
theorem holds_reached (config : Config) (requests : List Request) :
    (reached config requests).collected.Holds (requests.flatMap (Request.symbols config)) :=
  holds_after (holds_mk config) requests

/-- The range rules of a generator: one for each token in the order of first use, with the pattern
    of a compressor that holds the symbols of the token. -/
theorem exists_finish_eq {generator : Generator} {symbols : List (String × CodePoint)}
    (holds : generator.collected.Holds symbols) :
    ∃ compressors : String → Compressor,
      generator.finish = (symbols.map Prod.fst).eraseDups.map
        (fun token => .range (compressors token).pattern token) ∧
      ∀ token ∈ symbols.map Prod.fst,
        (compressors token).Holds ((Keyed.under token symbols).map UInt32.toNat) := by
  obtain ⟨compressors, isCollected, held⟩ := id holds
  refine ⟨compressors, ?_, held⟩
  rw [finish, holds.filled_eq, isCollected, List.map_map]
  rfl

/-- Each token that has a symbol gets a range rule, in the order of first use. -/
theorem map_token_finish {generator : Generator} {symbols : List (String × CodePoint)}
    (holds : generator.collected.Holds symbols) :
    generator.finish.map Rule.token = (symbols.map Prod.fst).eraseDups := by
  obtain ⟨compressors, isFinish, -⟩ := exists_finish_eq holds
  rw [isFinish, List.map_map]
  exact List.map_id _

/-- No token has two range rules, and each of them can be read. -/
theorem areRanges_finish {generator : Generator} {symbols : List (String × CodePoint)}
    (holds : generator.collected.Holds symbols) : Rule.AreRanges generator.finish := by
  refine ⟨map_token_finish holds ▸ Keyed.nodup_eraseDups _, ?_⟩
  obtain ⟨compressors, isFinish, held⟩ := exists_finish_eq holds
  rw [isFinish]
  intro rule member
  obtain ⟨token, isKey, rfl⟩ := List.mem_map.1 member
  exact ⟨_, _, rfl, (held token (List.mem_eraseDups.1 isKey)).listing?_pattern⟩

/-- The range rules of a token list the symbols that the generator holds for the token. -/
theorem listed_finish {generator : Generator} {symbols : List (String × CodePoint)}
    (holds : generator.collected.Holds symbols) (token : String) (unit : CodeUnit) :
    Rule.listed generator.finish token unit =
      ((Keyed.under token symbols).map UInt32.toNat).filter (History.high · == unit) := by
  obtain ⟨compressors, isFinish, held⟩ := exists_finish_eq holds
  have rows : generator.finish.map (fun rule => (rule.token, rule.listing?.getD [])) =
      (symbols.map Prod.fst).eraseDups.map fun token =>
        (token, History.underHighs ((Keyed.under token symbols).map UInt32.toNat)) := by
    rw [isFinish, List.map_map]
    apply List.map_congr_left
    intro name isKey
    have listing := (held name (List.mem_eraseDups.1 isKey)).listing?_pattern
    rw [Function.comp_apply, Rule.token, Rule.listing?, listing, Option.getD_some]
  rw [Rule.listed, rows, Keyed.under_map_of_nodup (Keyed.nodup_eraseDups _)]
  by_cases used : token ∈ symbols.map Prod.fst
  · rw [if_pos (List.mem_eraseDups.2 used), List.flatMap_singleton,
      History.flatten_under_underHighs]
  · rw [if_neg (mt List.mem_eraseDups.1 used), Keyed.under_eq_nil_iff.2 used]
    rfl

/-- A token has no range rule exactly if nothing is listed for it. -/
theorem listed_finish_eq_nil_iff {generator : Generator} {symbols : List (String × CodePoint)}
    (holds : generator.collected.Holds symbols) (token : String) :
    (∀ unit, Rule.listed generator.finish token unit = []) ↔
      token ∉ generator.finish.map Rule.token := by
  rw [map_token_finish holds, List.mem_eraseDups, ← Keyed.under_eq_nil_iff,
    ← List.map_eq_nil_iff (f := UInt32.toNat)]
  constructor
  · intro nothing
    rw [List.eq_nil_iff_forall_not_mem]
    intro scalar member
    have isListed : scalar ∈ Rule.listed generator.finish token (History.high scalar) := by
      rw [listed_finish holds, List.mem_filter, beq_self_eq_true]
      exact ⟨member, rfl⟩
    rw [nothing] at isListed
    cases isListed
  · intro nothing unit
    rw [listed_finish holds, nothing]
    rfl

end Generator

end SymbolRules
