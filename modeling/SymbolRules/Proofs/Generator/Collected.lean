import SymbolRules.Proofs.CharClass.Coverage
import SymbolRules.Proofs.Generator.Step

/-!
# The symbols collected for each token

Collecting symbols one after another keeps a compressor for each token. It is the compressor
that takes the symbols of that token alone (`Collection.foldl_collect`), so no token is ever
without symbols and the range rules follow.
-/

namespace SymbolRules

namespace Collection

open Compressor (Operation)

/-- The operations that add symbols one after another. -/
def additions (symbols : List CodePoint) : List Operation :=
  symbols.map fun symbol => .add symbol.toNat

theorem collect_eq_update (collection : Collection) (symbol : String × CodePoint) :
    collection.collect symbol = Keyed.update symbol.1
      (fun row => ((row.getD .empty).perform (.add symbol.2.toNat)).2) collection := by
  induction collection with
  | nil =>
      rw [collect, add, Keyed.update, Option.getD_none, Compressor.perform]
      cases Compressor.empty.add symbol.2.toNat with
      | ok compressor => rfl
      | error fault => rfl
  | cons row rest ih =>
      obtain ⟨name, compressor⟩ := row
      rw [collect, add, Keyed.update]
      split
      · rw [Option.getD_some, Compressor.perform]
        cases compressor.add symbol.2.toNat with
        | ok compressor => rfl
        | error fault => rfl
      · exact congrArg ((name, compressor) :: ·) ih

/-- Each token has the compressor of its own symbols, and tokens stand in the order of their
    first symbol. -/
theorem foldl_collect (symbols : List (String × CodePoint)) :
    symbols.foldl collect [] = (symbols.map Prod.fst).eraseDups.map fun token =>
      (token, Compressor.run (additions (Keyed.under token symbols))) := by
  have updates : collect = fun collection symbol => Keyed.update symbol.1
      (fun row => ((row.getD .empty).perform (.add symbol.2.toNat)).2) collection :=
    funext fun collection => funext fun symbol => collect_eq_update collection symbol
  have gathered := Keyed.foldl_update Compressor.empty (fun compressor (symbol : CodePoint) =>
    (compressor.perform (.add symbol.toNat)).2) symbols
  rw [updates]
  refine gathered.trans ?_
  apply List.map_congr_left
  intro token _
  rw [Compressor.run, Compressor.after, additions, List.foldl_map]

theorem accepted_additions {symbols : List CodePoint}
    (scalars : ∀ symbol ∈ symbols, IsScalar symbol.toNat) :
    History.accepted (additions symbols) = symbols.map UInt32.toNat := by
  induction symbols with
  | nil => rfl
  | cons symbol symbols ih =>
      have isScalar := scalars symbol (List.mem_cons_self ..)
      have rest := ih fun other member => scalars other (List.mem_cons_of_mem symbol member)
      have added : Operation.scalar? (.add symbol.toNat) = some symbol.toNat := by
        rw [Operation.scalar?, if_pos isScalar, Int.toNat_natCast]
      rw [additions, List.map_cons, History.accepted_cons, added, List.map_cons, ← rest]
      rfl

theorem filled_foldl_collect {symbols : List (String × CodePoint)}
    (scalars : ∀ symbol ∈ symbols, IsScalar symbol.2.toNat) :
    (symbols.foldl collect []).filled = symbols.foldl collect [] := by
  rw [filled, List.filter_eq_self, foldl_collect]
  intro row member
  obtain ⟨token, isToken, rfl⟩ := List.mem_map.1 member
  have own : ∀ symbol ∈ Keyed.under token symbols, IsScalar symbol.toNat :=
    fun symbol isOwn => scalars (token, symbol) (Keyed.mem_under.1 isOwn)
  have used : Keyed.under token symbols ≠ [] :=
    Keyed.under_ne_nil_iff.2 (List.mem_eraseDups.1 isToken)
  rw [Bool.not_eq_true', ← Bool.not_eq_true, Compressor.isEmpty_run_iff, accepted_additions own,
    List.map_eq_nil_iff]
  exact used

end Collection

namespace Config

/-- The symbols that a table collects, each under its token, in the order of the table. -/
def symbolsOf (config : Config) (table : String) : List (String × CodePoint) :=
  (Table.records table).filterMap config.symbolOf?

/-- The range rules of a table: one for each token in the order of first use, whose pattern is
    what an empty compressor makes of the symbols of that token alone. -/
def rangeRules (config : Config) (table : String) : List Rule :=
  ((config.symbolsOf table).map Prod.fst).eraseDups.map fun token =>
    .range (Compressor.run
      (Collection.additions (Keyed.under token (config.symbolsOf table)))).pattern token

theorem recordToken?_eq_some_iff {config : Config} {record : Record} {token : String} :
    config.recordToken? record = some token ↔
      config.effectiveMathClass record = token ∧ config.tokenFor? token = some token := by
  rw [recordToken?, tokenFor?, tokenFor?]
  constructor
  · intro isToken
    split at isToken
    · rename_i listed
      obtain rfl := Option.some.inj isToken
      exact ⟨rfl, if_pos listed⟩
    · cases isToken
  · rintro ⟨rfl, isToken⟩
    exact isToken

theorem symbolOf?_eq_some_iff {config : Config} {record : Record} {token : String}
    {symbol : CodePoint} :
    config.symbolOf? record = some (token, symbol) ↔
      record.codePoints = [symbol] ∧ IsScalar symbol.toNat ∧
        config.recordToken? record = some token ∧ config.isRangeExcluded symbol = false := by
  constructor
  · intro collected
    unfold symbolOf? at collected
    split at collected
    · rename_i text name only written isToken isSingle
      split at collected
      · cases collected
      · rename_i included
        obtain ⟨rfl, rfl⟩ := Prod.mk.inj (Option.some.inj collected)
        exact ⟨Record.single?_eq_some_iff.1 isSingle, Record.isScalar_of_single? written isSingle,
          isToken, Bool.not_eq_true _ ▸ included⟩
    · cases collected
  · rintro ⟨isOnly, isScalar, isToken, included⟩
    obtain ⟨text, written⟩ : ∃ text, record.escaped = .ok text := by
      rw [Record.exists_escaped_iff, isOnly]
      intro other member
      obtain rfl := List.mem_singleton.1 member
      exact isScalar
    simp [symbolOf?, written, isToken, Record.single?_eq_some_iff.2 isOnly, included]

/-- Whether a symbol can be collected under a token, by some record or other. -/
structure MayCollect (config : Config) (symbol : String × CodePoint) : Prop where
  isScalar : IsScalar symbol.2.toNat
  included : symbol.2 ∉ config.rangeExclusions
  isToken : config.tokenFor? symbol.1 = some symbol.1

theorem mayCollect_of_symbolOf? {config : Config} {record : Record} {symbol : String × CodePoint}
    (found : config.symbolOf? record = some symbol) : config.MayCollect symbol := by
  obtain ⟨-, isScalar, isToken, included⟩ := symbolOf?_eq_some_iff.1 found
  refine ⟨isScalar, ?_, (recordToken?_eq_some_iff.1 isToken).2⟩
  simpa [isRangeExcluded] using included

end Config

namespace Generator

/-- A new generator gives the rules of each record in order, and then the range rules. -/
theorem rules_of_generate {config : Config} {policy : Policy} {table : String} {rules : List Rule}
    (generated : (Generator.mk config []).generate policy table = .ok rules) :
    rules = (Table.records table).flatMap config.rulesOf ++ config.rangeRules table := by
  obtain ⟨given, last, fed, rfl⟩ := generate_eq_ok_iff.1 generated
  obtain ⟨rfl, rfl⟩ := feedEntries_eq_ok fed
  have scalars : ∀ symbol ∈ config.symbolsOf table, IsScalar symbol.2.toNat := by
    intro symbol member
    obtain ⟨record, -, collected⟩ := List.mem_filterMap.1 member
    exact (Config.mayCollect_of_symbolOf? collected).isScalar
  have ranges : (collectAll ⟨config, []⟩ (config.symbolsOf table)).finish =
      config.rangeRules table := by
    rw [finish, collectAll, Collection.filled_foldl_collect scalars, Collection.foldl_collect,
      List.map_map]
    rfl
  exact congrArg (_ ++ ·) ranges

end Generator

end SymbolRules
