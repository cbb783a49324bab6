import SymbolRules.Proofs.Generator.Collected

/-!
# Requests to a generator

Until it is finished, a generator takes records and tables and lists the symbols collected so far.
A request that does more than list is answered from the configuration alone
(`Generator.fst_answer_congr`) and adds its own symbols to what was collected before, whether it
fails or not (`Generator.snd_answer`).
-/

namespace SymbolRules

namespace Config

theorem mayCollect_of_mem_symbolsOfEntries {config : Config} {policy : Policy}
    {entries : List (Except Malformed Record)} {symbol : String × CodePoint}
    (member : symbol ∈ config.symbolsOfEntries policy entries) : config.MayCollect symbol := by
  obtain ⟨record, -, found⟩ := List.mem_filterMap.1 member
  exact mayCollect_of_symbolOf? found

end Config

namespace Generator

/-- What a table is answered with depends on the rules of single records alone. -/
theorem fst_feed_congr {first second : Generator}
    (same : first.config.rulesOf = second.config.rulesOf) (policy : Policy) (table : String) :
    (first.feed policy table).1 = (second.feed policy table).1 := by
  rw [feed, feed, feedEntries_eq, feedEntries_eq, same]

/-- What can be asked of a generator that is not finished yet. -/
inductive Request where
  | update (record : Record)
  | feed (policy : Policy) (table : String)
  | ranges
  deriving DecidableEq, Repr

/-- What a request is answered with. -/
inductive Reply where
  | rules (outcome : Except GenerateError (List Rule))
  | ranges (listed : List TokenRanges)

/-- Answers a request. Listing the symbols closes all intervals. -/
def answer (generator : Generator) : Request → Reply × Generator
  | .update record => (.rules (generator.update record).1, (generator.update record).2)
  | .feed policy table => (.rules (generator.feed policy table).1, (generator.feed policy table).2)
  | .ranges => (.ranges generator.ranges, generator.close)

/-- A generator after further requests. -/
def after (generator : Generator) (requests : List Request) : Generator :=
  requests.foldl (fun generator request => (generator.answer request).2) generator

/-- A new generator after a list of requests, failed ones among them. -/
def reached (config : Config) (requests : List Request) : Generator :=
  after ⟨config, []⟩ requests

namespace Request

/-- Whether a request only lists what was collected so far. -/
def isListing : Request → Bool
  | ranges => true
  | _ => false

/-- The symbols that a request adds. -/
def symbols (config : Config) : Request → List (String × CodePoint)
  | update record => (config.symbolOf? record).toList
  | feed policy table => config.symbolsOfEntries policy (Table.entries table)
  | ranges => []

theorem mayCollect_of_mem_symbols {config : Config} {request : Request}
    {symbol : String × CodePoint} (member : symbol ∈ request.symbols config) :
    config.MayCollect symbol := by
  cases request with
  | update record => exact Config.mayCollect_of_symbolOf? (Option.mem_toList.1 member)
  | feed policy table => exact Config.mayCollect_of_mem_symbolsOfEntries member
  | ranges => cases member

end Request

theorem update_eq (generator : Generator) (record : Record) :
    (generator.update record).2 =
      generator.collectAll (generator.config.symbolOf? record).toList := by
  cases written : record.escaped with
  | ok text => rw [generator.update_of_escaped written]
  | error fault =>
      have nothing : generator.config.symbolOf? record = none := by
        rw [Config.symbolOf?, written]
      rw [generator.update_of_not_escaped written, nothing]
      rfl

/-- A request that does more than list leaves the generator with its symbols collected, whether it
    fails or not. -/
theorem snd_answer (generator : Generator) {request : Request}
    (collects : request.isListing = false) :
    (generator.answer request).2 =
      generator.collectAll (request.symbols generator.config) := by
  cases request with
  | update record => exact generator.update_eq record
  | feed policy table => exact congrArg Prod.snd (generator.feedEntries_eq policy _)
  | ranges => cases collects

theorem config_answer (generator : Generator) (request : Request) :
    (generator.answer request).2.config = generator.config := by
  cases listing : request.isListing with
  | false => rw [generator.snd_answer listing, config_collectAll]
  | true =>
      cases request with
      | ranges => rfl
      | _ => cases listing

/-- Rules and errors depend on the configuration of a generator, not on what it holds. -/
theorem fst_answer_congr {first second : Generator} (same : first.config = second.config)
    {request : Request} (collects : request.isListing = false) :
    (first.answer request).1 = (second.answer request).1 := by
  cases request with
  | update record =>
      refine congrArg Reply.rules ?_
      cases written : record.escaped with
      | ok text => rw [first.update_of_escaped written, second.update_of_escaped written, same]
      | error fault =>
          rw [first.update_of_not_escaped written, second.update_of_not_escaped written]
  | feed policy table =>
      exact congrArg Reply.rules (fst_feed_congr (congrArg Config.rulesOf same) policy table)
  | ranges => cases collects

theorem config_after (generator : Generator) (requests : List Request) :
    (generator.after requests).config = generator.config := by
  induction requests generalizing generator with
  | nil => rfl
  | cons request requests ih => exact (ih _).trans (generator.config_answer request)

end Generator

end SymbolRules
