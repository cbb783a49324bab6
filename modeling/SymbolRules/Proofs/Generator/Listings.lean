import SymbolRules.Proofs.Generator.Held

/-!
# Listing symbols in between

Listing the symbols of a generator closes its intervals. It answers what finishing the generator
would answer, however often it is done (`Generator.ranges_after_replicate`). To what comes later it
makes no difference but for where intervals end: every other request is answered as it would be
without (`Generator.filter_transcript`), and in the end the range rules list the same scalar values
(`Generator.transcript_without_listings`).
-/

namespace SymbolRules

/-- The range rule of the symbols listed for a token. -/
def TokenRanges.rule (listed : TokenRanges) : Rule := .range listed.pattern listed.token

/-- The token and the pattern of a range rule. -/
def Rule.range? : Rule → Option (String × String)
  | range pattern token => some (token, pattern)
  | _ => none

theorem Collection.filled_map_close (collection : Collection) :
    Collection.filled (collection.map fun row => (row.1, row.2.close)) =
      collection.filled.map fun row => (row.1, row.2.close) := by
  rw [filled, filled, List.filter_map]
  congr 1
  apply List.filter_congr
  intro row _
  rw [Function.comp_apply, Compressor.isEmpty_close]

namespace Generator

/-- Finishing gives the range rules of what is listed, in the same order. -/
theorem finish_eq_map_ranges (generator : Generator) :
    generator.finish = generator.ranges.map TokenRanges.rule := by
  rw [finish, ranges, List.map_map]
  rfl

/-- Feeding a table gives no range rules. -/
theorem filterMap_range?_feed {generator last : Generator} {policy : Policy} {table : String}
    {rules : List Rule} (fed : generator.feed policy table = (.ok rules, last)) :
    rules.filterMap Rule.range? = [] := by
  rw [(feedEntries_eq_ok fed).1, List.filterMap_eq_nil_iff]
  intro rule member
  obtain ⟨record, -, isRule⟩ := List.mem_flatMap.1 member
  obtain ⟨_, _, -, -, ⟨_, -, rfl⟩ | ⟨-, rfl⟩⟩ := Config.mem_rulesOf.1 isRule
  · rfl
  · rfl

/-- The range rules of a table have the tokens and patterns listed when it has been fed. -/
theorem filterMap_range?_generate {generator last : Generator} {policy : Policy} {table : String}
    {given rules : List Rule} (fed : generator.feed policy table = (.ok given, last))
    (generated : generator.generate policy table = .ok rules) :
    rules.filterMap Rule.range? = last.ranges.map fun entry => (entry.token, entry.pattern) := by
  obtain ⟨others, final, fedToo, rfl⟩ := generate_eq_ok_iff.1 generated
  obtain ⟨-, rfl⟩ := Prod.mk.inj (fed.symm.trans fedToo)
  rw [List.filterMap_append, filterMap_range?_feed fedToo, List.nil_append, finish_eq_map_ranges,
    List.filterMap_map]
  exact congrFun List.filterMap_eq_map last.ranges

theorem ranges_close (generator : Generator) : generator.close.ranges = generator.ranges := by
  have closed := Collection.filled_map_close generator.collected
  rw [ranges, ranges, close, closed, List.map_map]
  apply List.map_congr_left
  intro row _
  simp only [Function.comp_apply, Compressor.pattern_close, Compressor.closedGroups_close]

/-- Listing any number of times lists the same, and leaves the same rules to finish with. -/
theorem ranges_after_replicate (generator : Generator) (times : Nat) :
    (generator.after (List.replicate times .ranges)).ranges = generator.ranges ∧
      (generator.after (List.replicate times .ranges)).finish = generator.finish := by
  suffices same : (generator.after (List.replicate times .ranges)).ranges = generator.ranges by
    rw [finish_eq_map_ranges, finish_eq_map_ranges, same]
    exact ⟨rfl, rfl⟩
  induction times generalizing generator with
  | zero => rfl
  | succ times ih => exact (ih generator.close).trans generator.ranges_close

/-- What is listed for each token is what its compressor answers when it is closed and then
    serialized as it stands. -/
theorem forall₂_ranges {generator : Generator} {symbols : List (String × CodePoint)}
    (holds : generator.collected.Holds symbols) :
    List.Forall₂ (fun row listed => listed.token = row.1 ∧ ∃ closed,
        row.2.perform .close = (.groups listed.groups, closed) ∧
        closed.perform .serialize = (.text listed.pattern, closed))
      generator.collected generator.ranges := by
  rw [ranges, holds.filled_eq, List.forall₂_map_right_iff, List.forall₂_same]
  intro row _
  refine ⟨rfl, row.2.close, rfl, ?_⟩
  have closedTwice : row.2.close.close = row.2.close := by
    rw [Compressor.close.eq_def row.2.close, Compressor.current_close]
  rw [Compressor.perform, Compressor.pattern_close, closedTwice]

/-- The text of a pattern listed joins the texts of the groups listed. -/
theorem pattern_eq_of_mem_ranges {generator : Generator} {listed : TokenRanges}
    (member : listed ∈ generator.ranges) :
    listed.pattern = "|".intercalate (listed.groups.map Group.text) := by
  obtain ⟨row, -, rfl⟩ := List.mem_map.1 member
  exact row.2.pattern_eq_intercalate

/-- The requests of a run, each with the reply to it. -/
def transcript (generator : Generator) : List Request → List (Request × Reply)
  | [] => []
  | request :: requests =>
      (request, (generator.answer request).1) ::
        transcript (generator.answer request).2 requests

/-- Leaving out the listings of a run leaves the other replies as they are, even if the generator
    holds something else: only the configuration counts. -/
theorem filter_transcript {first second : Generator} (same : first.config = second.config)
    (requests : List Request) :
    (first.transcript requests).filter (fun row => !row.1.isListing) =
      second.transcript (requests.filter (!·.isListing)) := by
  induction requests generalizing first second with
  | nil => rfl
  | cons request requests ih =>
      rw [transcript, List.filter_cons, List.filter_cons]
      cases listing : request.isListing with
      | true =>
          -- The first generator is closed now and the second is not, but both keep their
          -- configuration, and nothing else is asked of them.
          have left : (first.answer request).2.config = second.config := by
            rw [config_answer, same]
          exact ih left
      | false =>
          have left : (first.answer request).2.config = (second.answer request).2.config := by
            rw [config_answer, config_answer, same]
          simp only [Bool.not_false, if_true, transcript]
          rw [ih left, fst_answer_congr same listing]

theorem flatMap_symbols_filter (config : Config) (requests : List Request) :
    (requests.filter (!·.isListing)).flatMap (Request.symbols config) =
      requests.flatMap (Request.symbols config) := by
  induction requests with
  | nil => rfl
  | cons request requests ih =>
      cases request with
      | ranges => exact ih
      | _ => exact congrArg (_ ++ ·) ih

/-- Generators that hold the same symbols end with range rules for the same tokens, which list the
    same scalar values. -/
theorem forall₂_finish {first second : Generator} {symbols : List (String × CodePoint)}
    (holds : first.collected.Holds symbols) (others : second.collected.Holds symbols) :
    List.Forall₂ (fun rule other => ∃ token pattern text listing,
        rule = .range pattern token ∧ other = .range text token ∧
        Pattern.listing? pattern = some listing ∧ Pattern.listing? text = some listing)
      first.finish second.finish := by
  obtain ⟨compressors, isFirst, held⟩ := exists_finish_eq holds
  obtain ⟨replacements, isSecond, heldToo⟩ := exists_finish_eq others
  rw [isFirst, isSecond, List.forall₂_map_left_iff, List.forall₂_map_right_iff, List.forall₂_same]
  intro token isKey
  have used := List.mem_eraseDups.1 isKey
  exact ⟨token, _, _, _, rfl, rfl, (held token used).listing?_pattern,
    (heldToo token used).listing?_pattern⟩

/-- Leaving out all listings of a run changes no other reply. The run ends with range rules for the
    same tokens in the same order, and the two patterns of a token list the same scalar values under
    the same high units, in the same order and as often. -/
theorem transcript_without_listings (config : Config) (requests : List Request) :
    let kept := requests.filter (!·.isListing)
    (transcript ⟨config, []⟩ requests).filter (fun row => !row.1.isListing) =
        transcript ⟨config, []⟩ kept ∧
      List.Forall₂ (fun rule other => ∃ token pattern text listing,
          rule = .range pattern token ∧ other = .range text token ∧
          Pattern.listing? pattern = some listing ∧ Pattern.listing? text = some listing)
        (reached config requests).finish (reached config kept).finish := by
  intro kept
  have holds := holds_reached config requests
  have others := holds_reached config kept
  rw [flatMap_symbols_filter] at others
  exact ⟨filter_transcript rfl requests, forall₂_finish holds others⟩

end Generator

end SymbolRules
