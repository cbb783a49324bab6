import SymbolRules.Proofs.Cli.Generation
import SymbolRules.Proofs.Generator.Listings
import SymbolRules.Proofs.Rule.Stored

/-!
# Printing symbols

The command that prints the symbols of tokens and the one that writes rules take the same steps up
to their output. So they fail alike, or the range rules written have the tokens and patterns that
are printed (`Cli.ranges_agree_with_rules`). What is printed is one JSON text and a line feed, and
the symbols are read back from it, whatever characters their tokens have
(`Cli.ranges_read_back`).
-/

namespace SymbolRules

namespace Cli

open Json (Tree)

section Surroundings

variable {σ : Type} [Host (StateM σ)] [Surroundings σ]
variable {state : σ} {input output config : Option String} {policy : Policy}
  {failure : Failure}

/-- A step that fails without an output to create fails with one, too. -/
theorem FirstFailure.of_none (failing : FirstFailure state input none config policy failure) :
    FirstFailure state input output config policy failure := by
  cases failing with
  | table refused => exact .table refused
  | configFile readable given refused => exact .configFile readable given refused
  | configText readable given holds invalid => exact .configText readable given holds invalid
  | generation readable configured failed => exact .generation readable configured failed
  | creation readable configured generated given refused => cases given

theorem runIn_ranges_of_firstFailure
    (failing : FirstFailure state input none config policy failure) :
    runIn state (perform (.ranges input config policy)) = (.error failure, state) := by
  rw [runIn_perform_ranges]
  rcases failing.steps with failed | ⟨table, settings, sources, ⟨error, failed, rfl⟩ |
    ⟨rules, path, fault, -, given, -⟩⟩
  · rw [failed]
  · obtain ⟨last, fed⟩ := Generator.generate_eq_error_iff.1 failed
    simp only [sources, fed]
  · cases given

theorem runIn_ranges_of_fed {table : String} {settings : Config} {given : List Rule}
    {generator : Generator} (readable : Holds state input table)
    (configured : Configures state config settings)
    (fed : Generator.feed { config := settings } policy table = (.ok given, generator)) :
    runIn state (perform (.ranges input config policy)) =
      (.ok (), Surroundings.printed state (rangesText generator.ranges)) := by
  have sources := sourcesOf_eq_ok_iff.2 ⟨readable, configured⟩
  simp only [runIn_perform_ranges, sources, fed]

/-- With rules for a table, an output is left or cannot be created. -/
theorem runIn_generate_creates {table : String} {settings : Config} {rules : List Rule}
    (readable : Holds state input table) (configured : Configures state config settings)
    (generated : Generator.generate { config := settings } policy table = .ok rules) :
    (∃ left, runIn state (perform (.generate input output config policy)) = (.ok (), left) ∧
        LeavesOutput state left (Rule.render rules) output) ∨
      ∃ path ∈ output, ∃ fault, Surroundings.creation state path = .error fault ∧
        runIn state (perform (.generate input output config policy)) =
          (.error (.uncreatableFile path fault), state) := by
  by_cases refused : ∃ path ∈ output, ∃ fault, Surroundings.creation state path = .error fault
  · obtain ⟨path, given, fault, refused⟩ := refused
    have failing : FirstFailure state input output config policy (.uncreatableFile path fault) :=
      .creation readable configured generated given refused
    exact .inr ⟨path, given, fault, refused, runIn_generate_of_firstFailure failing⟩
  · refine .inl (runIn_generate_of_yields ⟨table, settings, readable, configured, generated, ?_⟩)
    intro path given
    cases created : Surroundings.creation state path with
    | ok file => exact ⟨file, rfl⟩
    | error fault => exact absurd ⟨path, given, fault, created⟩ refused

/-- In any surroundings the command that writes the rules of a table and the one that prints its
    symbols fail alike, or the first one generates the rules of the table and the second one
    prints what is listed of it. Then the range rules have the tokens and patterns listed. -/
theorem runIn_generate_or_ranges (state : σ) (input output config : Option String)
    (policy : Policy) :
    (∃ failure, FirstFailure state input none config policy failure ∧
      runIn state (perform (.generate input output config policy)) = (.error failure, state) ∧
      runIn state (perform (.ranges input config policy)) = (.error failure, state)) ∨
    ∃ table settings rules given generator, Holds state input table ∧
      Configures state config settings ∧
      Generator.generate { config := settings } policy table = .ok rules ∧
      Generator.feed { config := settings } policy table = (.ok given, generator) ∧
      rules.filterMap Rule.range? =
        generator.ranges.map (fun entry => (entry.token, entry.pattern)) ∧
      runIn state (perform (.ranges input config policy)) =
        (.ok (), Surroundings.printed state (rangesText generator.ranges)) ∧
      ((∃ left, runIn state (perform (.generate input output config policy)) = (.ok (), left) ∧
          LeavesOutput state left (Rule.render rules) output) ∨
        ∃ path ∈ output, ∃ fault, Surroundings.creation state path = .error fault ∧
          runIn state (perform (.generate input output config policy)) =
            (.error (.uncreatableFile path fault), state)) := by
  rcases yields_or_firstFailure state input none config policy with
    ⟨rules, table, settings, readable, configured, generated, -⟩ | ⟨failure, failing⟩
  · obtain ⟨given, generator, fed, -⟩ := Generator.generate_eq_ok_iff.1 generated
    exact .inr ⟨table, settings, rules, given, generator, readable, configured, generated, fed,
      Generator.filterMap_range?_generate fed generated,
      runIn_ranges_of_fed readable configured fed,
      runIn_generate_creates readable configured generated⟩
  · exact .inl ⟨failure, failing, runIn_generate_of_firstFailure failing.of_none,
      runIn_ranges_of_firstFailure failing⟩

end Surroundings

/-- Listing the symbols of a generator and finishing it give the same tokens and patterns, whatever
    requests led to it and whatever of it was closed. Each token is listed as its compressor
    answers when it is closed and then serialized, and its pattern joins the texts of its groups.
    Listing any number of times changes neither. So the two commands on a table fail alike, in the
    first step that fails, or the one writes the rules of the table, unless its output cannot be
    created, and the other one prints what is listed of the table: the same tokens and patterns as
    in the range rules, in the same order. -/
theorem ranges_agree_with_rules :
    (∀ config requests,
      let generator := Generator.reached config requests
      generator.finish = generator.ranges.map TokenRanges.rule ∧
      List.Forall₂ (fun row listed => listed.token = row.1 ∧ ∃ closed,
          row.2.perform .close = (.groups listed.groups, closed) ∧
          closed.perform .serialize = (.text listed.pattern, closed))
        generator.collected generator.ranges ∧
      (∀ listed ∈ generator.ranges,
        listed.pattern = "|".intercalate (listed.groups.map Group.text)) ∧
      ∀ times,
        (generator.after (List.replicate times .ranges)).ranges = generator.ranges ∧
        (generator.after (List.replicate times .ranges)).finish = generator.finish) ∧
    ∀ (directory : Directory) (args others : List String) (input output config : Option String)
      (policy : Policy), Command.parse args = some (.generate input output config policy) →
      Command.parse others = some (.ranges input config policy) →
      (∃ failure, FirstFailure directory input none config policy failure ∧
        runFrom directory args = (.failure failure, directory) ∧
        runFrom directory others = (.failure failure, directory)) ∨
      ∃ table settings rules given generator, Holds directory input table ∧
        Configures directory config settings ∧
        Generator.generate { config := settings } policy table = .ok rules ∧
        Generator.feed { config := settings } policy table = (.ok given, generator) ∧
        rules.filterMap Rule.range? =
          generator.ranges.map (fun entry => (entry.token, entry.pattern)) ∧
        runFrom directory others = (.success, { directory with
          output := directory.output ++ rangesText generator.ranges }) ∧
        ((∃ left, runFrom directory args = (.success, left) ∧
            LeavesOutput directory left (Rule.render rules) output) ∨
          ∃ path ∈ output, ∃ fault, directory.creation path = .error fault ∧
            runFrom directory args = (.failure (.uncreatableFile path fault), directory)) := by
  refine ⟨fun config requests => ?_, ?_⟩
  · intro generator
    have holds := Generator.holds_reached config requests
    exact ⟨generator.finish_eq_map_ranges, Generator.forall₂_ranges holds,
      fun _ => Generator.pattern_eq_of_mem_ranges, generator.ranges_after_replicate⟩
  · intro directory args others input output config policy parsed parsedToo
    rw [runFrom_of_parse parsed, runFrom_of_parse parsedToo]
    rcases runIn_generate_or_ranges directory input output config policy with
      ⟨failure, failing, ran, ranToo⟩ | ⟨table, settings, rules, given, generator, readable,
        configured, generated, fed, same, printed, written⟩
    · rw [ran, ranToo]
      exact .inl ⟨failure, failing, rfl, rfl⟩
    · rw [printed]
      refine .inr ⟨table, settings, rules, given, generator, readable, configured, generated, fed,
        same, rfl, ?_⟩
      rcases written with ⟨left, written, leaves⟩ | ⟨path, isOutput, fault, refused, failed⟩
      · rw [written]
        exact .inl ⟨left, rfl, leaves⟩
      · rw [failed]
        exact .inr ⟨path, isOutput, fault, refused, rfl⟩

/-- A token is listed under two high units and another one comes from the configuration. The rules
    have a command and a literal besides, and a bad line is skipped. -/
theorem ranges_agree_with_rules_skipping :
    let stored := "\x7b\"mathclass_overrides\":[[66,\"NUM\"]]\x7d"
    let table := "U00041 A\nU00042 A\nU1D49C A \\calA\nU00041-00301 A\nU0D800 A\nU00043 A\n"
    let directory : Directory := { files := [("config", stored.toUTF8)], input := table.toUTF8 }
    let args := ["generate", "--skip-invalid", "--config", "config"]
    let others := ["ranges", "--skip-invalid", "--config", "config"]
    let listed : List TokenRanges :=
      [⟨"A", "[\\u0041\\u0043]|\\uD835\\uDC9C",
          [⟨0, [⟨0x41, 0x41⟩, ⟨0x43, 0x43⟩]⟩, ⟨0xD835, [⟨0xDC9C, 0xDC9C⟩]⟩]⟩,
        ⟨"NUM", "\\u0042", [⟨0, [⟨0x42, 0x42⟩]⟩]⟩]
    Command.parse args = some (.generate none none (some "config") .skip) ∧
      Command.parse others = some (.ranges none (some "config") .skip) ∧
      ∃ rules, rules.filterMap Rule.range? =
          listed.map (fun entry => (entry.token, entry.pattern)) ∧
        (runFrom directory others).1 = .success ∧
        (runFrom directory others).2.output = rangesText listed ∧
        (runFrom directory args).1 = .success ∧
        (runFrom directory args).2.output = Rule.render rules := by
  intro stored table directory args others listed
  have parsed : Command.parse args = some (.generate none none (some "config") .skip) := by
    decide +kernel
  have parsedToo : Command.parse others = some (.ranges none (some "config") .skip) := by
    decide +kernel
  refine ⟨parsed, parsedToo, ?_⟩
  let settings : Config := { mathClassOverrides := [⟨66, "NUM"⟩] }
  have readable : Holds directory none table := rfl
  have configured : Configures directory (some "config") settings := by
    exact ⟨stored, rfl, by decide +kernel⟩
  have isListed : (Generator.feed { config := settings } .skip table).2.ranges = listed := by
    decide +kernel
  have agree := ranges_agree_with_rules.2 directory args others none none (some "config") .skip
    parsed parsedToo
  rcases agree with ⟨failure, -, -, failed⟩ | ⟨found, foundSettings, rules, given, generator, holds,
    configures, -, fed, same, printed, ⟨left, written, leaves⟩ | ⟨path, isOutput, -⟩⟩
  · have succeeds : (runFrom directory others).1.exitCode = 0 := by decide +kernel
    rw [failed] at succeeds
    cases succeeds
  · obtain rfl := readable.unique holds
    obtain rfl := configured.unique configures
    rw [fed] at isListed
    rw [isListed] at same printed
    rw [printed, written]
    exact ⟨rules, same, rfl, String.empty_append, rfl, leaves.2.1.trans String.empty_append⟩
  · cases isOutput

/-! ### Reading back -/

/-- What is printed is a text of the listed symbols and a line feed. -/
theorem exists_text_of_rangesText (listed : List TokenRanges) :
    ∃ text, rangesText listed = text ++ "\n" ∧
      (Json.Value.array (listed.map (·.toValue))).tree.IsText text.toList := by
  refine ⟨.ofList ((Json.Value.array (listed.map (·.toValue))).pretty 0), ?_, ?_⟩
  · rw [rangesText, String.ofList_append]
  · rw [String.toList_ofList]
    exact Json.Value.isText_pretty 0 _

/-- If the command that prints symbols succeeds, it has taken all lines of a table with a
    configuration, and prints what was collected. -/
theorem exists_fed_of_ranges {directory : Directory} {args : List String}
    {input config : Option String} {policy : Policy}
    (parsed : Command.parse args = some (.ranges input config policy))
    (succeeded : (runFrom directory args).1.exitCode = 0) :
    ∃ table settings rules generator, Holds directory input table ∧
      Configures directory config settings ∧
      Generator.feed { config := settings } policy table = (.ok rules, generator) ∧
      (runFrom directory args).2 =
        { directory with output := directory.output ++ rangesText generator.ranges } := by
  rw [runFrom_of_parse parsed] at succeeded ⊢
  rcases runIn_generate_or_ranges directory input none config policy with
    ⟨failure, -, -, failed⟩ | ⟨table, settings, -, given, generator, readable, configured, -, fed,
      -, printed, -⟩
  · rw [failed] at succeeded
    exact absurd succeeded Nat.one_ne_zero
  · rw [printed]
    exact ⟨table, settings, given, generator, readable, configured, fed, rfl⟩

/-- If the command that prints symbols succeeds, it prints one JSON text and a line feed, and from
    that text the symbols are read that the table gives with the configuration: the same tokens,
    patterns, groups and intervals in the same order. The escapes of a pattern are left in it, and
    the characters of a token may be any. -/
theorem ranges_read_back {directory : Directory} {args : List String}
    {input config : Option String} {policy : Policy}
    (parsed : Command.parse args = some (.ranges input config policy))
    (succeeded : (runFrom directory args).1.exitCode = 0) :
    ∃ table settings rules generator text, Holds directory input table ∧
      Configures directory config settings ∧
      Generator.feed { config := settings } policy table = (.ok rules, generator) ∧
      (runFrom directory args).2 =
        { directory with output := directory.output ++ (text ++ "\n") } ∧
      (∃ tree : Tree, tree.IsText text.toList) ∧
      TokenRanges.read text = .ok generator.ranges := by
  obtain ⟨table, settings, rules, generator, holds, configures, fed, left⟩ :=
    exists_fed_of_ranges parsed succeeded
  obtain ⟨text, printed, isText⟩ := exists_text_of_rangesText generator.ranges
  rw [printed] at left
  exact ⟨table, settings, rules, generator, text, holds, configures, fed, left, ⟨_, isText⟩,
    TokenRanges.read_of_isDocument isText.isDocument⟩

/-- Two symbols have a token of a quote, a backslash, a control character and a supplementary
    character, one of them through the configuration. A pattern is read back with its escapes. -/
theorem ranges_read_back_quotes :
    let stored := "\x7b\"mathclass_overrides\":[[66,\"\\\"\\\\\\u0001\\ud835\\udc9c\"]]," ++
      "\"tokens\":\x7b\"prefixes\":[\"\\\"\"]\x7d\x7d"
    let table := "U00041 \"\\\x01𝒜\nU00042 A\nU1D49C \"\n"
    let settings : Config :=
      { mathClassOverrides := [⟨66, "\"\\\x01𝒜"⟩], tokens := { prefixes := ["\""] } }
    let directory : Directory := { files := [("config", stored.toUTF8)], input := table.toUTF8 }
    let args := ["ranges", "--config", "config"]
    let listed : List TokenRanges :=
      [⟨"\"\\\x01𝒜", "[\\u0041\\u0042]", [⟨0, [⟨0x41, 0x42⟩]⟩]⟩,
        ⟨"\"", "\\uD835\\uDC9C", [⟨0xD835, [⟨0xDC9C, 0xDC9C⟩]⟩]⟩]
    Command.parse args = some (.ranges none (some "config") .abort) ∧
      (runFrom directory args).1.exitCode = 0 ∧
      Holds directory none table ∧ Configures directory (some "config") settings ∧
      (Generator.feed { config := settings } .abort table).2.ranges = listed ∧
      ∃ text, (runFrom directory args).2.output = text ++ "\n" ∧
        (∃ tree : Tree, tree.IsText text.toList) ∧ TokenRanges.read text = .ok listed := by
  intro stored table settings directory args listed
  have parsed : Command.parse args = some (.ranges none (some "config") .abort) := by
    decide +kernel
  have succeeded : (runFrom directory args).1.exitCode = 0 := by
    decide +kernel
  have readable : Holds directory none table := rfl
  have configured : Configures directory (some "config") settings := by
    exact ⟨stored, rfl, by decide +kernel⟩
  have isListed : (Generator.feed { config := settings } .abort table).2.ranges = listed := by
    decide +kernel
  refine ⟨parsed, succeeded, readable, configured, isListed, ?_⟩
  obtain ⟨found, foundSettings, rules, generator, text, holds, configures, fed, left, isText,
    isRead⟩ := ranges_read_back parsed succeeded
  obtain rfl := readable.unique holds
  obtain rfl := configured.unique configures
  rw [fed] at isListed
  rw [isListed] at isRead
  refine ⟨text, ?_, isText, isRead⟩
  rw [left]
  exact String.empty_append

end Cli

end SymbolRules
