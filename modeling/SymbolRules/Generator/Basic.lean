import SymbolRules.Config.Basic
import SymbolRules.Rule

/-!
# Generating rules

A generator turns records into rules. Command rules, and literal rules for symbols
of several code points, are given at once. Symbols of one code point are collected
under their token, and give one range rule for each token at the end. Tokens keep
the order in which they first collected a symbol.
-/

namespace SymbolRules

/-- Why no rules could be generated. -/
inductive GenerateError where
  | malformed (malformed : Malformed)
  | invalidCodePoint (line : Nat) (fault : InvalidCodePoint)
  deriving DecidableEq, Repr

/-- The wording of an error, which begins with the number of the line. -/
def GenerateError.message : GenerateError → String
  | malformed fault => fault.message
  | invalidCodePoint line fault => linePosition line ++ fault.message

/-- What happens to a line that gives no rules because of an error. -/
inductive Policy where
  /-- The error ends the run. -/
  | abort
  /-- The line is left out. -/
  | skip
  deriving DecidableEq, Repr

/-- The compressors of the tokens that have collected symbols. -/
abbrev Collection := List (String × Compressor)

namespace Collection

/-- Adds a symbol to the compressor of a token. A token that has none gets a new one
    behind all others, whether the symbol can be added to it or not. -/
def add (token : String) (value : Int) : Collection →
    Except InvalidCodePoint Unit × Collection
  | [] =>
      match Compressor.empty.add value with
      | .ok compressor => (.ok (), [(token, compressor)])
      | .error fault => (.error fault, [(token, .empty)])
  | (name, compressor) :: rest =>
      if name = token then
        match compressor.add value with
        | .ok compressor => (.ok (), (name, compressor) :: rest)
        | .error fault => (.error fault, (name, compressor) :: rest)
      else
        let (outcome, rest) := add token value rest
        (outcome, (name, compressor) :: rest)

/-- The tokens that have symbols, with their compressors. -/
def filled (collection : Collection) : Collection := collection.filter (!·.2.isEmpty)

end Collection

/-- A configuration and the symbols collected so far. -/
structure Generator where
  config : Config := {}
  collected : Collection := []
  deriving DecidableEq, Repr

namespace Generator

/-- Takes a record and gives the rules that it leads to at once. An error may come
    only from a code point that is not a scalar value; it is reported even if the
    record has no token. -/
def update (generator : Generator) (record : Record) :
    Except GenerateError (List Rule) × Generator :=
  match record.escaped with
  | .error fault => (.error (.invalidCodePoint record.line fault), generator)
  | .ok text =>
      match generator.config.recordToken? record with
      | none => (.ok [], generator)
      | some token =>
          let commands := (generator.config.commandsFor record).map (.command · text token)
          match record.single? with
          | none => (.ok (commands ++ [.literal text token]), generator)
          | some codePoint =>
              if generator.config.isRangeExcluded codePoint then (.ok commands, generator)
              else
                let (outcome, collected) :=
                  Collection.add token codePoint.toNat generator.collected
                let generator := { generator with collected }
                match outcome with
                | .ok () => (.ok commands, generator)
                | .error fault => (.error (.invalidCodePoint record.line fault), generator)

/-- Takes what a line of a table contributes. -/
def take (generator : Generator) (entry : Except Malformed Record) :
    Except GenerateError (List Rule) × Generator :=
  match entry with
  | .ok record => generator.update record
  | .error malformed => (.error (.malformed malformed), generator)

/-- Takes the records and malformed lines of a table in order. -/
def feedEntries (generator : Generator) (policy : Policy) :
    List (Except Malformed Record) → Except GenerateError (List Rule) × Generator
  | [] => (.ok [], generator)
  | entry :: rest =>
      match generator.take entry, policy with
      | (.ok rules, next), _ =>
          let (outcome, last) := next.feedEntries policy rest
          (outcome.map (rules ++ ·), last)
      | (.error _, next), .skip => next.feedEntries policy rest
      | (.error error, next), .abort => (.error error, next)

/-- Takes the lines of a table. What was collected before an error stays
    collected. -/
def feed (generator : Generator) (policy : Policy) (table : String) :
    Except GenerateError (List Rule) × Generator :=
  generator.feedEntries policy (Table.entries table)

/-- The symbols collected for each token. -/
def ranges (generator : Generator) : List TokenRanges :=
  generator.collected.filled.map fun (token, compressor) =>
    { token, pattern := compressor.pattern, groups := compressor.closedGroups }

/-- The generator after its symbols have been listed: no interval can be extended
    any more. -/
def close (generator : Generator) : Generator :=
  { generator with
    collected := generator.collected.map fun (token, compressor) =>
      (token, compressor.close) }

/-- The range rules of the symbols collected. -/
def finish (generator : Generator) : List Rule :=
  generator.collected.filled.map fun (token, compressor) =>
    .range compressor.pattern token

/-- All rules of a table, with the range rules at the end. -/
def generate (generator : Generator) (policy : Policy) (table : String) :
    Except GenerateError (List Rule) :=
  match generator.feed policy table with
  | (.ok rules, last) => .ok (rules ++ last.finish)
  | (.error error, _) => .error error

end Generator

end SymbolRules
