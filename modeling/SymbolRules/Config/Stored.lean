import SymbolRules.Config.Basic
import SymbolRules.Json.Reader
import SymbolRules.Json.Printer

/-!
# Stored configurations

A configuration is stored as a JSON object with a member for each of its tables.
A stored configuration needs only the members that it changes: any table that is
missing keeps its default.
-/

namespace SymbolRules

open Json (Shape Value)

/-- A code point is read as a number, which the reader has bounded. -/
def readCodePoint? (value : Value) : Option CodePoint := value.number?.map UInt32.ofNat

namespace MathClassOverride

/-- Both members are required. -/
def shape : Shape :=
  .record [⟨"code_point", .number, true⟩, ⟨"mathclass", .string, true⟩]

/-- The stored form. -/
def toValue (override : MathClassOverride) : Value :=
  .object [("code_point", .number override.codePoint.toNat),
    ("mathclass", .string override.mathClass)]

/-- Reads the stored form. -/
def ofValue? (value : Value) : Option MathClassOverride := do
  let codePoint ← (← value.member? "code_point") |> readCodePoint?
  let mathClass ← (← value.member? "mathclass").string?
  return ⟨codePoint, mathClass⟩

end MathClassOverride

namespace ExtraCommand

/-- Both members are required. -/
def shape : Shape :=
  .record [⟨"code_point", .number, true⟩, ⟨"command", .string, true⟩]

/-- The stored form. -/
def toValue (extra : ExtraCommand) : Value :=
  .object [("code_point", .number extra.codePoint.toNat), ("command", .string extra.command)]

/-- Reads the stored form. -/
def ofValue? (value : Value) : Option ExtraCommand := do
  let codePoint ← (← value.member? "code_point") |> readCodePoint?
  let command ← (← value.member? "command").string?
  return ⟨codePoint, command⟩

end ExtraCommand

namespace TokenClasses

/-- Each list may be missing. -/
def shape : Shape :=
  .record [⟨"exact", .list .string, false⟩, ⟨"prefixes", .list .string, false⟩]

/-- The stored form. -/
def toValue (tokens : TokenClasses) : Value :=
  .object [("exact", .array (tokens.exact.map .string)),
    ("prefixes", .array (tokens.prefixes.map .string))]

/-- Reads the stored form; a missing list keeps its default. -/
def ofValue? (value : Value) : Option TokenClasses := do
  let default : TokenClasses := {}
  let strings := Value.listOf? Value.string?
  return {
    exact := ← value.memberOr "exact" default.exact strings
    prefixes := ← value.memberOr "prefixes" default.prefixes strings }

end TokenClasses

namespace Config

/-- Each table may be missing. -/
def shape : Shape :=
  .record
    [⟨"mathclass_overrides", .list MathClassOverride.shape, false⟩,
      ⟨"extra_commands", .list ExtraCommand.shape, false⟩,
      ⟨"rejected_commands", .list .string, false⟩,
      ⟨"rejected_fragments", .list .string, false⟩,
      ⟨"tokens", TokenClasses.shape, false⟩,
      ⟨"range_exclusions", .list .number, false⟩]

/-- The stored form with all tables. -/
def toValue (config : Config) : Value :=
  .object
    [("mathclass_overrides", .array (config.mathClassOverrides.map (·.toValue))),
      ("extra_commands", .array (config.extraCommands.map (·.toValue))),
      ("rejected_commands", .array (config.rejectedCommands.map .string)),
      ("rejected_fragments", .array (config.rejectedFragments.map .string)),
      ("tokens", config.tokens.toValue),
      ("range_exclusions", .array (config.rangeExclusions.map (.number ·.toNat)))]

/-- Reads the stored form; a missing table keeps its default. -/
def ofValue? (value : Value) : Option Config := do
  let default : Config := {}
  let strings := Value.listOf? Value.string?
  return {
    mathClassOverrides := ← value.memberOr "mathclass_overrides" default.mathClassOverrides
      (Value.listOf? MathClassOverride.ofValue?)
    extraCommands := ← value.memberOr "extra_commands" default.extraCommands
      (Value.listOf? ExtraCommand.ofValue?)
    rejectedCommands := ← value.memberOr "rejected_commands" default.rejectedCommands strings
    rejectedFragments :=
      ← value.memberOr "rejected_fragments" default.rejectedFragments strings
    tokens := ← value.memberOr "tokens" default.tokens TokenClasses.ofValue?
    rangeExclusions := ← value.memberOr "range_exclusions" default.rangeExclusions
      (Value.listOf? readCodePoint?) }

/-- The text of a stored configuration. -/
def write (config : Config) : String := String.ofList config.toValue.compact

/-- Reads the text of a stored configuration. -/
def read (text : String) : Except Json.Fault Config :=
  match Json.read shape text with
  | .error fault => .error fault
  | .ok value =>
      match ofValue? value with
      | none => .error .mismatch
      | some config => .ok config

end Config

end SymbolRules
