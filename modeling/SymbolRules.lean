import SymbolRules.Main
import SymbolRules.Proofs.CharClass.Arithmetic
import SymbolRules.Proofs.CharClass.Ascending
import SymbolRules.Proofs.CharClass.Closing
import SymbolRules.Proofs.Cli.Generation
import SymbolRules.Proofs.Config.Partial
import SymbolRules.Proofs.Config.Writing
import SymbolRules.Proofs.Generator.Chunks
import SymbolRules.Proofs.Generator.Escaping
import SymbolRules.Proofs.Generator.Exclusions
import SymbolRules.Proofs.Generator.Grammar
import SymbolRules.Proofs.Generator.Invariant
import SymbolRules.Proofs.Generator.Layout
import SymbolRules.Proofs.Generator.Readable
import SymbolRules.Proofs.Generator.Refusals
import SymbolRules.Proofs.Generator.Verdict
import SymbolRules.Proofs.Table.Grammar
import SymbolRules.Proofs.Table.Layout
import SymbolRules.Proofs.Table.Writing
import SymbolRules.Proofs.Utf16.Encoding
import SymbolRules.Proofs.CharClass.Equivalence
import SymbolRules.Proofs.Generator.Commands
import SymbolRules.Proofs.Json.Truncation
import SymbolRules.Proofs.Json.Unknown
import SymbolRules.Proofs.Json.Acceptance
import SymbolRules.Proofs.Config.Truncation
import SymbolRules.Proofs.Cli.CodePoints
import SymbolRules.Proofs.Cli.Encoding
import SymbolRules.Proofs.Rule.Stored
import SymbolRules.Proofs.Cli.Listing
