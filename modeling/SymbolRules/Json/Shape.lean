/-!
# Shapes of JSON values

A shape tells which form a value must have. A record is written as an object, or as
an array of its members in their order, and optional members may be missing.
-/

namespace SymbolRules

namespace Json

/-- Why a text could not be read. -/
inductive Fault where
  /-- The text ends too early. -/
  | truncated
  /-- The text is not JSON. -/
  | malformed
  /-- A value is not of the shape, a required member is missing, or a member is
      given twice. -/
  | mismatch
  deriving DecidableEq, Repr

/-- The wording of a fault. -/
def Fault.message : Fault → String
  | truncated => "the text ends too early"
  | malformed => "the text is not well-formed"
  | mismatch => "the text does not have the expected content"

/-- A member of a record. -/
structure Member (σ : Type) where
  name : String
  shape : σ
  required : Bool := false

/-- The form that a value must have. Numbers are natural numbers of 32 bits. -/
inductive Shape where
  | number
  | string
  | list (element : Shape)
  | record (members : List (Member Shape))

end Json

end SymbolRules
