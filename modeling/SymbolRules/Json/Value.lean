/-!
# JSON values

The JSON values that this library reads and writes: natural numbers, strings,
arrays and objects. The members of an object keep their order.
-/

namespace SymbolRules

namespace Json

/-- A JSON value without booleans, nulls and fractions. -/
inductive Value where
  | number (n : Nat)
  | string (s : String)
  | array (items : List Value)
  | object (members : List (String × Value))

namespace Value

/-- The number that a value is. -/
def number? : Value → Option Nat
  | number n => some n
  | _ => none

/-- The string that a value is. -/
def string? : Value → Option String
  | string s => some s
  | _ => none

/-- The elements of an array. -/
def items? : Value → Option (List Value)
  | array items => some items
  | _ => none

/-- The first member of an object under the given name. -/
def member? (name : String) : Value → Option Value
  | object members => members.lookup name
  | _ => none

/-- Reads all elements of an array. -/
def listOf? {α : Type} (read : Value → Option α) (value : Value) : Option (List α) :=
  value.items?.bind (List.mapM read)

/-- Reads a member, or takes `default` if there is none. -/
def memberOr {α : Type} (name : String) (default : α) (read : Value → Option α)
    (value : Value) : Option α :=
  match value.member? name with
  | none => some default
  | some found => read found

end Value

end Json

end SymbolRules
