import Mathlib.Data.List.SplitBy
import SymbolRules.CharClass.Compressor
import SymbolRules.Proofs.FirstUse
import SymbolRules.Proofs.Utf16.Units

/-!
# Histories of a compressor

A compressor is used through four operations. After any history of operations on an
empty compressor, its closed groups are those of a reading of the whole history at once
(`History.groups`): the scalar values added are cut into blocks of consecutive values,
each block is an interval, and intervals are gathered under their high units.
-/

namespace SymbolRules

namespace Compressor

/-- What can be asked of a compressor. -/
inductive Operation where
  | add (value : Int)
  | close
  | serialize
  | isEmpty
  deriving DecidableEq, Repr

/-- What an operation is answered with. -/
inductive Answer where
  | added (outcome : Except InvalidCodePoint Unit)
  | groups (groups : List Group)
  | text (pattern : String)
  | flag (isEmpty : Bool)

/-- Answers an operation. A value that is not a scalar value changes nothing; closing and
    serializing both commit the interval held back. -/
def perform (compressor : Compressor) : Operation → Answer × Compressor
  | .add value =>
      match compressor.add value with
      | .ok next => (.added (.ok ()), next)
      | .error fault => (.added (.error fault), compressor)
  | .close => (.groups compressor.closedGroups, compressor.close)
  | .serialize => (.text compressor.pattern, compressor.close)
  | .isEmpty => (.flag compressor.isEmpty, compressor)

/-- A compressor after further operations. -/
def after (compressor : Compressor) (history : List Operation) : Compressor :=
  history.foldl (fun compressor operation => (compressor.perform operation).2) compressor

/-- An empty compressor after a history of operations. -/
def run (history : List Operation) : Compressor := empty.after history

/-- What is answered to the operations of a history, one after another. -/
def answers (compressor : Compressor) : List Operation → List Answer
  | [] => []
  | operation :: history =>
      (compressor.perform operation).1 :: answers (compressor.perform operation).2 history

/-- Whether a value was taken. -/
def Answer.isTaken : Answer → Bool
  | added (.ok _) => true
  | _ => false

/-- Takes scalar values one after another. -/
def insertScalars (compressor : Compressor) (scalars : List Nat) : Compressor :=
  scalars.foldl (fun compressor scalar => compressor.insert (Pair.ofNat scalar)) compressor

namespace Operation

/-- The scalar value that an operation adds, if any. -/
def scalar? : Operation → Option Nat
  | add value => if IsScalar value then some value.toNat else none
  | _ => none

/-- Whether an operation ends the interval held back. -/
def closes : Operation → Bool
  | close | serialize => true
  | _ => false

end Operation

end Compressor

namespace History

open Compressor (Operation)

/-- The scalar values that were added, whatever else was tried. -/
def accepted (history : List Operation) : List Nat := history.filterMap Operation.scalar?

/-- The scalar values added between one closing operation and the next. -/
def stretches (history : List Operation) : List (List Nat) :=
  (history.splitOnP Operation.closes).map accepted

/-- Whether a scalar value is the next one, and does not begin a new block of 1024
    supplementary scalar values. -/
def follows (first second : Nat) : Bool :=
  second == first + 1 && !(0x10000 ≤ second && second % 0x400 == 0)

/-- The longest runs of consecutive scalar values that no closing operation interrupts. -/
def blocks (history : List Operation) : List (List Nat) :=
  (stretches history).flatMap (List.splitBy follows)

/-- The high unit that a scalar value is filed under. -/
def high (scalar : Nat) : CodeUnit := (Pair.ofNat scalar).high

/-- The unit of a scalar value under its high unit. -/
def low (scalar : Nat) : CodeUnit := (Pair.ofNat scalar).low

/-- The high unit of a block, read off its first scalar value. -/
def blockHigh (block : List Nat) : CodeUnit := high (block.headD 0)

/-- The interval from the first scalar value of a block to its last. -/
def blockInterval (block : List Nat) : Interval := ⟨low (block.headD 0), low (block.getLastD 0)⟩

/-- The groups of a history: one for each high unit in the order of first use, with an
    interval for each of its blocks. -/
def groups (history : List Operation) : List Group :=
  ((accepted history).map high).eraseDups.map fun unit =>
    ⟨unit, ((blocks history).filter (blockHigh · == unit)).map blockInterval⟩

end History

end SymbolRules
