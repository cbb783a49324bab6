import SymbolRules.Proofs.Json.Loading
import SymbolRules.Rule

/-!
# Reading listed symbols

The symbols of tokens are stored as an array of objects, each with a token, its pattern and its
groups. They are read back from every text of what is stored (`TokenRanges.read_of_isDocument`).
Nothing is decoded in a pattern: its escapes are part of the text.
-/

namespace SymbolRules

open Json (Shape Value Tree)

/-- A code unit is read as a number that fits in it. -/
def readCodeUnit? (value : Value) : Option CodeUnit :=
  value.number?.bind fun n => if n < UInt16.size then some (UInt16.ofNat n) else none

namespace Interval

/-- Both ends are required. -/
def shape : Shape := .record [⟨"start", .number, true⟩, ⟨"end", .number, true⟩]

/-- Reads the stored form. -/
def ofValue? (value : Value) : Option Interval := do
  let start ← (← value.member? "start") |> readCodeUnit?
  let stop ← (← value.member? "end") |> readCodeUnit?
  return ⟨start, stop⟩

end Interval

namespace Group

/-- Both members are required. -/
def shape : Shape := .record [⟨"high", .number, true⟩, ⟨"ranges", .list Interval.shape, true⟩]

/-- Reads the stored form. -/
def ofValue? (value : Value) : Option Group := do
  let high ← (← value.member? "high") |> readCodeUnit?
  let intervals ← (← value.member? "ranges").listOf? Interval.ofValue?
  return ⟨high, intervals⟩

end Group

namespace TokenRanges

/-- All members are required. -/
def shape : Shape :=
  .record [⟨"token", .string, true⟩, ⟨"pattern", .string, true⟩,
    ⟨"groups", .list Group.shape, true⟩]

/-- Reads the stored form. -/
def ofValue? (value : Value) : Option TokenRanges := do
  let token ← (← value.member? "token").string?
  let pattern ← (← value.member? "pattern").string?
  let groups ← (← value.member? "groups").listOf? Group.ofValue?
  return ⟨token, pattern, groups⟩

/-- Reads the text of a list. -/
def read (text : String) : Except Json.Fault (List TokenRanges) :=
  match Json.read (.list shape) text with
  | .error fault => .error fault
  | .ok value =>
      match value.listOf? ofValue? with
      | none => .error .mismatch
      | some listed => .ok listed

end TokenRanges

/-! ### Stored forms -/

theorem loads_codeUnit (unit : CodeUnit) :
    Loads .number readCodeUnit? unit (Value.number unit.toNat).tree := by
  have fits : unit.toNat < UInt16.size := unit.toNat_lt_size
  rw [Value.tree]
  refine ⟨.number unit.toNat, Tree.readsTo_ofNat (Nat.lt_trans fits (by decide)), ?_⟩
  show (if unit.toNat < UInt16.size then some (UInt16.ofNat unit.toNat) else none) = some unit
  rw [if_pos fits, UInt16.ofNat_toNat]

theorem loads_string (text : String) :
    Loads .string Value.string? text (Value.string text).tree := by
  rw [Value.tree]
  exact loads_ofText text

/-- A stored list is loaded if each of its items is. -/
theorem loads_stored {α : Type} {shape : Shape} {load : Value → Option α} {store : α → Value}
    (each : ∀ item, Loads shape load item (store item).tree) (items : List α) :
    Loads (.list shape) (Value.listOf? load) items (Value.array (items.map store)).tree :=
  loads_isList (fun _ _ => id) (isList_toValue each items)

theorem Interval.loads (interval : Interval) :
    Loads shape ofValue? interval interval.toValue.tree := by
  have isRecord : interval.toValue.tree.IsRecord
      [("start", some (Value.number interval.start.toNat).tree),
        ("end", some (Value.number interval.stop.toNat).tree)] :=
    .inl (Value.isObject_tree (by simp))
  exact loads_pair Interval.mk (by decide) (loads_codeUnit interval.start)
    (loads_codeUnit interval.stop) isRecord

theorem Group.loads (group : Group) : Loads shape ofValue? group group.toValue.tree := by
  have isRecord : group.toValue.tree.IsRecord
      [("high", some (Value.number group.high.toNat).tree),
        ("ranges", some (Value.array (group.intervals.map (·.toValue))).tree)] :=
    .inl (Value.isObject_tree (by simp))
  exact loads_pair Group.mk (by decide) (loads_codeUnit group.high)
    (loads_stored Interval.loads group.intervals) isRecord

namespace TokenRanges

theorem loads (ranges : TokenRanges) : Loads shape ofValue? ranges ranges.toValue.tree := by
  have loadsToken := loads_string ranges.token
  have loadsPattern := loads_string ranges.pattern
  have loadsGroups := loads_stored Group.loads ranges.groups
  have isRecord : ranges.toValue.tree.IsRecord
      [("token", some (Value.string ranges.token).tree),
        ("pattern", some (Value.string ranges.pattern).tree),
        ("groups", some (Value.array (ranges.groups.map (·.toValue))).tree)] :=
    .inl (Value.isObject_tree (by simp))
  have unique : ["token", "pattern", "groups"].Nodup := by decide
  obtain ⟨found, isRead, isFound⟩ := Tree.read_isRecord
    (.cons (fitsMember_required loadsToken) (.cons (fitsMember_required loadsPattern)
      (.cons (fitsMember_required loadsGroups) .nil))) unique isRecord
  simp only [Tree.IsFound, List.forall₂_cons, List.forall₂_nil_right_iff] at isFound
  obtain ⟨first, second, third, -⟩ := isFound
  refine ⟨.object found, isRead, ?_⟩
  obtain ⟨token, isToken, hasToken⟩ :=
    Option.bind_eq_some_iff.1 (member?_of_loads loadsToken first)
  obtain ⟨pattern, isPattern, hasPattern⟩ :=
    Option.bind_eq_some_iff.1 (member?_of_loads loadsPattern second)
  obtain ⟨groups, isGroups, hasGroups⟩ :=
    Option.bind_eq_some_iff.1 (member?_of_loads loadsGroups third)
  simp [ofValue?, isToken, isPattern, isGroups, hasToken, hasPattern, hasGroups]

/-- A list is read back from every text of its stored form. -/
theorem read_of_isDocument {listed : List TokenRanges} {text : String}
    (document : (Value.array (listed.map (·.toValue))).tree.IsDocument text) :
    read text = .ok listed := by
  obtain ⟨value, isRead, isLoaded⟩ := exists_read_of_loads (loads_stored loads listed) document
  rw [read, isRead]
  dsimp only
  rw [isLoaded]

end TokenRanges

end SymbolRules
