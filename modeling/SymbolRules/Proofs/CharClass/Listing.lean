import SymbolRules.Proofs.CharClass.Invariant

/-!
# What a compressor holds

A compressor holds the scalar values that it has taken, in order, wherever its intervals were
closed in between. Its pattern lists exactly these, under their high units
(`Compressor.Holds.listing?_pattern`), so compressors that hold the same scalar values may differ
in how their patterns are written but not in what these list.
-/

namespace SymbolRules

/-- What a pattern lists: the scalar values of each of its alternatives, under the high unit that
    they share. There is nothing if the pattern cannot be read. -/
def Pattern.listing? (pattern : String) : Option (List (CodeUnit × List Nat)) :=
  (read? pattern.toList).map fun alternatives =>
    alternatives.map fun alternative => (alternative.high, alternative.scalars)

namespace History

/-- The scalar values under one high unit are those with that high unit. -/
theorem flatten_under_underHighs (unit : CodeUnit) (scalars : List Nat) :
    (Keyed.under unit (underHighs scalars)).flatten = scalars.filter (high · == unit) := by
  rw [underHighs, Keyed.under_map_of_nodup (Keyed.nodup_eraseDups _)]
  by_cases used : unit ∈ (scalars.map high).eraseDups
  · rw [if_pos used, List.flatten_singleton]
  · rw [if_neg used, List.flatten_nil, eq_comm, List.filter_eq_nil_iff]
    intro scalar member
    rw [beq_iff_eq]
    rintro rfl
    exact used (List.mem_eraseDups.2 (List.mem_map_of_mem member))

end History

namespace Compressor

open History (accepted)

/-- Closing once more changes nothing that is shown. -/
theorem pattern_close (compressor : Compressor) :
    compressor.close.pattern = compressor.pattern := by
  rw [pattern, closedGroups_close, pattern]

theorem isEmpty_close (compressor : Compressor) :
    compressor.close.isEmpty = compressor.isEmpty := by
  rw [Bool.eq_iff_iff, isEmpty_iff, isEmpty_iff]
  exact iff_of_eq (congrArg (· = []) compressor.closedGroups_close)

/-- The pattern is made of the texts of the groups, with bars between them. -/
theorem pattern_eq_intercalate (compressor : Compressor) :
    compressor.pattern = "|".intercalate (compressor.closedGroups.map Group.text) := by
  have texts : (compressor.closedGroups.map Group.text).map String.toList =
      compressor.closedGroups.map Group.chars := by
    rw [List.map_map]
    apply List.map_congr_left
    intro group _
    exact String.toList_ofList
  rw [← String.toList_inj, String.toList_intercalate, texts, pattern, String.toList_ofList]
  rfl

/-- Whether a compressor has taken the given scalar values in this order, and no others. -/
def Holds (compressor : Compressor) (scalars : List Nat) : Prop :=
  ∃ history, compressor = run history ∧ accepted history = scalars

theorem holds_empty : empty.Holds [] := ⟨[], rfl, rfl⟩

namespace Holds

variable {compressor : Compressor} {scalars : List Nat}

theorem close (holds : compressor.Holds scalars) : compressor.close.Holds scalars := by
  obtain ⟨history, rfl, rfl⟩ := holds
  refine ⟨history ++ [.close], ?_, ?_⟩
  · rw [run_concat]
    rfl
  · rw [History.accepted_append, History.accepted_singleton]
    exact List.append_nil _

theorem add (holds : compressor.Holds scalars) {scalar : Nat} (isScalar : IsScalar scalar) :
    (compressor.perform (.add scalar)).2.Holds (scalars ++ [scalar]) := by
  obtain ⟨history, rfl, rfl⟩ := holds
  refine ⟨history ++ [.add scalar], (run_concat _ _).symm, ?_⟩
  rw [History.accepted_append, History.accepted_singleton, Operation.scalar?, if_pos isScalar]
  rfl

theorem isEmpty_eq_false (holds : compressor.Holds scalars) (used : scalars ≠ []) :
    compressor.isEmpty = false := by
  obtain ⟨history, rfl, rfl⟩ := holds
  rw [← Bool.not_eq_true, isEmpty_run_iff]
  exact used

/-- The pattern of a compressor lists what the compressor holds. -/
theorem listing?_pattern (holds : compressor.Holds scalars) :
    Pattern.listing? compressor.pattern = some (History.underHighs scalars) := by
  obtain ⟨history, rfl, rfl⟩ := holds
  rw [Pattern.listing?, read?_pattern_run, Option.map_some, map_scalars_groups]

end Holds

end Compressor

end SymbolRules
