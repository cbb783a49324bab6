import Mathlib.Data.List.Forall2

/-!
# Computations that may fail

When a computation of two steps, or of one step for each item of a list, succeeds, and which fault
it reports otherwise.
-/

namespace SymbolRules

section Steps

variable {ε α β : Type}

theorem bind_eq_ok_iff {first : Except ε α} {next : α → Except ε β} {result : β} :
    first >>= next = .ok result ↔ ∃ value, first = .ok value ∧ next value = .ok result := by
  cases first <;> simp [bind, Except.bind]

theorem bind_eq_error_iff {first : Except ε α} {next : α → Except ε β} {fault : ε} :
    first >>= next = .error fault ↔
      first = .error fault ∨ ∃ value, first = .ok value ∧ next value = .error fault := by
  cases first <;> simp [bind, Except.bind]

theorem map_eq_ok_iff {outcome : Except ε α} {change : α → β} {result : β} :
    outcome.map change = .ok result ↔ ∃ value, outcome = .ok value ∧ change value = result := by
  cases outcome <;> simp [Except.map]

theorem mapError_eq_ok_iff {δ : Type} {outcome : Except ε α} {change : ε → δ} {value : α} :
    outcome.mapError change = .ok value ↔ outcome = .ok value := by
  cases outcome <;> simp [Except.mapError]

theorem mapError_eq_error_iff {δ : Type} {outcome : Except ε α} {change : ε → δ} {fault : δ} :
    outcome.mapError change = .error fault ↔
      ∃ cause, outcome = .error cause ∧ change cause = fault := by
  cases outcome <;> simp [Except.mapError]

end Steps

section MapM

variable {α β ε : Type} {f : α → Except ε β}

theorem mapM_eq_ok_iff {items : List α} {results : List β} :
    items.mapM f = .ok results ↔
      List.Forall₂ (fun item result => f item = .ok result) items results := by
  induction items generalizing results with
  | nil =>
      rw [List.forall₂_nil_left_iff, List.mapM_nil]
      constructor
      · intro same
        exact (Except.ok.inj same).symm
      · rintro rfl
        rfl
  | cons item items ih =>
      rw [List.mapM_cons, List.forall₂_cons_left_iff]
      constructor
      · intro mapped
        cases first : f item with
        | error fault =>
            rw [first] at mapped
            cases mapped
        | ok result =>
            cases rest : items.mapM f with
            | error fault =>
                rw [first, rest] at mapped
                cases mapped
            | ok others =>
                rw [first, rest] at mapped
                exact ⟨result, others, rfl, ih.1 rest, (Except.ok.inj mapped).symm⟩
      · rintro ⟨result, others, first, rest, rfl⟩
        rw [first, ih.2 rest]
        rfl

theorem exists_mapM_eq_ok_iff {items : List α} :
    (∃ results, items.mapM f = .ok results) ↔ ∀ item ∈ items, ∃ result, f item = .ok result := by
  constructor
  · rintro ⟨results, mapped⟩ item member
    have related := mapM_eq_ok_iff.1 mapped
    clear mapped
    induction related with
    | nil => cases member
    | cons first rest ih =>
        rcases List.mem_cons.1 member with rfl | later
        · exact ⟨_, first⟩
        · exact ih later
  · intro each
    induction items with
    | nil => exact ⟨[], rfl⟩
    | cons item items ih =>
        obtain ⟨result, first⟩ := each item (List.mem_cons_self ..)
        obtain ⟨others, rest⟩ := ih fun other member =>
          each other (List.mem_cons_of_mem item member)
        exact ⟨result :: others, mapM_eq_ok_iff.2 (.cons first (mapM_eq_ok_iff.1 rest))⟩

/-- The fault of a whole list is that of the first item with a fault. -/
theorem mapM_eq_error_iff {items : List α} {fault : ε} :
    items.mapM f = .error fault ↔
      ∃ item, items.find? (fun item => !(f item).isOk) = some item ∧ f item = .error fault := by
  induction items with
  | nil => simp [pure, Except.pure]
  | cons first rest ih =>
      rw [List.mapM_cons]
      cases outcome : f first with
      | error found =>
          simp [outcome, Except.isOk, Except.toBool, bind, Except.bind]
      | ok result =>
          have sound : (!(f first).isOk) = false := by rw [outcome]; rfl
          rw [List.find?_cons_of_neg (by simp [sound]), ← ih]
          cases rest.mapM f <;> simp [bind, Except.bind, pure, Except.pure]

end MapM

end SymbolRules
