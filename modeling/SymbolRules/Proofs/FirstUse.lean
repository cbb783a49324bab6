import Mathlib.Data.List.Induction

/-!
# Tables in order of first use

A table has one row for each key. Updating the row of a key leaves all other rows as
they are; a key without a row gets one behind all others. A table that is built by
updates alone lists its keys in the order of their first use, and the row of a key is
made from the entries of that key alone (`Keyed.foldl_update`).
-/

namespace SymbolRules

namespace Keyed

variable {κ α β : Type}

section Keys

variable [BEq κ] [LawfulBEq κ]

theorem eraseDups_concat_of_mem {keys : List κ} {key : κ} (used : key ∈ keys) :
    (keys ++ [key]).eraseDups = keys.eraseDups := by
  simp [List.eraseDups_append, List.removeAll, used]

theorem eraseDups_concat_of_notMem {keys : List κ} {key : κ} (fresh : key ∉ keys) :
    (keys ++ [key]).eraseDups = keys.eraseDups ++ [key] := by
  simp [List.eraseDups_append, List.removeAll, fresh, List.eraseDups_cons]

theorem nodup_eraseDups (keys : List κ) : keys.eraseDups.Nodup := by
  induction keys using List.reverseRecOn with
  | nil => simp
  | append_singleton keys key ih =>
      by_cases used : key ∈ keys
      · rw [eraseDups_concat_of_mem used]
        exact ih
      · rw [eraseDups_concat_of_notMem used, List.nodup_append]
        refine ⟨ih, by simp, ?_⟩
        intro other member new isNew equal
        rw [List.mem_singleton] at isNew
        subst equal isNew
        exact used (List.mem_eraseDups.1 member)

/-- The keys in the order of first use stand in the same order as their first uses. -/
theorem eraseDups_sublist (keys : List κ) : keys.eraseDups.Sublist keys := by
  induction keys using List.reverseRecOn with
  | nil => simp
  | append_singleton keys key ih =>
      by_cases used : key ∈ keys
      · rw [eraseDups_concat_of_mem used]
        exact ih.trans (List.sublist_append_left _ _)
      · rw [eraseDups_concat_of_notMem used]
        exact ih.append_right [key]

theorem eraseDups_concat_congr {keys others : List κ} (same : keys.eraseDups = others.eraseDups)
    (key : κ) : (keys ++ [key]).eraseDups = (others ++ [key]).eraseDups := by
  have shared : key ∈ keys ↔ key ∈ others := by
    rw [← List.mem_eraseDups, same, List.mem_eraseDups]
  by_cases used : key ∈ keys
  · rw [eraseDups_concat_of_mem used, eraseDups_concat_of_mem (shared.1 used), same]
  · rw [eraseDups_concat_of_notMem used, eraseDups_concat_of_notMem (mt shared.2 used), same]

/-- Using one key several times in a row counts as using it once. -/
theorem eraseDups_append_of_forall_eq {keys uses : List κ} {key : κ} (nonempty : uses ≠ [])
    (same : ∀ use ∈ uses, use = key) :
    (keys ++ uses).eraseDups = (keys ++ [key]).eraseDups := by
  induction uses using List.reverseRecOn with
  | nil => exact absurd rfl nonempty
  | append_singleton uses use ih =>
      obtain rfl : use = key := same use (by simp)
      have before : ∀ other ∈ uses, other = use := fun other member => same other (by simp [member])
      rw [← List.append_assoc]
      by_cases first : uses = []
      · rw [first, List.append_nil]
      · obtain ⟨other, member⟩ := List.exists_mem_of_ne_nil uses first
        have used : use ∈ keys ++ uses := by
          rw [← before other member]
          exact List.mem_append_right keys member
        rw [eraseDups_concat_of_mem used, ih first before]

theorem filterMap_beq_of_nodup {keys : List κ} (unique : keys.Nodup) (row : κ → β) (key : κ) :
    keys.filterMap (fun other => if other == key then some (row other) else none) =
      if key ∈ keys then [row key] else [] := by
  induction keys with
  | nil => rfl
  | cons first keys ih =>
      obtain ⟨fresh, rest⟩ := List.nodup_cons.1 unique
      by_cases equal : first = key
      · subst equal
        simp [ih rest, fresh]
      · simp [ih rest, equal, Ne.symm equal]

end Keys

/-- Changes the row of a key. A key that has no row gets one behind all others. -/
def update [DecidableEq κ] (key : κ) (change : Option β → β) : List (κ × β) → List (κ × β)
  | [] => [(key, change none)]
  | (other, row) :: rest =>
      if other = key then (other, change (some row)) :: rest
      else (other, row) :: update key change rest

/-- The items under a key, in their order. -/
def under [BEq κ] (key : κ) (entries : List (κ × α)) : List α :=
  (entries.filter (·.1 == key)).map Prod.snd

section Update

variable [DecidableEq κ]

theorem update_of_notMem {key : κ} {table : List (κ × β)} (change : Option β → β)
    (fresh : key ∉ table.map Prod.fst) :
    update key change table = table ++ [(key, change none)] := by
  induction table with
  | nil => rfl
  | cons entry rest ih =>
      rw [List.map_cons, List.mem_cons, not_or] at fresh
      rw [update, if_neg (Ne.symm fresh.1), ih fresh.2, List.cons_append]

theorem update_map_of_mem {key : κ} {keys : List κ} (row : κ → β) (change : Option β → β)
    (unique : keys.Nodup) (used : key ∈ keys) :
    update key change (keys.map fun other => (other, row other)) =
      keys.map fun other =>
        (other, if other = key then change (some (row other)) else row other) := by
  induction keys with
  | nil => simp at used
  | cons first keys ih =>
      have parts := List.nodup_cons.1 unique
      simp only [List.map_cons, update]
      by_cases equal : first = key
      · subst equal
        rw [if_pos rfl, if_pos rfl]
        congr 1
        apply List.map_congr_left
        intro other member
        have different : other ≠ first := by
          rintro rfl
          exact parts.1 member
        rw [if_neg different]
      · rw [if_neg equal, if_neg equal,
          ih parts.2 (List.mem_of_ne_of_mem (Ne.symm equal) used)]

theorem map_fst_update (key : κ) (change : Option β → β) (table : List (κ × β)) :
    (update key change table).map Prod.fst =
      if key ∈ table.map Prod.fst then table.map Prod.fst
      else table.map Prod.fst ++ [key] := by
  induction table with
  | nil => simp [update]
  | cons entry rest ih =>
      rw [update]
      by_cases same : entry.1 = key
      · simp [same]
      · simp only [same, if_false, List.map_cons, ih, List.mem_cons, Ne.symm same, false_or]
        split <;> simp

theorem nodup_map_fst_update {table : List (κ × β)} (distinct : (table.map Prod.fst).Nodup)
    (key : κ) (change : Option β → β) : ((update key change table).map Prod.fst).Nodup := by
  rw [map_fst_update]
  by_cases used : key ∈ table.map Prod.fst
  · rw [if_pos used]
    exact distinct
  · rw [if_neg used, List.nodup_append]
    refine ⟨distinct, by simp, ?_⟩
    intro other isOther new isNew same
    rw [List.mem_singleton] at isNew
    exact used (isNew ▸ same ▸ isOther)

/-- What holds of all rows still holds of them after an update if the change keeps it. -/
theorem forall_mem_update {motive : κ → β → Prop} {table : List (κ × β)} {key : κ}
    {change : Option β → β} (rows : ∀ row ∈ table, motive row.1 row.2)
    (changed : ∀ row : Option β, (∀ value ∈ row, motive key value) → motive key (change row)) :
    ∀ row ∈ update key change table, motive row.1 row.2 := by
  induction table with
  | nil =>
      intro row member
      rw [update, List.mem_singleton] at member
      subst member
      exact changed none (by simp)
  | cons first rest ih =>
      have isFirst := rows first (List.mem_cons_self ..)
      have later := ih fun row member => rows row (List.mem_cons_of_mem first member)
      intro row member
      rw [update] at member
      by_cases same : first.1 = key
      · rw [if_pos same, List.mem_cons] at member
        rcases member with rfl | inRest
        · subst same
          exact changed (some first.2) (by simpa using isFirst)
        · exact rows row (List.mem_cons_of_mem first inRest)
      · rw [if_neg same, List.mem_cons] at member
        rcases member with rfl | inRest
        · exact isFirst
        · exact later row inRest

end Update

section Entries

variable [BEq κ]

theorem under_append (key : κ) (front back : List (κ × α)) :
    under key (front ++ back) = under key front ++ under key back := by
  simp [under]

theorem under_singleton (key : κ) (entry : κ × α) :
    under key [entry] = if entry.1 == key then [entry.2] else [] := by
  simp only [under, List.filter_cons, List.filter_nil]
  split <;> rfl

/-- A filter on the entries' items can be applied to each row. -/
theorem under_filter (key : κ) (keep : α → Bool) (entries : List (κ × α)) :
    under key (entries.filter fun entry => keep entry.2) = (under key entries).filter keep := by
  rw [under, under, List.filter_map, List.filter_filter, List.filter_filter]
  congr 2
  funext entry
  exact Bool.and_comm _ _

variable [LawfulBEq κ]

theorem under_cons [DecidableEq κ] (key name : κ) (item : α) (entries : List (κ × α)) :
    under key ((name, item) :: entries) =
      if name = key then item :: under key entries else under key entries := by
  rw [← List.singleton_append, under_append, under_singleton]
  by_cases same : name = key <;> simp [same]

theorem under_eq_nil_iff {key : κ} {entries : List (κ × α)} :
    under key entries = [] ↔ key ∉ entries.map Prod.fst := by
  simp only [under, List.map_eq_nil_iff, List.filter_eq_nil_iff, beq_iff_eq, List.mem_map]
  constructor
  · rintro none ⟨entry, member, equal⟩
    exact none entry member equal
  · intro fresh entry member equal
    exact fresh ⟨entry, member, equal⟩

theorem under_ne_nil_iff {key : κ} {entries : List (κ × α)} :
    under key entries ≠ [] ↔ key ∈ entries.map Prod.fst := by
  rw [ne_eq, under_eq_nil_iff, not_not]

theorem mem_under {key : κ} {entries : List (κ × α)} {item : α} :
    item ∈ under key entries ↔ (key, item) ∈ entries := by
  simp [under]

/-- Updating a table that lists its keys in the order of first use counts as one more use. -/
theorem update_map_eraseDups [DecidableEq κ] (uses : List κ) (row : κ → β) (key : κ)
    (change : Option β → β) :
    update key change (uses.eraseDups.map fun other => (other, row other)) =
      (uses ++ [key]).eraseDups.map fun other =>
        (other, if other = key then change (if key ∈ uses then some (row key) else none)
          else row other) := by
  by_cases used : key ∈ uses
  · rw [eraseDups_concat_of_mem used,
      update_map_of_mem row change (nodup_eraseDups uses) (List.mem_eraseDups.2 used)]
    apply List.map_congr_left
    intro other _
    by_cases same : other = key
    · subst same
      rw [if_pos rfl, if_pos rfl, if_pos used]
    · rw [if_neg same, if_neg same]
  · have fresh : key ∉ (uses.eraseDups.map fun other => (other, row other)).map Prod.fst := by
      simpa [Function.comp_def] using used
    rw [eraseDups_concat_of_notMem used, update_of_notMem change fresh, List.map_append]
    congr 1
    · apply List.map_congr_left
      intro other member
      have different : other ≠ key := by
        rintro rfl
        exact used (List.mem_eraseDups.1 member)
      rw [if_neg different]
    · rw [List.map_singleton, if_pos rfl, if_neg used]

/-- The rows of a key in a table that has one row for each of its keys. -/
theorem under_map_of_nodup {keys : List κ} (unique : keys.Nodup) (row : κ → β) (key : κ) :
    under key (keys.map fun other => (other, row other)) =
      if key ∈ keys then [row key] else [] := by
  induction keys with
  | nil => rfl
  | cons first keys ih =>
      obtain ⟨fresh, rest⟩ := List.nodup_cons.1 unique
      have later := ih rest
      rw [under] at later ⊢
      rw [List.map_cons, List.filter_cons]
      by_cases equal : first = key
      · subst equal
        simp [later, fresh]
      · simp [later, equal, Ne.symm equal]

/-- A table that is built by updates lists the keys in the order of their first use.
    The row of a key is made from its own entries, whatever was entered between them. -/
theorem foldl_update [DecidableEq κ] (start : β) (step : β → α → β) (entries : List (κ × α)) :
    entries.foldl (fun table entry =>
        update entry.1 (fun row => step (row.getD start) entry.2) table) [] =
      (entries.map Prod.fst).eraseDups.map fun key =>
        (key, (under key entries).foldl step start) := by
  induction entries using List.reverseRecOn with
  | nil => rfl
  | append_singleton entries entry ih =>
      obtain ⟨key, item⟩ := entry
      have row : ∀ other, (under other (entries ++ [(key, item)])).foldl step start =
          if other = key then step ((under other entries).foldl step start) item
          else (under other entries).foldl step start := by
        intro other
        rw [under_append, under_singleton, List.foldl_append]
        by_cases equal : other = key
        · simp [equal]
        · simp [equal, Ne.symm equal]
      rw [List.foldl_append, List.foldl_cons, List.foldl_nil, ih, update_map_eraseDups,
        List.map_append, List.map_singleton]
      apply List.map_congr_left
      intro other _
      rw [row]
      by_cases same : other = key
      · subst same
        rw [if_pos rfl, if_pos rfl]
        by_cases used : other ∈ entries.map Prod.fst
        · rw [if_pos used, Option.getD_some]
        · rw [if_neg used, under_eq_nil_iff.2 used]
          rfl
      · rw [if_neg same, if_neg same]

end Entries

end Keyed

end SymbolRules
