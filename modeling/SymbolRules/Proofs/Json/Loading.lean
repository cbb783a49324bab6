import SymbolRules.Proofs.Json.Values

/-!
# Loading values

A tree is loaded if it is read as a value of its shape and that value stands for something
(`Loads`). A list is loaded item by item, and a record field by field, whichever notation it is
written in.
-/

namespace SymbolRules

open Json (Value Shape Tree)

section Loads

variable {α : Type} {shape : Shape} {load : Value → Option α} {tree : Tree} {loaded : α}

/-- How a tree is loaded: it is read as a value of its shape, and that stands for something. -/
def Loads (shape : Shape) (load : Value → Option α) (loaded : α) (tree : Tree) : Prop :=
  ∃ value, tree.ReadsTo shape value ∧ load value = some loaded

theorem loads_ofText (text : String) : Loads .string Value.string? text (.ofText text) :=
  ⟨.string text, Tree.readsTo_ofText text, rfl⟩

/-- A list is loaded item by item. -/
theorem loads_array {items : List α} {trees : List Tree}
    (each : List.Forall₂ (Loads shape load) items trees) :
    Loads (.list shape) (Value.listOf? load) items (.array trees) := by
  have values : ∃ values, List.Forall₂ (Tree.ReadsTo shape) trees values ∧
      values.mapM load = some items := by
    induction each with
    | nil => exact ⟨[], .nil, rfl⟩
    | cons first _ ih =>
        obtain ⟨value, isRead, isLoaded⟩ := first
        obtain ⟨values, areRead, areLoaded⟩ := ih
        refine ⟨value :: values, .cons isRead areRead, ?_⟩
        rw [List.mapM_cons, isLoaded, areLoaded]
        rfl
  obtain ⟨values, areRead, areLoaded⟩ := values
  exact ⟨.array values, Tree.readsTo_array areRead, areLoaded⟩

theorem loads_isList {IsItem : α → Tree → Prop} (each : ∀ item tree, IsItem item tree →
      Loads shape load item tree) {items : List α} (isList : Tree.IsList IsItem items tree) :
    Loads (.list shape) (Value.listOf? load) items tree := by
  obtain ⟨trees, rfl, related⟩ := isList
  exact loads_array (related.imp each)

theorem isList_toValue {IsItem : α → Tree → Prop} {store : α → Value}
    (each : ∀ item, IsItem item (store item).tree) (items : List α) :
    Tree.IsList IsItem items (Value.array (items.map store)).tree := by
  refine ⟨(items.map store).map (·.tree), ?_, ?_⟩
  · rw [Value.tree, Value.trees_eq_map]
  · rw [List.map_map, List.forall₂_map_right_iff, List.forall₂_same]
    exact fun item _ => each item

/-- From each text of a tree that is loaded, the same is loaded. -/
theorem exists_read_of_loads (loads : Loads shape load loaded tree) {text : String}
    (document : tree.IsDocument text) :
    ∃ value, Json.read shape text = .ok value ∧ load value = some loaded := by
  obtain ⟨value, reads, isLoaded⟩ := loads
  have readsTo : tree.read (some shape) = .ok (some value) := reads
  refine ⟨value, ?_, isLoaded⟩
  rw [Json.read_isDocument document, readsTo]
  rfl

/-! ### Fields -/

variable {name : String} {given : Option α} {stored : Option Tree}
  {found : List (String × Value)}

theorem fitsMember_optional (loads : Option.Rel (Loads shape load) given stored) :
    Tree.FitsMember ⟨name, shape, false⟩ (name, stored) := by
  refine ⟨rfl, ?_, nofun⟩
  intro tree isStored
  cases loads with
  | none => cases isStored
  | some isLoaded =>
      obtain ⟨value, isRead, -⟩ := isLoaded
      obtain rfl := Option.some.inj isStored
      exact ⟨value, isRead⟩

theorem fitsMember_required (loads : Loads shape load loaded tree) :
    Tree.FitsMember ⟨name, shape, true⟩ (name, some tree) := by
  refine ⟨rfl, ?_, fun _ => Option.some_ne_none tree⟩
  intro stored isStored
  obtain ⟨value, isRead, -⟩ := loads
  obtain rfl := Option.some.inj isStored
  exact ⟨value, isRead⟩

/-- A field that is given is loaded, and one that is not keeps its default. -/
theorem memberOr_of_loads (loads : Option.Rel (Loads shape load) given stored)
    (isRead : Option.Rel (Tree.ReadsTo shape) stored (found.lookup name)) (default : α) :
    (Value.object found).memberOr name default load = some (given.getD default) := by
  rw [Value.memberOr, Value.member?]
  cases loads with
  | none =>
      generalize found.lookup name = value at isRead
      cases isRead
      rfl
  | some isLoaded =>
      obtain ⟨value, reads, isLoaded⟩ := isLoaded
      generalize found.lookup name = result at isRead
      cases isRead with
      | some other =>
          obtain rfl := Option.some.inj (Except.ok.inj (reads.symm.trans other))
          exact isLoaded

theorem member?_of_loads (loads : Loads shape load loaded tree)
    (isRead : Option.Rel (Tree.ReadsTo shape) (some tree) (found.lookup name)) :
    ((Value.object found).member? name).bind load = some loaded := by
  have given : Option.Rel (Loads shape load) (some loaded) (some tree) := .some loads
  have isLoaded := memberOr_of_loads given isRead loaded
  rw [Value.memberOr] at isLoaded
  cases present : (Value.object found).member? name with
  | none =>
      rw [Value.member?] at present
      rw [present] at isRead
      cases isRead
  | some value =>
      rw [present] at isLoaded
      exact isLoaded

end Loads

/-- A list that may be given, as it is loaded. -/
theorem loads_map {α : Type} {shape : Shape} {load : Value → Option α} {store : α → Tree}
    (each : ∀ item, Loads shape load item (store item)) (given : Option α) :
    Option.Rel (Loads shape load) given (given.map store) := by
  cases given with
  | none => exact .none
  | some item => exact .some (each item)

/-- What may be given, as it is loaded from a tree that it describes. -/
theorem loads_of_rel {α β : Type} {shape : Shape} {load : Value → Option α} {loaded : β → α}
    {IsStored : β → Tree → Prop} {given : Option β} {stored : Option Tree}
    (related : Option.Rel IsStored given stored)
    (each : ∀ item tree, IsStored item tree → Loads shape load (loaded item) tree) :
    Option.Rel (Loads shape load) (given.map loaded) stored := by
  cases related with
  | none => exact .none
  | some isStored => exact .some (each _ _ isStored)

/-- A record of two fields, none of which may be missing, is loaded from both of them, whatever they
    make up. -/
theorem loads_pair {α β γ : Type} (make : α → β → γ) {first second : String}
    {shape otherShape : Shape} {load : Value → Option α} {otherLoad : Value → Option β} {loaded : α}
    {other : β} {tree firstTree secondTree : Tree} (different : first ≠ second)
    (loads : Loads shape load loaded firstTree)
    (otherLoads : Loads otherShape otherLoad other secondTree)
    (isRecord : tree.IsRecord [(first, some firstTree), (second, some secondTree)]) :
    Loads (.record [⟨first, shape, true⟩, ⟨second, otherShape, true⟩])
      (fun value => do
        let loaded ← load (← value.member? first)
        let other ← otherLoad (← value.member? second)
        return make loaded other)
      (make loaded other) tree := by
  have unique : [first, second].Nodup := by simpa using different
  obtain ⟨found, isRead, isFound⟩ := Tree.read_isRecord
    (.cons (fitsMember_required loads) (.cons (fitsMember_required otherLoads) .nil)) unique
    isRecord
  obtain ⟨isFirst, isSecond, -⟩ : Option.Rel _ _ _ ∧ Option.Rel _ _ _ ∧ True := by
    simpa only [Tree.IsFound, List.forall₂_cons, List.forall₂_nil_right_iff] using isFound
  obtain ⟨value, isValue, isLoaded⟩ :=
    Option.bind_eq_some_iff.1 (member?_of_loads loads isFirst)
  obtain ⟨otherValue, isOther, isLoadedToo⟩ :=
    Option.bind_eq_some_iff.1 (member?_of_loads otherLoads isSecond)
  refine ⟨.object found, isRead, ?_⟩
  simp [isValue, isOther, isLoaded, isLoadedToo]

end SymbolRules
