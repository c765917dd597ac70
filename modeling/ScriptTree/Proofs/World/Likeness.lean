import ScriptTree.Proofs.World.Twin

/-!
# Trees that are alike

Two nodes, in one world or in two, hold the same tree when a relation pairs their nodes one to one:
paired nodes have the same keys in the same order, equal values up to the pairing, the same name, and
a pair for a parent when one of them has its parent among the pairs (`World.Alike`,
`World.SameTree`). A tree is the same as itself (`SameTree.refl`).
-/

set_option autoImplicit false

namespace ScriptTree

variable {R R' : NodeId → NodeId → Prop}

/-- The second value is the first with a related node in the place of each of its nodes. -/
def Value.Like (R : NodeId → NodeId → Prop) (value value' : Value) : Prop :=
  ∃ f : NodeId → NodeId, (∀ x ∈ value.nodes, R x (f x)) ∧ value' = value.rename f

/-- The entries have the same keys in the same order, and values that are alike. -/
def Entries.Like (R : NodeId → NodeId → Prop) (entries entries' : Entries Value) : Prop :=
  List.Forall₂ (fun p q => p.1 = q.1 ∧ p.2.Like R q.2) entries entries'

namespace Value.Like

variable {value value' : Value}

theorem mono (h : value.Like R value') (hle : ∀ x y, R x y → R' x y) : value.Like R' value' := by
  obtain ⟨f, hf, hrename⟩ := h
  exact ⟨f, fun x hx => hle x (f x) (hf x hx), hrename⟩

/-- Every value is like itself when its nodes are related to themselves. -/
theorem refl (h : ∀ x ∈ value.nodes, R x x) : value.Like R value :=
  ⟨id, h, (Value.rename_eq_self value fun _ _ => rfl).symm⟩

theorem node {x y : NodeId} (h : R x y) : (Value.node x).Like R (.node y) := by
  refine ⟨fun _ => y, fun z hz => ?_, rfl⟩
  obtain rfl := List.mem_singleton.mp hz
  exact h

theorem exists_right (h : value.Like R value') {x : NodeId} (hx : x ∈ value.nodes) :
    ∃ y ∈ value'.nodes, R x y := by
  obtain ⟨f, hf, rfl⟩ := h
  refine ⟨f x, ?_, hf x hx⟩
  rw [Value.nodes_rename]
  exact List.mem_map_of_mem hx

theorem exists_left (h : value.Like R value') {y : NodeId} (hy : y ∈ value'.nodes) :
    ∃ x ∈ value.nodes, R x y := by
  obtain ⟨f, hf, rfl⟩ := h
  rw [Value.nodes_rename] at hy
  obtain ⟨x, hx, rfl⟩ := List.mem_map.mp hy
  exact ⟨x, hx, hf x hx⟩

end Value.Like

namespace Entries.Like

variable {entries entries' more more' : Entries Value}

theorem mono (h : Entries.Like R entries entries') (hle : ∀ x y, R x y → R' x y) :
    Entries.Like R' entries entries' :=
  h.imp fun _ _ hp => ⟨hp.1, hp.2.mono hle⟩

theorem append (h : Entries.Like R entries entries') (h' : Entries.Like R more more') :
    Entries.Like R (entries ++ more) (entries' ++ more') :=
  List.rel_append h h'

theorem keys_eq (h : Entries.Like R entries entries') : entries.keys = entries'.keys := by
  induction h with
  | nil => rfl
  | cons hp _ ih => exact congrArg₂ List.cons hp.1 ih

theorem refl (h : ∀ p ∈ entries, ∀ x ∈ p.2.nodes, R x x) : Entries.Like R entries entries :=
  List.forall₂_same.mpr fun p hp => ⟨rfl, .refl (h p hp)⟩

theorem exists_right (h : Entries.Like R entries entries') {x : NodeId}
    (hx : x ∈ entries.flatMap fun p => p.2.nodes) :
    ∃ y ∈ entries'.flatMap fun p => p.2.nodes, R x y := by
  induction h with
  | nil => cases hx
  | cons hp _ ih =>
      rw [List.flatMap_cons, List.mem_append] at hx
      rcases hx with hx | hx
      · obtain ⟨y, hy, hxy⟩ := hp.2.exists_right hx
        exact ⟨y, List.mem_append_left _ hy, hxy⟩
      · obtain ⟨y, hy, hxy⟩ := ih hx
        exact ⟨y, List.mem_append_right _ hy, hxy⟩

theorem exists_left (h : Entries.Like R entries entries') {y : NodeId}
    (hy : y ∈ entries'.flatMap fun p => p.2.nodes) :
    ∃ x ∈ entries.flatMap fun p => p.2.nodes, R x y := by
  induction h with
  | nil => cases hy
  | cons hp _ ih =>
      rw [List.flatMap_cons, List.mem_append] at hy
      rcases hy with hy | hy
      · obtain ⟨x, hx, hxy⟩ := hp.2.exists_left hy
        exact ⟨x, List.mem_append_left _ hx, hxy⟩
      · obtain ⟨x, hx, hxy⟩ := ih hy
        exact ⟨x, List.mem_append_right _ hx, hxy⟩

end Entries.Like

namespace World

variable {v w : World}

/-- The relation pairs nodes of the worlds one to one. The nodes of a pair have the same name and
entries that are alike, and of two pairs the second is the parent of the first in both worlds or in
neither. -/
structure Alike (v w : World) (R : NodeId → NodeId → Prop) : Prop where
  range : ∀ {x y}, R x y → x.index < v.cells.size ∧ y.index < w.cells.size
  unique : ∀ {x y x' y'}, R x y → R x' y' → (x = x' ↔ y = y')
  entries : ∀ {x y}, R x y → Entries.Like R (v.cell x).entries (w.cell y).entries
  name : ∀ {x y}, R x y → (v.cell x).name = (w.cell y).name
  parent : ∀ {x y x' y'}, R x y → R x' y' → (v.parent? x = some x' ↔ w.parent? y = some y')

/-- The nodes hold the same tree: each node that entries lead to from the first one has its
counterpart at the same place below the second. -/
def SameTree (v : World) (n : NodeId) (w : World) (m : NodeId) : Prop := ∃ R, v.Alike w R ∧ R n m

/-- A node holds the same tree as itself. -/
theorem SameTree.refl (hclosed : w.Closed) {n : NodeId} (hn : n.index < w.cells.size) :
    w.SameTree n w n := by
  refine ⟨fun x y => x = y ∧ x.index < w.cells.size, ⟨?range, ?unique, ?entries, ?name, ?parent⟩, rfl, hn⟩
  case range =>
    rintro x y ⟨rfl, hx⟩
    exact ⟨hx, hx⟩
  case unique =>
    rintro x y x' y' ⟨rfl, -⟩ ⟨rfl, -⟩
    rfl
  case entries =>
    rintro x y ⟨rfl, -⟩
    refine .refl fun p hp r hr => ⟨rfl, ?_⟩
    exact hclosed.references x r (List.mem_flatMap.mpr ⟨p, hp, hr⟩)
  case name =>
    rintro x y ⟨rfl, -⟩
    rfl
  case parent =>
    rintro x y x' y' ⟨rfl, -⟩ ⟨rfl, -⟩
    rfl

end World

end ScriptTree
