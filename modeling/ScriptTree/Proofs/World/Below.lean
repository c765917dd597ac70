import Mathlib.Logic.Relation
import ScriptTree.Proofs.World.Alive

/-!
# What lies below a node

A node lies below another one when entries lead down to it. What is below a node that is alive is
alive (`alive_of_below`). What is below some nodes may be all that these keep alive, so a world in
which only such references are gone keeps every other node alive (`alive_of_supported`). A node is
apart when nothing above it lies below it (`Apart`), as it is in a tree.
-/

set_option autoImplicit false

namespace ScriptTree.World

/-- Entries lead from the first node down to the second. -/
def Below (w : World) : NodeId → NodeId → Prop :=
  Relation.ReflTransGen fun x y => y ∈ references (w.cell x)

variable {w w' : World}

/-- A node stays alive when references are gone only to nodes of a set that it is not in, and all
that is below nodes of the set is in the set. -/
theorem alive_of_supported (dropped : NodeId → Prop) (hholders : w'.holders = w.holders)
    (hsize : w.cells.size ≤ w'.cells.size)
    (hdown : ∀ x y, dropped x → y ∈ references (w.cell x) → dropped y)
    (hkept : ∀ x y, ¬ dropped x → ¬ dropped y → y ∈ references (w.cell x) →
      y ∈ references (w'.cell x))
    {n : NodeId} (hn : ¬ dropped n) (halive : w.alive n = true) : w'.alive n = true := by
  obtain ⟨nodes, hmem, hsupports⟩ := alive_iff.mp halive
  apply alive_iff.mpr
  refine ⟨fun x => nodes x ∧ ¬ dropped x, ⟨hmem, hn⟩, ?_⟩
  rintro x ⟨hx, hstays⟩
  rcases hsupports x hx with hheld | ⟨hlt, y, hy, href⟩
  · exact .inl (hholders ▸ hheld)
  · -- What refers to a node outside the set is outside the set.
    have hy' : ¬ dropped y := fun hdropped => hstays (hdown y x hdropped href)
    exact .inr ⟨Nat.lt_of_lt_of_le hlt hsize, y, ⟨hy, hy'⟩, hkept y x hy' hstays href⟩

/-- Worlds where every node refers to the same nodes keep the same nodes alive. -/
theorem alive_mono (hholders : w'.holders = w.holders) (hsize : w.cells.size ≤ w'.cells.size)
    (hkept : ∀ x y, y ∈ references (w.cell x) → y ∈ references (w'.cell x)) {n : NodeId}
    (halive : w.alive n = true) : w'.alive n = true := by
  apply alive_of_supported (fun _ => False) hholders hsize
  · exact fun _ _ h _ => h
  · exact fun x y _ _ => hkept x y
  · exact not_false
  · exact halive

/-- What is below a node that is alive is alive. -/
theorem alive_of_below (hrange : ∀ x y, y ∈ references (w.cell x) → y.index < w.cells.size)
    {n m : NodeId} (hbelow : w.Below n m) (halive : w.alive n = true) : w.alive m = true := by
  induction hbelow with
  | refl => exact halive
  | @tail x y _ href ih =>
      -- The nodes that support what refers to the node support it as well.
      obtain ⟨nodes, hmem, hsupports⟩ := alive_iff.mp ih
      apply alive_iff.mpr
      refine ⟨fun z => nodes z ∨ z = y, .inr rfl, ?_⟩
      rintro z (hz | rfl)
      · rcases hsupports z hz with hheld | ⟨hlt, u, hu, hrefers⟩
        · exact .inl hheld
        · exact .inr ⟨hlt, u, .inl hu, hrefers⟩
      · exact .inr ⟨hrange x z href, x, .inl hmem, href⟩

/-! ## What lies above a node -/

/-- Parents lead from the first node up to the second. -/
def Above (w : World) : NodeId → NodeId → Prop :=
  Relation.ReflTransGen fun x y => w.parent? x = some y

/-- Entries lead from the first node down to the second, in one step at least. -/
def Under (w : World) : NodeId → NodeId → Prop :=
  Relation.TransGen fun x y => y ∈ references (w.cell x)

/-- The node and what lies above it are not stored below the node. -/
def Apart (w : World) (n : NodeId) : Prop := ∀ m, w.Above n m → ¬ w.Under n m

variable {n : NodeId}

theorem above_of_mem_ancestors {fuel : Nat} {passed : List NodeId} {x m : NodeId}
    (hx : w.Above n x) (hm : m ∈ w.ancestors fuel passed x) : w.Above n m := by
  induction fuel generalizing passed x with
  | zero => cases hm
  | succ fuel ih =>
      rw [ancestors] at hm
      cases hp : w.parent? x with
      | none =>
          rw [hp] at hm
          cases hm
      | some p =>
          rw [hp] at hm
          dsimp only at hm
          split at hm
          · cases hm
          · rcases List.mem_cons.mp hm with rfl | hm
            · exact hx.tail hp
            · exact ih (hx.tail hp) hm

theorem above_of_mem_lineage {m : NodeId} (hm : m ∈ w.lineage n) : w.Above n m := by
  rcases List.mem_cons.mp hm with rfl | hm
  · exact .refl
  · exact above_of_mem_ancestors .refl hm

theorem ancestors_eq_of_above (h : ∀ m, w.Above n m → w'.parent? m = w.parent? m) {fuel : Nat}
    {passed : List NodeId} {x : NodeId} (hx : w.Above n x) :
    w'.ancestors fuel passed x = w.ancestors fuel passed x := by
  induction fuel generalizing passed x with
  | zero => rfl
  | succ fuel ih =>
      rw [ancestors, ancestors, h x hx]
      cases hp : w.parent? x with
      | none => rfl
      | some p =>
          dsimp only
          rw [ih (hx.tail hp)]

/-- The lineage is the same in a world of the same size where nothing above the node has another
parent. -/
theorem lineage_eq_of_above (hsize : w'.cells.size = w.cells.size)
    (h : ∀ m, w.Above n m → w'.parent? m = w.parent? m) : w'.lineage n = w.lineage n := by
  rw [lineage, lineage, hsize, ancestors_eq_of_above h .refl]

/-- A node stays apart when nothing above it gets another parent or comes to lie below it. -/
theorem Apart.transfer (h : w.Apart n) (hparent : ∀ m, w.Above n m → w'.parent? m = w.parent? m)
    (hunder : ∀ m, w'.Under n m → w.Above n m → w.Under n m) : w'.Apart n := by
  have habove : ∀ m, w'.Above n m → w.Above n m := by
    intro m hm
    induction hm with
    | refl => exact .refl
    | @tail x y _ hp ih =>
        rw [hparent x ih] at hp
        exact ih.tail hp
  intro m hm hbelow
  exact h m (habove m hm) (hunder m hbelow (habove m hm))

end ScriptTree.World
