import Mathlib.Data.Finset.Card
import ScriptTree.World.Lineage

/-!
# Nodes that support each other

The marks of the nodes that are alive start from all nodes and drop those that nothing marked refers
to. What is left is the greatest set of nodes each of which is held or referred to from inside the
set (`alive_iff`), so a node is alive just when some such set has it.
-/

set_option autoImplicit false

namespace ScriptTree.World

/-- Every node of the set is held, or is a node of the world that an entry of a node of the set
refers to. -/
def Supports (w : World) (nodes : NodeId → Prop) : Prop :=
  ∀ x, nodes x → x ∈ w.holders ∨
    x.index < w.cells.size ∧ ∃ y, nodes y ∧ x ∈ references (w.cell y)

/-- The index is marked. -/
def Marked (marked : Array Bool) (i : Nat) : Prop := marked.getD i false = true

instance (marked : Array Bool) (i : Nat) : Decidable (Marked marked i) :=
  inferInstanceAs (Decidable (_ = true))

theorem Marked.lt_size {marked : Array Bool} {i : Nat} (h : Marked marked i) : i < marked.size := by
  refine Nat.lt_of_not_le fun hge => ?_
  rw [Marked, Array.getD_eq_getD_getElem?, Array.getElem?_eq_none hge] at h
  cases h

theorem size_foldl_marks (nodes : List NodeId) (marked : Array Bool) :
    (nodes.foldl (fun m n => m.setIfInBounds n.index true) marked).size = marked.size := by
  induction nodes generalizing marked with
  | nil => rfl
  | cons n rest ih => rw [List.foldl_cons, ih, Array.size_setIfInBounds]

theorem size_marks (size : Nat) (nodes : List NodeId) : (marks size nodes).size = size := by
  rw [marks, size_foldl_marks, Array.size_replicate]

theorem marked_setIfInBounds (marked : Array Bool) (i j : Nat) :
    Marked (marked.setIfInBounds i true) j ↔ (i = j ∧ j < marked.size) ∨ Marked marked j := by
  rw [Marked, Marked, Array.getD_eq_getD_getElem?, Array.getD_eq_getD_getElem?,
    Array.getElem?_setIfInBounds]
  by_cases hij : i = j
  · subst hij
    by_cases hi : i < marked.size
    · simp [hi]
    · simp [hi]
  · simp [hij]

theorem marked_foldl_iff (nodes : List NodeId) (marked : Array Bool) (i : Nat) :
    Marked (nodes.foldl (fun m n => m.setIfInBounds n.index true) marked) i ↔
      (i < marked.size ∧ (⟨i⟩ : NodeId) ∈ nodes) ∨ Marked marked i := by
  induction nodes generalizing marked with
  | nil => simp
  | cons n rest ih =>
      rw [List.foldl_cons, ih, Array.size_setIfInBounds, marked_setIfInBounds, List.mem_cons]
      have hn : n.index = i ↔ (⟨i⟩ : NodeId) = n := by
        cases n
        simp [eq_comm]
      rw [hn]
      tauto

theorem marked_marks_iff (size : Nat) (nodes : List NodeId) (i : Nat) :
    Marked (marks size nodes) i ↔ i < size ∧ (⟨i⟩ : NodeId) ∈ nodes := by
  have hnone : ¬ Marked (Array.replicate size false) i := by
    rw [Marked, Array.getD_eq_getD_getElem?, Array.getElem?_replicate]
    by_cases hi : i < size
    · simp [hi]
    · simp [hi]
  -- The fold adds the nodes of the list to an array without marks.
  rw [marks, marked_foldl_iff, Array.size_replicate]
  tauto

variable {w : World}

/-- A round keeps a node that is held or that an entry of a marked node refers to. -/
theorem marked_survivors_iff {marked : Array Bool} {i : Nat} :
    Marked (w.survivors marked) i ↔ i < w.cells.size ∧
      ((⟨i⟩ : NodeId) ∈ w.holders ∨
        ∃ j < w.cells.size, Marked marked j ∧ (⟨i⟩ : NodeId) ∈ references (w.cell ⟨j⟩)) := by
  have hreferred : (⟨i⟩ : NodeId) ∈ (List.range w.cells.size).flatMap (fun j =>
      if marked.getD j false then references (w.cell ⟨j⟩) else []) ↔
      ∃ j < w.cells.size, Marked marked j ∧ (⟨i⟩ : NodeId) ∈ references (w.cell ⟨j⟩) := by
    rw [List.mem_flatMap]
    constructor
    · rintro ⟨j, hj, hmem⟩
      split at hmem
      · rename_i hmarked
        exact ⟨j, List.mem_range.mp hj, hmarked, hmem⟩
      · cases hmem
    · rintro ⟨j, hj, hmarked, hmem⟩
      refine ⟨j, List.mem_range.mpr hj, ?_⟩
      rw [Marked] at hmarked
      rw [if_pos hmarked]
      exact hmem
  rw [survivors, marked_marks_iff, List.mem_append, hreferred]

theorem size_survivors (marked : Array Bool) : (w.survivors marked).size = w.cells.size :=
  size_marks _ _

/-- More marks keep more nodes. -/
theorem survivors_mono {marked marked' : Array Bool} (h : ∀ i, Marked marked i → Marked marked' i)
    {i : Nat} (hi : Marked (w.survivors marked) i) : Marked (w.survivors marked') i := by
  rw [marked_survivors_iff] at hi ⊢
  obtain ⟨hlt, hheld | ⟨j, hj, hmarked, hmem⟩⟩ := hi
  · exact ⟨hlt, .inl hheld⟩
  · exact ⟨hlt, .inr ⟨j, hj, h j hmarked, hmem⟩⟩

theorem lt_size_of_mem_references {x y : NodeId} (h : x ∈ references (w.cell y)) :
    y.index < w.cells.size := by
  refine Nat.lt_of_not_le fun hge => ?_
  rw [cell, Array.getD_eq_getD_getElem?, Array.getElem?_eq_none hge] at h
  cases h

/-! ## What the rounds leave -/

/-- No round drops a node of a set whose nodes support each other. -/
theorem marked_settle_of_supports {nodes : NodeId → Prop} (h : w.Supports nodes) (fuel : Nat)
    {marked : Array Bool} (hall : ∀ x : NodeId, nodes x → x.index < w.cells.size →
      Marked marked x.index) {x : NodeId} (hx : nodes x) (hlt : x.index < w.cells.size) :
    Marked (w.settle fuel marked) x.index := by
  induction fuel generalizing marked with
  | zero => exact hall x hx hlt
  | succ fuel ih =>
      -- One round keeps the whole set, for what supports a node of it is marked.
      have hnext : ∀ x : NodeId, nodes x → x.index < w.cells.size →
          Marked (w.survivors marked) x.index := by
        intro x hx hlt
        rw [marked_survivors_iff]
        obtain hheld | ⟨-, y, hy, hmem⟩ := h x hx
        · exact ⟨hlt, .inl hheld⟩
        · have hylt := lt_size_of_mem_references hmem
          exact ⟨hlt, .inr ⟨y.index, hylt, hall y hy hylt, hmem⟩⟩
      rw [settle]
      split
      · exact hall x hx hlt
      · exact ih hnext

/-- The number of marked nodes. -/
def markCount (size : Nat) (marked : Array Bool) : Nat :=
  ((Finset.range size).filter (Marked marked)).card

/-- A round that is not the last drops a node. -/
theorem markCount_lt {marked next : Array Bool} (hsize : marked.size = next.size)
    (hle : ∀ i, Marked next i → Marked marked i) (hne : next ≠ marked) :
    markCount marked.size next < markCount marked.size marked := by
  obtain ⟨i, hi, hmarked, hdropped⟩ : ∃ i < marked.size, Marked marked i ∧ ¬ Marked next i := by
    by_contra hnone
    refine hne (Array.ext hsize.symm fun i hi hi' => ?_)
    have hback : Marked marked i → Marked next i := by
      intro hmarked
      by_contra hdropped
      exact hnone ⟨i, hi', hmarked, hdropped⟩
    have hiff : Marked next i ↔ Marked marked i := ⟨hle i, hback⟩
    rw [Marked, Marked, Array.getD_eq_getD_getElem?, Array.getD_eq_getD_getElem?,
      Array.getElem?_eq_getElem hi, Array.getElem?_eq_getElem hi'] at hiff
    exact Bool.eq_iff_iff.mpr hiff
  refine Finset.card_lt_card ?_
  rw [Finset.ssubset_iff_of_subset]
  · refine ⟨i, ?_, ?_⟩
    · exact Finset.mem_filter.mpr ⟨Finset.mem_range.mpr hi, hmarked⟩
    · intro hmem
      exact hdropped (Finset.mem_filter.mp hmem).2
  · intro j hj
    rw [Finset.mem_filter] at hj ⊢
    exact ⟨hj.1, hle j hj.2⟩

/-- As many rounds as there are marked nodes lead to marks that a round keeps. -/
theorem marked_survivors_settle (fuel : Nat) {marked : Array Bool}
    (hsize : marked.size = w.cells.size)
    (hle : ∀ i, Marked (w.survivors marked) i → Marked marked i)
    (hfuel : markCount w.cells.size marked ≤ fuel) {i : Nat}
    (hi : Marked (w.settle fuel marked) i) : Marked (w.survivors (w.settle fuel marked)) i := by
  induction fuel generalizing marked with
  | zero =>
      -- Without fuel nothing is marked, so there is nothing to keep.
      have hempty := Finset.card_eq_zero.mp (Nat.le_zero.mp hfuel)
      have hlt : i < w.cells.size := hsize ▸ Marked.lt_size hi
      have hmem : i ∈ (Finset.range w.cells.size).filter (Marked marked) :=
        Finset.mem_filter.mpr ⟨Finset.mem_range.mpr hlt, hi⟩
      rw [hempty] at hmem
      exact absurd hmem (Finset.notMem_empty i)
  | succ fuel ih =>
      rw [settle] at hi ⊢
      by_cases hlast : (w.survivors marked == marked) = true
      · rw [if_pos hlast] at hi ⊢
        rw [eq_of_beq hlast]
        exact hi
      · rw [if_neg hlast] at hi ⊢
        have hne : w.survivors marked ≠ marked := by
          intro heq
          exact hlast (beq_iff_eq.mpr heq)
        -- The round has dropped a node, which pays for the fuel that it took.
        have hcount := markCount_lt (hsize.trans (size_survivors marked).symm) hle hne
        rw [hsize] at hcount
        exact ih (size_survivors marked) (fun j hj => survivors_mono hle hj) (by omega) hi

theorem marked_survivors_living {i : Nat} (hi : Marked w.living i) :
    Marked (w.survivors w.living) i := by
  refine marked_survivors_settle w.cells.size Array.size_replicate ?_ ?_ hi
  · intro j hj
    rw [Marked, Array.getD_eq_getD_getElem?, Array.getElem?_replicate,
      if_pos (marked_survivors_iff.mp hj).1]
    rfl
  · exact (Finset.card_filter_le _ _).trans (Finset.card_range _).le

/-- A node is alive just when it belongs to nodes that support each other. -/
theorem alive_iff {x : NodeId} : w.alive x = true ↔ ∃ nodes, nodes x ∧ w.Supports nodes := by
  constructor
  · intro halive
    -- The nodes that the last round leaves, with those held, support each other.
    refine ⟨fun y => y ∈ w.holders ∨ Marked w.living y.index, ?_, ?_⟩
    · rw [alive, Bool.or_eq_true, List.contains_iff_mem] at halive
      exact halive
    · rintro y (hheld | hmarked)
      · exact .inl hheld
      · obtain ⟨hlt, hheld | ⟨j, -, hj, hmem⟩⟩ :=
          marked_survivors_iff.mp (marked_survivors_living hmarked)
        · exact .inl hheld
        · exact .inr ⟨hlt, ⟨j⟩, .inr hj, hmem⟩
  · rintro ⟨nodes, hx, hsupports⟩
    rw [alive, Bool.or_eq_true, List.contains_iff_mem]
    obtain hheld | ⟨hlt, -⟩ := hsupports x hx
    · exact .inl hheld
    · refine .inr (marked_settle_of_supports hsupports w.cells.size ?_ hx hlt)
      intro y hy hylt
      rw [Marked, Array.getD_eq_getD_getElem?, Array.getElem?_replicate, if_pos hylt]
      rfl

end ScriptTree.World
