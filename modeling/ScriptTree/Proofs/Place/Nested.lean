import ScriptTree.Proofs.World.Rename

/-!
# Lists in lists

The item of nested lists at a path of positions (`Value.follow`) and the value with another item
there (`Value.replaceAt`). Reading the path afterwards gives the item (`follow_replaceAt`), storing
what is there already changes nothing (`replaceAt_of_follow`), and storing an item of an inner list
is storing the changed inner list (`replaceAt_concat`). All nodes that the value refers to stay,
except those of the old item (`mem_nodes_replaceAt`).
-/

set_option autoImplicit false

namespace ScriptTree.Value

/-- The item of a list at a position. -/
def item? : Value → Nat → Option Value
  | .list items, i => items[i]?
  | _, _ => none

/-- The item of nested lists at a path of positions, the outermost first. -/
def follow : List Nat → Value → Option Value
  | [], x => some x
  | i :: path, x => (x.item? i).bind (follow path)

/-- The value with another item at a path of positions. -/
def replaceAt (y : Value) : List Nat → Value → Value
  | [], _ => y
  | i :: path, .list items => .list (items.modify i (replaceAt y path))
  | _ :: _, x => x

variable {x y z : Value} {path : List Nat}

theorem item?_eq_some {i : Nat} (h : x.item? i = some y) :
    ∃ items, x = .list items ∧ items[i]? = some y := by
  cases x with
  | list items => exact ⟨items, rfl, h⟩
  | _ => cases h

theorem follow_concat (path : List Nat) (i : Nat) (x : Value) :
    follow (path ++ [i]) x = (follow path x).bind (·.item? i) := by
  induction path generalizing x with
  | nil => simp [follow]
  | cons j path ih =>
      rw [List.cons_append, follow, follow]
      cases x.item? j with
      | none => rfl
      | some z => exact ih z

/-- An item changed in one of two ways that agree on it. -/
theorem modify_congr {items : List Value} {i : Nat} {f g : Value → Value}
    (hitem : items[i]? = some z) (h : f z = g z) : items.modify i f = items.modify i g := by
  refine List.ext_getElem? fun j => ?_
  rw [List.getElem?_modify, List.getElem?_modify]
  by_cases hj : i = j
  · subst hj
    simp [hitem, h]
  · simp [hj]

/-- An item of an inner list is replaced with the inner list. -/
theorem replaceAt_concat {items : List Value} (i : Nat)
    (h : follow path x = some (.list items)) :
    replaceAt y (path ++ [i]) x = replaceAt (.list (items.set i y)) path x := by
  induction path generalizing x with
  | nil =>
      obtain rfl := Option.some.inj h
      exact congrArg Value.list (List.set_eq_modify y i items).symm
  | cons j path ih =>
      obtain ⟨z, hitem, hfollow⟩ := Option.bind_eq_some_iff.mp h
      obtain ⟨outer, rfl, hz⟩ := item?_eq_some hitem
      exact congrArg Value.list (modify_congr hz (ih hfollow))

theorem follow_replaceAt (h : follow path x = some z) :
    follow path (replaceAt y path x) = some y := by
  induction path generalizing x with
  | nil => rfl
  | cons j path ih =>
      obtain ⟨u, hitem, hfollow⟩ := Option.bind_eq_some_iff.mp h
      obtain ⟨outer, rfl, hu⟩ := item?_eq_some hitem
      have hmodified : (outer.modify j (replaceAt y path))[j]? = some (replaceAt y path u) := by
        simp [hu]
      rw [replaceAt, follow, item?, hmodified]
      exact ih hfollow

/-- To put an item where it is already is to change nothing. -/
theorem replaceAt_of_follow (h : follow path x = some y) : replaceAt y path x = x := by
  induction path generalizing x with
  | nil => exact (Option.some.inj h).symm
  | cons j path ih =>
      obtain ⟨u, hitem, hfollow⟩ := Option.bind_eq_some_iff.mp h
      obtain ⟨outer, rfl, hu⟩ := item?_eq_some hitem
      rw [replaceAt, modify_congr (g := id) hu (ih hfollow), List.modify_id]

/-! ## The nodes of nested lists -/

theorem nodes_subset_of_follow (h : follow path x = some y) : y.nodes ⊆ x.nodes := by
  induction path generalizing x with
  | nil =>
      obtain rfl := Option.some.inj h
      exact List.Subset.refl _
  | cons j path ih =>
      obtain ⟨u, hitem, hfollow⟩ := Option.bind_eq_some_iff.mp h
      obtain ⟨outer, rfl, hu⟩ := item?_eq_some hitem
      exact fun r hr => mem_allNodes.mpr ⟨u, List.mem_of_getElem? hu, ih hfollow hr⟩

/-- A node of the value stays, unless it is one of the old item. -/
theorem mem_nodes_replaceAt (h : follow path x = some z) {r : NodeId} (hr : r ∈ x.nodes) :
    r ∈ (replaceAt y path x).nodes ∨ r ∈ z.nodes := by
  induction path generalizing x with
  | nil =>
      obtain rfl := Option.some.inj h
      exact .inr hr
  | cons j path ih =>
      obtain ⟨u, hitem, hfollow⟩ := Option.bind_eq_some_iff.mp h
      obtain ⟨outer, rfl, hu⟩ := item?_eq_some hitem
      obtain ⟨v, hv, hrv⟩ := mem_allNodes.mp hr
      obtain ⟨i, hi⟩ := List.mem_iff_getElem?.mp hv
      by_cases hij : j = i
      · -- The item that the path leads through.
        subst hij
        obtain rfl := Option.some.inj (hu.symm.trans hi)
        refine (ih hfollow hrv).imp_left fun hstays => mem_allNodes.mpr ⟨_, ?_, hstays⟩
        exact List.mem_iff_getElem?.mpr ⟨j, by simp [hu]⟩
      · refine .inl (mem_allNodes.mpr ⟨v, List.mem_iff_getElem?.mpr ⟨i, ?_⟩, hrv⟩)
        simp [hij, hi]

/-- A node of the changed value is one of the value or of the new item. -/
theorem mem_nodes_of_replaceAt {r : NodeId} (hr : r ∈ (replaceAt y path x).nodes) :
    r ∈ x.nodes ∨ r ∈ y.nodes := by
  induction path generalizing x with
  | nil => exact .inr hr
  | cons j path ih =>
      cases x with
      | list items =>
          obtain ⟨v, hv, hrv⟩ := mem_allNodes.mp hr
          obtain ⟨i, hi⟩ := List.mem_iff_getElem?.mp hv
          rw [List.getElem?_modify] at hi
          obtain ⟨u, hu, rfl⟩ := Option.map_eq_some_iff.mp hi
          have hitem : ∀ {q : NodeId}, q ∈ u.nodes → q ∈ (Value.list items).nodes :=
            fun hq => mem_allNodes.mpr ⟨u, List.mem_of_getElem? hu, hq⟩
          by_cases hij : j = i
          · rw [if_pos hij] at hrv
            exact (ih hrv).imp_left hitem
          · rw [if_neg hij] at hrv
            exact .inl (hitem hrv)
      | _ => exact .inl hr

end ScriptTree.Value
