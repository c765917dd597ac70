import ScriptTree.Proofs.World.Revised

/-!
# Worlds with more nodes

An evaluation makes blank nodes for the names that it may set, and it holds nodes. A world has what
another one has when it has only such nodes besides and holds only more of them (`World.Keeps`). All
entries read the same in both, a node with a parent keeps it, and a name that is found stays found
where it was (`Keeps.holder?`).
-/

set_option autoImplicit false

namespace ScriptTree

namespace World

/-- The second world has the nodes of the first as they are, with the same frames; it may have blank
nodes besides, and hold more of them. -/
structure Keeps (w w' : World) : Prop where
  size : w.cells.size ≤ w'.cells.size
  cell : ∀ m, w'.cell m = w.cell m
  engine : w'.engine = w.engine
  static : w'.static = w.static
  frames : w'.frames = w.frames
  held : ∀ m ∈ w.held, m ∈ w'.held

variable {w w' w'' : World} {n h m p : NodeId} {key : String}

namespace Keeps

theorem refl (w : World) : w.Keeps w where
  size := Nat.le_refl _
  cell := fun _ => rfl
  engine := rfl
  static := rfl
  frames := rfl
  held := fun _ hm => hm

theorem trans (hw : w.Keeps w') (hw' : w'.Keeps w'') : w.Keeps w'' where
  size := Nat.le_trans hw.size hw'.size
  cell := fun m => (hw'.cell m).trans (hw.cell m)
  engine := hw'.engine.trans hw.engine
  static := hw'.static.trans hw.static
  frames := hw'.frames.trans hw.frames
  held := fun m hm => hw'.held m (hw.held m hm)

theorem hold (hw : w.Keeps w') (nodes : List NodeId) : w.Keeps (w'.hold nodes) :=
  { hw with held := fun m hm => List.mem_append_right _ (hw.held m hm) }

/-- What was held before is held again. -/
theorem reheld (hw : w.Keeps w') {held : List NodeId} (hheld : held = w.held) :
    w.Keeps (w'.reheld held) :=
  { hw with held := fun _ hm => hheld ▸ hm }

/-- A blank node besides. -/
theorem create (w : World) : w.Keeps (w.create false).2 where
  size := by
    show w.cells.size ≤ (w.cells.push _).size
    rw [Array.size_push]
    exact Nat.le_succ _
  cell := by
    intro m
    rw [cell_create]
    split
    · rename_i hlast
      rw [cell_of_size_le (Nat.le_of_eq hlast.symm)]
      rfl
    · rfl
  engine := rfl
  static := rfl
  frames := rfl
  held := fun _ hm => hm

theorem containsKey (hw : w.Keeps w') (m : NodeId) (key : String) :
    w'.containsKey m key = w.containsKey m key := by
  rw [World.containsKey, hw.cell, World.containsKey]

theorem getRaw (hw : w.Keeps w') (m : NodeId) (key : String) :
    w'.getRaw m key = w.getRaw m key := by
  rw [World.getRaw, hw.cell, World.getRaw]

theorem alive (hw : w.Keeps w') (hm : w.alive m = true) : w'.alive m = true := by
  obtain ⟨nodes, hnode, hsupports⟩ := alive_iff.mp hm
  refine alive_iff.mpr ⟨nodes, hnode, fun x hx => ?_⟩
  rcases hsupports x hx with hholder | ⟨hlt, y, hy, href⟩
  · left
    rw [holders, hw.static, hw.frames]
    simp only [holders, List.mem_cons, List.mem_append] at hholder ⊢
    exact hholder.imp_right fun h => h.imp_right (hw.held x)
  · exact .inr ⟨Nat.lt_of_lt_of_le hlt hw.size, y, hy, hw.cell y ▸ href⟩

theorem parent? (hw : w.Keeps w') (hp : w.parent? m = some p) : w'.parent? m = some p := by
  rw [World.parent?, Option.filter_eq_some_iff] at hp ⊢
  exact ⟨(hw.cell m).symm ▸ hp.1, hw.alive hp.2⟩

theorem evaluatesOn (hw : w.Keeps w') : w'.evaluatesOn n = w.evaluatesOn n := by
  rw [World.evaluatesOn, hw.cell, hw.engine, World.evaluatesOn]

/-- Storing the same value in both worlds. -/
theorem set (hw : w.Keeps w') (hn : n.index < w.cells.size) (x : Value) :
    (w.set n key x).Keeps (w'.set n key x) where
  size := by
    rw [World.set, size_modifyCell, World.set, size_modifyCell]
    exact hw.size
  cell := by
    intro m
    rw [cell_set hn, cell_set (Nat.lt_of_lt_of_le hn hw.size), hw.cell, hw.cell]
  engine := hw.engine
  static := hw.static
  frames := hw.frames
  held := hw.held

end Keeps

/-! ## Names that stay found -/

/-- A name that is found on the way up is found where the way up is the same or goes on. -/
theorem find?_ancestors_of_links (hlinks : ∀ m p, w.parent? m = some p → w'.parent? m = some p)
    (test : NodeId → Bool) {fuel fuel' : Nat} (hfuel : fuel ≤ fuel') {passed : List NodeId}
    (hfind : (w.ancestors fuel passed n).find? test = some h) :
    (w'.ancestors fuel' passed n).find? test = some h := by
  induction fuel generalizing fuel' passed n with
  | zero => cases hfind
  | succ fuel ih =>
      obtain ⟨fuel', rfl⟩ : ∃ k, fuel' = k + 1 := ⟨fuel' - 1, by omega⟩
      rw [ancestors] at hfind ⊢
      cases hp : w.parent? n with
      | none =>
          rw [hp] at hfind
          cases hfind
      | some p =>
          rw [hp] at hfind
          rw [hlinks n p hp]
          dsimp only at hfind ⊢
          split at hfind
          · cases hfind
          · rename_i hnew
            rw [if_neg hnew]
            rw [List.find?_cons] at hfind ⊢
            split at hfind
            · exact hfind
            · exact ih (Nat.le_of_succ_le_succ hfuel) hfind

theorem holder?_of_links (hsize : w.cells.size ≤ w'.cells.size)
    (hlinks : ∀ m p, w.parent? m = some p → w'.parent? m = some p)
    (hkeys : ∀ m, w'.containsKey m key = w.containsKey m key)
    (hfound : w.holder? n key = some h) : w'.holder? n key = some h := by
  have hsame : (fun m => w'.containsKey m key) = fun m => w.containsKey m key := funext hkeys
  rw [holder?, lineage, List.find?_cons] at hfound ⊢
  rw [hsame]
  split at hfound
  · rename_i hn
    rw [hkeys, hn]
    exact hfound
  · rename_i hn
    rw [hkeys, hn]
    exact find?_ancestors_of_links hlinks _ hsize hfound

theorem Keeps.holder? (hw : w.Keeps w') (hfound : w.holder? n key = some h) :
    w'.holder? n key = some h :=
  holder?_of_links hw.size (fun _ _ => hw.parent?) (fun m => hw.containsKey m key) hfound

/-- A name that is found in an entry with a list is found in it with a longer list. -/
theorem holder?_set_of_subset {xs ys : List Value} (hn : h.index < w.cells.size)
    (hsub : ys ⊆ xs) (hfound : (w.set h key (.list ys)).holder? n key = some h) :
    (w.set h key (.list xs)).holder? n key = some h := by
  have hsize : (w.set h key (.list ys)).cells.size = w.cells.size := size_modifyCell w h _
  have hlt : h.index < (w.set h key (.list ys)).cells.size := hsize.symm ▸ hn
  have hentry : (w.set h key (.list ys)).getRaw h key = some (.list ys) := by
    rw [getRaw_set_self w key key _ hn, if_pos (beq_self_eq_true key)]
  have hrevised := @revised_set _ h key _ (.list xs) hentry
  rw [← set_set hn key (.list ys) (.list xs)]
  refine holder?_of_links (Nat.le_of_eq hrevised.size.symm) ?_ ?_ hfound
  · intro m p hp
    rw [parent?, Option.filter_eq_some_iff] at hp ⊢
    refine ⟨(hrevised.links m).trans hp.1, ?_⟩
    rcases @alive_set _ h key (.list xs) hlt p hp.2 with hstays | ⟨old, hold, r, hr, hgone, -⟩
    · exact hstays
    · -- Nothing of the shorter list is missing in the longer one.
      obtain rfl : .list ys = old := Option.some.inj (hentry.symm.trans hold)
      obtain ⟨y, hy, hin⟩ := Value.mem_allNodes.mp hr
      exact absurd (Value.mem_allNodes.mpr ⟨y, hsub hy, hin⟩) hgone
  · exact fun m => hrevised.containsKey m key

end World

end ScriptTree
