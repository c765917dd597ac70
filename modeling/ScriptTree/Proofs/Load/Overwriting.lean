import ScriptTree.Proofs.Load.Merge
import ScriptTree.Proofs.World.Revised

/-!
# Texts stored over entries

A text that is stored in a node may take the place of an entry, and what was below that entry may be
let go. Any other node keeps its parent (`parent?_put_text`). So a node that is apart from what lies
above it keeps its lineage when a text is stored in it or below it (`Apart.put_text`). The marks of
files that are under way hold no node (`alive_loading`).
-/

set_option autoImplicit false

namespace ScriptTree

namespace World

variable {w : World} {n : NodeId}

/-- Marks of files keep no node alive. -/
theorem alive_loading (w : World) (files : List String) (m : NodeId) :
    ({ w with loading := files } : World).alive m = w.alive m := by
  rw [Bool.eq_iff_iff]
  constructor
  · intro halive
    apply alive_mono (w := { w with loading := files }) _ _ _ halive
    · rfl
    · exact Nat.le_refl _
    · exact fun _ _ href => href
  · intro halive
    apply alive_mono (w := w) _ _ _ halive
    · rfl
    · exact Nat.le_refl _
    · exact fun _ _ href => href

theorem parent?_loading (w : World) (files : List String) (m : NodeId) :
    ({ w with loading := files } : World).parent? m = w.parent? m := by
  rw [parent?, parent?]
  congr 1
  funext p
  exact alive_loading w files p

theorem closed_loading (h : w.Closed) (files : List String) :
    ({ w with loading := files } : World).Closed :=
  ⟨h.references, h.parents, h.holders⟩

/-- A node keeps its parent, unless that lies below the value that was stored before. -/
theorem parent?_put_text (hn : n.index < w.cells.size) (key text : String) (m : NodeId) :
    (w.put n key (.text text)).parent? m = w.parent? m ∨
      (w.put n key (.text text)).parent? m = none ∧ ∃ value p, w.getRaw n key = some value ∧
        w.parent? m = some p ∧ ∃ r ∈ value.nodes, w.Below r p := by
  -- A text is stored as it is.
  show (w.set n key (.text text)).parent? m = _ ∨ (w.set n key (.text text)).parent? m = none ∧ _
  rcases @parent?_set w n key (.text text) hn (by simp [Value.nodes]) m with
    hsame | ⟨hnone, p, hp, value, hvalue, r, hr, -, hbelow⟩
  · exact .inl hsame
  · exact .inr ⟨hnone, value, p, hvalue, hp, r, hr, hbelow⟩

/-- A text is stored in a node or below it, and nothing above the node is below it: what lies above
stays, and stays apart. -/
theorem Apart.put_text (h : w.Apart n) {x : NodeId} (hx : x.index < w.cells.size)
    (hbeneath : w.Below n x) (key text : String) :
    (∀ m, w.Above n m → (w.put x key (.text text)).parent? m = w.parent? m) ∧
      (w.put x key (.text text)).Apart n := by
  have hparent : ∀ m, w.Above n m → (w.put x key (.text text)).parent? m = w.parent? m := by
    intro m hm
    rcases parent?_put_text hx key text m with hsame | ⟨-, value, p, hvalue, hp, r, hr, hbelow⟩
    · exact hsame
    · -- The parent would be above the node and below it.
      have href : r ∈ references (w.cell x) :=
        List.mem_flatMap.mpr ⟨(key, value), Entries.mem_of_get?_eq_some hvalue, hr⟩
      have hunder : w.Under n p := (Relation.TransGen.tail' hbeneath href).trans_left hbelow
      exact absurd hunder (h p (hm.tail hp))
  refine ⟨hparent, h.transfer hparent ?_⟩
  intro m hunder _
  refine Relation.TransGen.mono ?_ _ _ hunder
  intro u v href
  by_cases hu : x = u
  · subst hu
    rw [references, cell_put_self hx] at href
    obtain ⟨p, hp, hin⟩ := List.mem_flatMap.mp href
    rcases Entries.mem_insert hp with rfl | hold
    · cases hin
    · exact List.mem_flatMap.mpr ⟨p, hold, hin⟩
  · rw [references, entries_put_of_ne hu] at href
    exact href

end World

end ScriptTree
