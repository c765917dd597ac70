import ScriptTree.Proofs.Run.Continues
import ScriptTree.Proofs.World.Below
import ScriptTree.Proofs.World.Twin

/-!
# Entries with another value

A value that is stored as it is takes the place of the one under its key, and all else stays
(`World.Revised`). What was below the old value may be let go. Nothing else is: another node stays
alive (`alive_set`), and a node keeps its parent unless that is let go (`parent?_set`). A value that
is stored where it is already changes nothing (`set_of_getRaw`).
-/

set_option autoImplicit false

namespace ScriptTree

namespace Entries

variable {α : Type} {entries : Entries α} {key : String} {x : α}

/-- An entry stays when a value is stored, unless the value takes its place. -/
theorem mem_insert_of_mem (value : α) {p : String × α} (h : p ∈ entries) :
    p ∈ entries.insert key value ∨ entries.get? key = some p.2 := by
  induction entries with
  | nil => cases h
  | cons q rest ih =>
      obtain ⟨k, v⟩ := q
      rw [Entries.insert, Entries.get?_cons]
      rcases List.mem_cons.mp h with rfl | h
      · by_cases hk : (k == key) = true
        · rw [if_pos hk, if_pos hk]
          exact .inr rfl
        · rw [if_neg hk, if_neg hk]
          exact .inl List.mem_cons_self
      · by_cases hk : (k == key) = true
        · rw [if_pos hk, if_pos hk]
          exact .inl (List.mem_cons_of_mem _ h)
        · rw [if_neg hk, if_neg hk]
          rcases ih h with hmem | hfound
          · exact .inl (List.mem_cons_of_mem _ hmem)
          · exact .inr hfound

theorem insert_insert_self (entries : Entries α) (key : String) (x y : α) :
    (entries.insert key x).insert key y = entries.insert key y := by
  induction entries with
  | nil => simp [insert]
  | cons p rest ih =>
      obtain ⟨k, v⟩ := p
      by_cases hk : k = key
      · simp [insert, hk]
      · simp [insert, hk, ih]

theorem insert_of_get? (h : entries.get? key = some x) : entries.insert key x = entries := by
  induction entries with
  | nil => cases h
  | cons p rest ih =>
      obtain ⟨k, v⟩ := p
      rw [get?_cons] at h
      rw [insert]
      split
      · rename_i hk
        rw [if_pos hk] at h
        rw [Option.some.inj h]
      · rename_i hk
        rw [if_neg hk] at h
        rw [ih h]

end Entries

namespace World

/-- In the second world one entry has another value; all else is the same. -/
structure Revised (w w' : World) (n : NodeId) (key : String) (old new : Value) : Prop where
  before : w.getRaw n key = some old
  after : w'.getRaw n key = some new
  others : ∀ m k, (m, k) ≠ (n, key) → w'.getRaw m k = w.getRaw m k
  keys : ∀ m, w'.keys m = w.keys m
  names : ∀ m, (w'.cell m).name = (w.cell m).name
  links : ∀ m, (w'.cell m).parent = (w.cell m).parent
  engined : ∀ m, (w'.cell m).engined = (w.cell m).engined
  size : w'.cells.size = w.cells.size
  besides : w' = { w with cells := w'.cells }

variable {w : World} {n : NodeId} {key : String} {old new : Value}

theorem lt_size_of_getRaw (h : w.getRaw n key = some old) : n.index < w.cells.size := by
  by_contra hn
  rw [getRaw, cell_of_size_le (Nat.not_lt.mp hn)] at h
  cases h

theorem cell_set (hn : n.index < w.cells.size) (m : NodeId) :
    (w.set n key new).cell m = if n = m then
      { w.cell n with entries := (w.cell n).entries.insert key new } else w.cell m := by
  split
  · rename_i hm
    subst hm
    exact cell_modifyCell_self w _ hn
  · rename_i hm
    exact cell_modifyCell_of_ne w _ hm

theorem link_set (hn : n.index < w.cells.size) (m : NodeId) :
    ((w.set n key new).cell m).parent = (w.cell m).parent := by
  rw [cell_set hn]
  split <;> simp_all

theorem revised_set (h : w.getRaw n key = some old) :
    w.Revised (w.set n key new) n key old new := by
  have hn := lt_size_of_getRaw h
  constructor
  case before => exact h
  case after => simp [getRaw_set_self w key key new hn]
  case others =>
    intro m k hne
    by_cases hm : n = m
    · subst hm
      have hk : ¬ key = k := fun hk => hne (by rw [hk])
      simp [getRaw_set_self w key k new hn, hk]
    · exact getRaw_set_of_ne w key k new hm
  case keys =>
    intro m
    rw [World.keys, cell_set hn]
    split
    · rename_i hm
      subst hm
      refine Entries.keys_insert_of_mem _ new ((Entries.contains_iff_mem_keys _ key).mp ?_)
      exact Option.isSome_iff_exists.mpr ⟨old, h⟩
    · rfl
  case names | engined =>
    intro m
    rw [cell_set hn]
    split <;> simp_all
  case links => exact link_set hn
  case size => exact size_modifyCell w n _
  case besides => rfl

theorem containsKey_of_keys {w' : World} {m : NodeId} (hkeys : w'.keys m = w.keys m) (k : String) :
    w'.containsKey m k = w.containsKey m k := by
  rw [Bool.eq_iff_iff, World.containsKey, World.containsKey, Entries.contains_iff_mem_keys,
    Entries.contains_iff_mem_keys]
  exact iff_of_eq (congrArg (k ∈ ·) hkeys)

theorem Revised.containsKey {w' : World} (hw : w.Revised w' n key old new) (m : NodeId)
    (k : String) : w'.containsKey m k = w.containsKey m k :=
  containsKey_of_keys (hw.keys m) k

/-- Worlds that have the same nodes and agree in all else are the same. -/
theorem eq_of_cell {w' : World} (hcell : ∀ m, w'.cell m = w.cell m)
    (hsize : w'.cells.size = w.cells.size) (hbesides : w' = { w with cells := w'.cells }) :
    w' = w := by
  have hcells : w'.cells = w.cells := by
    refine Array.ext hsize fun i hi hi' => ?_
    have hget : ∀ {v : World} (hv : i < v.cells.size), v.cells[i] = v.cell ⟨i⟩ := by
      intro v hv
      simp [cell, hv]
    rw [hget hi, hget hi', hcell]
  rw [hbesides, hcells]

/-- To store what is there already is to change nothing. -/
theorem set_of_getRaw (h : w.getRaw n key = some old) : w.set n key old = w := by
  have hn := lt_size_of_getRaw h
  refine eq_of_cell (fun m => ?_) (size_modifyCell w n _) rfl
  rw [cell_set hn]
  split
  · rename_i hm
    rw [Entries.insert_of_get? h, hm]
  · rfl

/-- The value that is stored last counts. -/
theorem set_set (hn : n.index < w.cells.size) (key : String) (x y : Value) :
    (w.set n key x).set n key y = w.set n key y := by
  have hsize : (w.set n key x).cells.size = w.cells.size := size_modifyCell w n _
  refine eq_of_cell (fun m => ?_) ?_ rfl
  · rw [cell_set (hsize.symm ▸ hn), cell_set hn, cell_set hn, cell_set hn]
    by_cases hm : n = m
    · simp [hm, Entries.insert_insert_self]
    · simp [hm]
  · rw [World.set, size_modifyCell, hsize, World.set, size_modifyCell]

/-! ## What is let go -/

/-- Only what is below the old value is let go, and of that only what is below a node that the new
value leaves out. -/
theorem alive_set (hn : n.index < w.cells.size) {m : NodeId} (halive : w.alive m = true) :
    (w.set n key new).alive m = true ∨ ∃ old, w.getRaw n key = some old ∧
      ∃ r ∈ old.nodes, r ∉ new.nodes ∧ w.Below r m := by
  by_cases hbelow : ∃ old, w.getRaw n key = some old ∧ ∃ r ∈ old.nodes, r ∉ new.nodes ∧ w.Below r m
  · exact .inr hbelow
  · left
    apply alive_of_supported (w := w) (fun x => ∃ old, w.getRaw n key = some old ∧
      ∃ r ∈ old.nodes, r ∉ new.nodes ∧ w.Below r x)
    · rfl
    · exact Nat.le_of_eq (size_modifyCell w n _).symm
    · rintro x y ⟨old, hold, r, hr, hnew, hx⟩ href
      exact ⟨old, hold, r, hr, hnew, hx.tail href⟩
    · intro x y _ hy href
      rw [cell_set hn]
      split
      · rename_i hx
        subst hx
        -- The reference is from an entry that stays, or the new value has it too.
        obtain ⟨p, hp, hin⟩ := List.mem_flatMap.mp href
        rcases Entries.mem_insert_of_mem new hp with hstays | hfound
        · exact List.mem_flatMap.mpr ⟨p, hstays, hin⟩
        · by_cases hnew : y ∈ new.nodes
          · refine List.mem_flatMap.mpr ⟨(key, new), ?_, hnew⟩
            refine Entries.mem_of_get?_eq_some ?_
            rw [Entries.get?_insert, if_pos (beq_self_eq_true key)]
          · exact absurd ⟨p.2, hfound, y, hin, hnew, .refl⟩ hy
      · exact href
    · exact hbelow
    · exact halive

/-- A value that refers to no more nodes keeps no node alive that was not. -/
theorem alive_of_set (hn : n.index < w.cells.size)
    (hnew : ∀ r ∈ new.nodes, r ∈ references (w.cell n)) {m : NodeId}
    (halive : (w.set n key new).alive m = true) : w.alive m = true := by
  apply alive_mono (w := w.set n key new) _ _ _ halive
  · rfl
  · exact Nat.le_of_eq (size_modifyCell w n _)
  · intro x y href
    rw [cell_set hn] at href
    split at href
    · rename_i hx
      subst hx
      obtain ⟨p, hp, hin⟩ := List.mem_flatMap.mp href
      rcases Entries.mem_insert hp with rfl | hold
      · exact hnew y hin
      · exact List.mem_flatMap.mpr ⟨p, hold, hin⟩
    · exact href

/-- A node keeps its parent, unless that lies below a node that the new value leaves out. -/
theorem parent?_set (hn : n.index < w.cells.size)
    (hnew : ∀ r ∈ new.nodes, r ∈ references (w.cell n)) (m : NodeId) :
    (w.set n key new).parent? m = w.parent? m ∨
      (w.set n key new).parent? m = none ∧ ∃ p, w.parent? m = some p ∧
        ∃ old, w.getRaw n key = some old ∧ ∃ r ∈ old.nodes, r ∉ new.nodes ∧ w.Below r p := by
  rw [parent?, parent?, link_set hn]
  cases hparent : (w.cell m).parent with
  | none => exact .inl rfl
  | some p =>
      rw [Option.filter_some, Option.filter_some]
      by_cases hp : w.alive p = true
      · rw [if_pos hp]
        rcases @alive_set w n key new hn p hp with hstays | hbelow
        · rw [if_pos hstays]
          exact .inl rfl
        · -- The parent lies below what is gone.
          split
          · exact .inl rfl
          · exact .inr ⟨rfl, p, rfl, hbelow⟩
      · rw [if_neg hp, if_neg fun h => hp (alive_of_set hn hnew h)]
        exact .inl rfl

end World

end ScriptTree
