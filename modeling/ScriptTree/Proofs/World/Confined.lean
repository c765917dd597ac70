import ScriptTree.Proofs.World.Forest
import ScriptTree.Scope.Frame

/-!
# Worlds that differ in bindings only

From one world to another stores have been confined to some nodes and to new ones when all other
entries and the names and links of all nodes are as they were, and nothing that was dead is referred
to (`World.Confined`). Nothing comes to life then (`Confined.met_of_alive`). Where no old node was
open to stores, the nodes have the parents and the paths that they had (`Confined.parent?_eq`,
`Confined.path_eq`).
-/

set_option autoImplicit false

namespace ScriptTree.World

variable {v a b : World} {sites nodes : List NodeId} {n m x : NodeId} {key : String} {value : Value}

/-- A run that starts in the world may meet the node: it is alive there, or new. -/
def Met (v : World) (x : NodeId) : Prop := v.alive x = true ∨ v.cells.size ≤ x.index

/-- A run that starts in the world may store in the node: it is one of the given nodes, or new. -/
def Open (v : World) (sites : List NodeId) (x : NodeId) : Prop :=
  x ∈ sites ∨ v.cells.size ≤ x.index

/-- A run from `v` has come to `a` and has stored in the given nodes and in new ones only, without
adopting anything. It has met only nodes that were alive or are new. The frame that is on top is
open to stores. -/
structure Confined (v : World) (sites : List NodeId) (a : World) : Prop where
  size : v.cells.size ≤ a.cells.size
  link : ∀ x, (a.cell x).name = (v.cell x).name ∧ (a.cell x).parent = (v.cell x).parent
  entries : ∀ x, ¬ v.Open sites x → (a.cell x).entries = (v.cell x).entries
  referred : ∀ x, v.Met x → ∀ r ∈ references (a.cell x), v.Met r
  holders : ∀ x ∈ a.holders, v.Met x
  framed : ∀ f ∈ a.frames.head?, v.Open sites f

/-- What is below a node that a run may meet are nodes that it may meet. -/
theorem met_of_mem_references (hclosed : v.Closed) (hm : v.Met m)
    (hx : x ∈ references (v.cell m)) : v.Met x := by
  rcases hm with halive | hnew
  · exact .inl (alive_of_below hclosed.references (.single hx) halive)
  · rw [cell_of_size_le hnew] at hx
    cases hx

/-- At the start. -/
theorem Confined.refl (hclosed : v.Closed) (hframed : ∀ f ∈ v.frames.head?, f ∈ sites) :
    v.Confined sites v where
  size := Nat.le_refl _
  link _ := ⟨rfl, rfl⟩
  entries _ _ := rfl
  referred _ hx _ hr := met_of_mem_references hclosed hx hr
  holders _ hx := .inl (alive_of_mem_holders hx)
  framed f hf := .inl (hframed f hf)

namespace Confined

/-! ## What a run may meet -/

/-- What is alive was alive, or is new. -/
theorem met_of_alive (h : v.Confined sites a) (hsites : ∀ s ∈ sites, v.alive s = true)
    (halive : a.alive x = true) : v.Met x := by
  rcases Nat.lt_or_ge x.index v.cells.size with hlt | hnew
  · refine .inl (alive_back ?_ ?_ hlt halive)
    · exact fun y hy hold => (h.holders y hy).resolve_right (Nat.not_le.mpr hold)
    · intro y z hz hold
      by_cases hy : v.Met y
      · exact .inl ((h.referred y hy z hz).resolve_right (Nat.not_le.mpr hold))
      · -- Nothing was stored in a node that was dead.
        have hclosed : ¬ v.Open sites y := fun hopen =>
          hy (hopen.imp (hsites y) id)
        rw [references, h.entries y hclosed] at hz
        exact .inr hz
  · exact .inr hnew

theorem met_of_parent? (h : v.Confined sites a) (hsites : ∀ s ∈ sites, v.alive s = true)
    (hp : a.parent? n = some m) : v.Met m :=
  h.met_of_alive hsites (parent_of_parent? hp).2

theorem met_of_mem_lineage (h : v.Confined sites a) (hsites : ∀ s ∈ sites, v.alive s = true)
    (hn : v.Met n) (hm : m ∈ a.lineage n) : v.Met m := by
  cases above_of_mem_lineage hm with
  | refl => exact hn
  | tail _ hp => exact h.met_of_parent? hsites hp

theorem met_of_holder? (h : v.Confined sites a) (hsites : ∀ s ∈ sites, v.alive s = true)
    (hn : v.Met n) (hm : a.holder? n key = some m) : v.Met m :=
  h.met_of_mem_lineage hsites hn (List.mem_of_find?_eq_some hm)

theorem met_of_getRaw (h : v.Confined sites a) (hn : v.Met n)
    (hvalue : a.getRaw n key = some value) : ∀ r ∈ value.nodes, v.Met r := fun r hr =>
  h.referred n hn r
    (List.mem_flatMap.mpr ⟨_, Entries.mem_of_get?_eq_some hvalue, hr⟩)

/-! ## Changes -/

/-- The cells are the same, what is held may be met and the frame on top is open. -/
theorem of_cells (h : v.Confined sites a) (hcells : b.cells = a.cells)
    (hholders : ∀ x ∈ b.holders, v.Met x) (hframed : ∀ f ∈ b.frames.head?, v.Open sites f) :
    v.Confined sites b := by
  have hcell : ∀ x, b.cell x = a.cell x := fun x => by rw [cell, hcells, cell]
  exact ⟨hcells ▸ h.size, fun x => hcell x ▸ h.link x, fun x hx => hcell x ▸ h.entries x hx,
    fun x hx => hcell x ▸ h.referred x hx, hholders, hframed⟩

theorem keep (h : v.Confined sites a) (hnodes : ∀ x ∈ nodes, v.Met x) :
    v.Confined sites { a with held := nodes } := by
  refine h.of_cells rfl (fun x hx => ?_) h.framed
  rcases List.mem_cons.mp hx with rfl | hx
  · exact h.holders _ List.mem_cons_self
  · rcases List.mem_append.mp hx with hx | hx
    · exact h.holders x (List.mem_cons_of_mem _ (List.mem_append_left _ hx))
    · exact hnodes x hx

theorem met_of_mem_held (h : v.Confined sites a) (hx : x ∈ a.held) : v.Met x :=
  h.holders x (List.mem_cons_of_mem _ (List.mem_append_right _ hx))

theorem hold (h : v.Confined sites a) (hnodes : ∀ x ∈ nodes, v.Met x) :
    v.Confined sites (a.hold nodes) :=
  h.keep fun x hx => (List.mem_append.mp hx).elim (hnodes x) h.met_of_mem_held

theorem met_create (h : v.Confined sites a) (engined : Bool) : v.Met (a.create engined).1 :=
  .inr h.size

theorem open_create (h : v.Confined sites a) (engined : Bool) :
    v.Open sites (a.create engined).1 :=
  .inr h.size

theorem create (h : v.Confined sites a) (engined : Bool) :
    v.Confined sites (a.create engined).2 where
  size := by
    show v.cells.size ≤ (a.cells.push _).size
    rw [Array.size_push]
    exact Nat.le_succ_of_le h.size
  link x := by
    rw [cell_create]
    split
    · rename_i hx
      rw [cell_of_size_le (hx ▸ h.size)]
      exact ⟨rfl, rfl⟩
    · exact h.link x
  entries x hx := by
    have hold : x.index ≠ a.cells.size := fun hnew => hx (.inr (hnew ▸ h.size))
    rw [cell_create, if_neg hold]
    exact h.entries x hx
  referred x hx r hr := by
    rw [cell_create] at hr
    split at hr
    · cases hr
    · exact h.referred x hx r hr
  holders := h.holders
  framed := h.framed

/-- A change of the entries of a node that is open to stores. -/
theorem modify (h : v.Confined sites a) {f : Entries Value → Entries Value}
    (hn : v.Open sites n) (hf : ∀ p ∈ f (a.cell n).entries,
      p ∈ (a.cell n).entries ∨ ∀ r ∈ p.2.nodes, v.Met r) :
    v.Confined sites (a.modifyCell n fun c => { c with entries := f c.entries }) where
  size := by
    rw [size_modifyCell]
    exact h.size
  link x := by
    have hname := reading_modifyCell Cell.name
      (f := fun c : Cell => { c with entries := f c.entries }) (w := a) (n := n) rfl x
    have hparent := reading_modifyCell Cell.parent
      (f := fun c : Cell => { c with entries := f c.entries }) (w := a) (n := n) rfl x
    rw [hname, hparent]
    exact h.link x
  entries x hx := by
    have hne : n ≠ x := fun heq => hx (heq ▸ hn)
    rw [cell_modifyCell_of_ne a _ hne]
    exact h.entries x hx
  referred x hx r hr := by
    rw [cell_modifyCell] at hr
    split at hr
    · rename_i hself
      obtain ⟨p, hp, hin⟩ := List.mem_flatMap.mp hr
      rcases hf p hp with hold | hmet
      · refine h.referred x hx r (List.mem_flatMap.mpr ⟨p, ?_, hin⟩)
        rwa [hself.1]
      · exact hmet r hin
    · exact h.referred x hx r hr
  holders := h.holders
  framed := h.framed

theorem set (h : v.Confined sites a) (hn : v.Open sites n) (hvalue : ∀ r ∈ value.nodes, v.Met r) :
    v.Confined sites (a.set n key value) :=
  h.modify (f := fun entries => entries.insert key value) hn fun _ hp =>
    (Entries.mem_insert hp).symm.imp id fun heq => by rwa [heq]

theorem remove (h : v.Confined sites a) (hn : v.Open sites n) :
    v.Confined sites (a.remove n key) :=
  h.modify (f := fun entries => entries.erase key) hn fun _ hp =>
    .inl (Entries.mem_of_mem_erase hp)

/-- A frame is pushed that binds values which a run may meet. -/
theorem pushFrame (h : v.Confined sites a) {arguments : List (String × Value)}
    (harguments : ∀ p ∈ arguments, ∀ r ∈ p.2.nodes, v.Met r) :
    v.Confined sites (a.pushFrame arguments).2 := by
  let frame := (a.create false).1
  have hseeded : ∀ (arguments : List (String × Value)) {b : World}, v.Confined sites b →
      (∀ p ∈ arguments, ∀ r ∈ p.2.nodes, v.Met r) →
      v.Confined sites (arguments.foldl (fun w p => w.set frame p.1 p.2) b) := by
    intro arguments
    induction arguments with
    | nil => exact fun hb _ => hb
    | cons p rest ih =>
        intro b hb hmet
        rw [List.foldl_cons]
        exact ih (hb.set (h.open_create false) (hmet p List.mem_cons_self))
          fun q hq => hmet q (List.mem_cons_of_mem p hq)
  have hfilled := hseeded arguments (h.create false) harguments
  refine hfilled.of_cells rfl (fun x hx => ?_) fun f hf => ?_
  · rcases List.mem_cons.mp hx with rfl | hx
    · exact hfilled.holders _ List.mem_cons_self
    · rcases List.mem_cons.mp hx with rfl | hx
      · exact h.met_create false
      · exact hfilled.holders x (List.mem_cons_of_mem _ hx)
  · rw [← Option.some.inj hf]
    exact h.open_create false

/-! ## Parents and paths -/

/-- Where no old node was open to stores and the same nodes are held, the same nodes are alive. -/
theorem alive_iff (h : v.Confined [] a) (hcells : b.cells = a.cells)
    (hholders : b.holders = v.holders) (hx : x.index < v.cells.size) :
    b.alive x = true ↔ v.alive x = true := by
  have hcell : ∀ y, b.cell y = a.cell y := fun y => by rw [cell, hcells, cell]
  have hold : ∀ y, y.index < v.cells.size → references (b.cell y) = references (v.cell y) := by
    intro y hy
    have hclosed : ¬ v.Open [] y := fun hopen =>
      hopen.elim List.not_mem_nil (Nat.not_le.mpr hy)
    rw [references, references, hcell, h.entries y hclosed]
  constructor
  · refine alive_back ?_ ?_ hx
    · exact fun y hy _ => alive_of_mem_holders (hholders ▸ hy)
    · intro y z hz hlt
      rcases Nat.lt_or_ge y.index v.cells.size with hy | hy
      · exact .inr (hold y hy ▸ hz)
      · rw [hcell] at hz
        exact .inl ((h.referred y (.inr hy) z hz).resolve_right (Nat.not_le.mpr hlt))
  · refine alive_mono hholders (hcells ▸ h.size) fun y z hz => ?_
    rcases Nat.lt_or_ge y.index v.cells.size with hy | hy
    · rwa [hold y hy]
    · rw [cell_of_size_le hy] at hz
      cases hz

theorem parent?_eq (h : v.Confined [] a) (hclosed : v.Closed) (hcells : b.cells = a.cells)
    (hholders : b.holders = v.holders) (n : NodeId) : b.parent? n = v.parent? n := by
  have hlink : (b.cell n).parent = (v.cell n).parent := by
    rw [cell, hcells]
    exact (h.link n).2
  rw [parent?, parent?, hlink]
  cases hp : (v.cell n).parent with
  | none => rfl
  | some p =>
      have halive := Bool.eq_iff_iff.mpr (h.alive_iff hcells hholders (hclosed.parents n p hp))
      rw [Option.filter_some, Option.filter_some, halive]

theorem path_eq (h : v.Confined [] a) (hclosed : v.Closed) (hcells : b.cells = a.cells)
    (hholders : b.holders = v.holders) (hn : n.index < v.cells.size) : b.path n = v.path n := by
  have hlineage := lineage_rename (f := id) Function.injective_id
    (fun m => by rw [Option.map_id, id, id, h.parent?_eq hclosed hcells hholders])
    (fun m p hp => hclosed.parents m p (parent_of_parent? hp).1) (hcells ▸ h.size) hn
  refine path_rename hlineage fun m => ?_
  rw [id, cell, hcells]
  exact (h.link m).1

end Confined

end ScriptTree.World
