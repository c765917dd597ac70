import ScriptTree.Load.Literal
import ScriptTree.Proofs.World.Alive
import ScriptTree.Proofs.World.Rename

/-!
# Twin worlds

Loading creates nodes and fills them, and reads of the nodes that were there before no more than
their directories, their parents and what keeps them alive. So a load from a world `v` and one from
a world `w` that has all that `v` has (`World.Extends`) build the same nodes, up to the numbers that
the new nodes get (`NodeId.moved`). `World.Twin` says so of two worlds on the way, and every change
that loading makes keeps it. Twins agree on parents, lineages, paths and texts of new nodes
(`Twin.lineage`, `Twin.text`).
-/

set_option autoImplicit false

namespace ScriptTree

/-- All that a world refers to are nodes of the world. -/
structure World.Closed (w : World) : Prop where
  references : ∀ m, ∀ r ∈ World.references (w.cell m), r.index < w.cells.size
  parents : ∀ m p, (w.cell m).parent = some p → p.index < w.cells.size
  holders : ∀ m ∈ w.holders, m.index < w.cells.size

/-- The second world has all that the first has. Entries that it has besides are no instructions to
the loader, and they and its new nodes refer to new nodes only. -/
structure World.Extends (v w : World) : Prop where
  size : v.cells.size ≤ w.cells.size
  old : ∀ m : NodeId, m.index < v.cells.size → ∃ extra,
    w.cell m = { v.cell m with entries := (v.cell m).entries ++ extra } ∧
      ∀ p ∈ extra, NodeId.isDirectiveKey p.1 = false ∧
        ∀ r ∈ p.2.nodes, v.cells.size ≤ r.index ∧ r.index < w.cells.size
  new : ∀ m : NodeId, v.cells.size ≤ m.index → ∀ r ∈ World.references (w.cell m),
    v.cells.size ≤ r.index ∧ r.index < w.cells.size
  engine : w.engine = v.engine
  files : w.files = v.files
  loading : w.loading = v.loading
  static : w.static = v.static
  frames : w.frames = v.frames
  held : w.held = v.held

/-- No template is expanded and no script runs on any node, as when the engine can do neither or no
node has one. -/
def World.Inert (w : World) : Prop := ∀ m, w.expandsOn m = false ∧ w.evaluatesOn m = false

/-- The node in a run from `w` that has the part of the given one in a run from `v`: nodes of `v`
are the same, and later ones come behind those of `w`. -/
def NodeId.moved (v w : World) (m : NodeId) : NodeId :=
  if m.index < v.cells.size then m else ⟨m.index + (w.cells.size - v.cells.size)⟩

/-- A run from `v` is in the first of the two last worlds and has left the nodes of `v` alone, one
from `w` is in the second and has left those of `w` alone, and the nodes that they have built are
the same up to their numbers. A built node refers to nodes built after it. -/
structure World.Twin (v w a b : World) : Prop where
  base : v.Extends w
  closed : v.Closed
  inert : a.Inert ∧ b.Inert
  old : ∀ m : NodeId, m.index < v.cells.size → a.cell m = v.cell m
  kept : ∀ m : NodeId, m.index < w.cells.size → b.cell m = w.cell m
  built : ∀ m : NodeId, v.cells.size ≤ m.index →
    b.cell (m.moved v w) = (a.cell m).rename (NodeId.moved v w)
  grown : v.cells.size ≤ a.cells.size
  size : b.cells.size + v.cells.size = a.cells.size + w.cells.size
  references : ∀ m : NodeId, v.cells.size ≤ m.index → ∀ r ∈ World.references (a.cell m),
    m.index < r.index ∧ r.index < a.cells.size
  parents : ∀ m : NodeId, v.cells.size ≤ m.index → ∀ p, (a.cell m).parent = some p →
    p.index < a.cells.size
  keys : ∀ m : NodeId, v.cells.size ≤ m.index → (a.cell m).entries.keys.Nodup
  engine : a.engine = v.engine ∧ b.engine = v.engine
  files : b.files = a.files
  loading : b.loading = a.loading
  static : a.static = v.static ∧ b.static = v.static
  frames : a.frames = v.frames ∧ b.frames = v.frames
  held : b.held = a.held.map (NodeId.moved v w)

namespace NodeId

variable {v w : World} {m : NodeId}

theorem moved_of_lt (h : m.index < v.cells.size) : m.moved v w = m := by
  rw [moved, if_pos h]

theorem moved_of_le (h : v.cells.size ≤ m.index) :
    m.moved v w = ⟨m.index + (w.cells.size - v.cells.size)⟩ := by
  rw [moved, if_neg (Nat.not_lt.mpr h)]

theorem index_moved_of_le (h : v.cells.size ≤ m.index) :
    (m.moved v w).index = m.index + (w.cells.size - v.cells.size) := by
  rw [moved_of_le h]

theorem le_index_moved (hsize : v.cells.size ≤ w.cells.size) (h : v.cells.size ≤ m.index) :
    w.cells.size ≤ (m.moved v w).index := by
  rw [index_moved_of_le h]
  omega

theorem moved_injective (v w : World) :
    Function.Injective (NodeId.moved v w) := by
  intro m m' heq
  -- An old node stays below the size of `v`, a later one goes at least that far.
  have hindex := congrArg NodeId.index heq
  by_cases hm : m.index < v.cells.size
  · by_cases hm' : m'.index < v.cells.size
    · rw [moved_of_lt hm, moved_of_lt hm'] at heq
      exact heq
    · rw [moved_of_lt hm, index_moved_of_le (Nat.not_lt.mp hm')] at hindex
      omega
  · by_cases hm' : m'.index < v.cells.size
    · rw [moved_of_lt hm', index_moved_of_le (Nat.not_lt.mp hm)] at hindex
      omega
    · rw [index_moved_of_le (Nat.not_lt.mp hm), index_moved_of_le (Nat.not_lt.mp hm')] at hindex
      cases m
      cases m'
      exact congrArg NodeId.mk (by simpa using hindex)

/-- A node behind those of `w` has the part of a node behind those of `v`. -/
theorem exists_moved_eq (hsize : v.cells.size ≤ w.cells.size) (h : w.cells.size ≤ m.index) :
    ∃ m' : NodeId, v.cells.size ≤ m'.index ∧ m'.moved v w = m := by
  obtain ⟨i⟩ := m
  have hi : w.cells.size ≤ i := h
  have hle : v.cells.size ≤ i - (w.cells.size - v.cells.size) := by omega
  refine ⟨⟨i - (w.cells.size - v.cells.size)⟩, hle, ?_⟩
  have hback : i - (w.cells.size - v.cells.size) + (w.cells.size - v.cells.size) = i := by omega
  have hmoved := moved_of_le (w := w) (m := ⟨i - (w.cells.size - v.cells.size)⟩) hle
  rw [hmoved, hback]

end NodeId

namespace World

theorem cell_of_size_le {w : World} {m : NodeId} (h : w.cells.size ≤ m.index) :
    w.cell m = default := by
  rw [cell, Array.getD_eq_getD_getElem?, Array.getElem?_eq_none h]
  rfl

theorem cell_modifyCell (w : World) (n m : NodeId) (f : Cell → Cell) :
    (w.modifyCell n f).cell m =
      if m = n ∧ n.index < w.cells.size then f (w.cell n) else w.cell m := by
  by_cases hm : m = n
  · subst hm
    by_cases hlt : m.index < w.cells.size
    · rw [if_pos ⟨rfl, hlt⟩, cell_modifyCell_self w f hlt]
    · -- Past the end every cell is the default one, before and after.
      rw [if_neg fun h => hlt h.2, cell_of_size_le (Nat.not_lt.mp hlt), cell_of_size_le]
      rw [size_modifyCell]
      exact Nat.not_lt.mp hlt
  · rw [if_neg fun h => hm h.1, cell_modifyCell_of_ne w f fun h => hm h.symm]

theorem cell_create (w : World) (engined : Bool) (m : NodeId) :
    (w.create engined).2.cell m =
      if m.index = w.cells.size then ⟨none, none, [], engined⟩ else w.cell m := by
  by_cases hm : m.index = w.cells.size
  · have hself : m = (w.create engined).1 := by
      cases m
      exact congrArg NodeId.mk hm
    rw [if_pos hm, hself, cell_create_self]
  · rw [if_neg hm]
    by_cases hlt : m.index < w.cells.size
    · rw [cell_create_of_lt w engined hlt]
    · rw [cell_of_size_le (Nat.not_lt.mp hlt), cell_of_size_le]
      show (w.cells.push _).size ≤ m.index
      rw [Array.size_push]
      omega

theorem size_put (w : World) (n : NodeId) (key : String) (value : Value) :
    (w.put n key value).cells.size = w.cells.size := by
  rw [World.put, World.set, size_modifyCell, size_adopt]

theorem reader_rendering (w w' : World) (object object' : NodeId → Json) :
    (w.rendering object).reader = (w'.rendering object').reader := by
  rw [World.rendering, World.rendering]

theorem object_rendering (w : World) :
    (w.rendering w.object).object = w.objectWithin (w.cells.size + 1) := by
  rw [World.rendering]
  rfl

theorem Extends.refl (v : World) : v.Extends v where
  size := Nat.le_refl _
  old := fun m _ => ⟨[], by rw [List.append_nil], by simp⟩
  new := by
    intro m hm r hr
    rw [cell_of_size_le hm] at hr
    cases hr
  engine := rfl
  files := rfl
  loading := rfl
  static := rfl
  frames := rfl
  held := rfl

theorem inert_of_engine {w : World} (hexpands : w.engine.expands = false)
    (hevaluates : w.engine.evaluates = false) : w.Inert := by
  intro m
  rw [expandsOn, evaluatesOn, hexpands, hevaluates, Bool.and_false]
  exact ⟨rfl, rfl⟩

theorem inert_create {w : World} (h : w.Inert) (owner : NodeId) :
    (w.create (w.cell owner).engined).2.Inert := by
  have howner := h owner
  intro m
  rw [expandsOn, evaluatesOn, cell_create]
  split
  · exact howner
  · exact h m

theorem inert_modifyCell {w : World} (h : w.Inert) (n : NodeId) {f : Cell → Cell}
    (hf : (f (w.cell n)).engined = (w.cell n).engined) : (w.modifyCell n f).Inert := by
  intro m
  rw [expandsOn, evaluatesOn, cell_modifyCell]
  split
  · rw [hf]
    exact h n
  · exact h m

/-- Where the runs start. -/
theorem Twin.start {v w : World} (hclosed : v.Closed) (hinert : v.Inert) (hinert' : w.Inert)
    (h : v.Extends w) : Twin v w v w where
  base := h
  closed := hclosed
  inert := ⟨hinert, hinert'⟩
  old := fun _ _ => rfl
  kept := fun _ _ => rfl
  built := by
    intro m hm
    rw [cell_of_size_le hm, cell_of_size_le (NodeId.le_index_moved h.size hm)]
    rfl
  grown := Nat.le_refl _
  size := Nat.add_comm _ _
  references := by
    intro m hm r hr
    rw [cell_of_size_le hm] at hr
    cases hr
  parents := by
    intro m hm p hp
    rw [cell_of_size_le hm] at hp
    cases hp
  keys := by
    intro m hm
    rw [cell_of_size_le hm]
    exact List.nodup_nil
  engine := ⟨rfl, h.engine⟩
  files := h.files
  loading := h.loading
  static := ⟨rfl, h.static⟩
  frames := ⟨rfl, h.frames⟩
  held := by
    -- What the first world holds are nodes of it, which do not move.
    have hsame : ∀ x ∈ v.held, x.moved v w = id x := by
      intro x hx
      refine NodeId.moved_of_lt (hclosed.holders x (List.mem_cons_of_mem _ ?_))
      exact List.mem_append_right _ hx
    rw [h.held, List.map_congr_left hsame, List.map_id]

/-! ## Changes that keep twins -/

namespace Twin

variable {v w a b : World}

theorem le_size (h : Twin v w a b) : w.cells.size ≤ b.cells.size := by
  have hsize := h.size
  have hgrown := h.grown
  omega

theorem engined (h : Twin v w a b) (m : NodeId) :
    (b.cell (m.moved v w)).engined = (a.cell m).engined := by
  by_cases hm : m.index < v.cells.size
  · obtain ⟨extra, hcell, -⟩ := h.base.old m hm
    rw [NodeId.moved_of_lt hm, h.kept m (Nat.lt_of_lt_of_le hm h.base.size), hcell, h.old m hm]
  · rw [h.built m (Nat.not_lt.mp hm)]
    rfl

/-- A new node with the engine of another one, in both runs. -/
theorem create (h : Twin v w a b) (owner : NodeId) :
    (b.create (b.cell (owner.moved v w)).engined).1 =
        (a.create (a.cell owner).engined).1.moved v w ∧
      Twin v w (a.create (a.cell owner).engined).2
        (b.create (b.cell (owner.moved v w)).engined).2 := by
  have hsize := h.size
  have hgrown := h.grown
  have hle := h.base.size
  have hinert := And.intro (inert_create h.inert.1 owner) (inert_create h.inert.2 (owner.moved v w))
  rw [h.engined owner] at hinert ⊢
  generalize (a.cell owner).engined = engined at hinert ⊢
  have hnew : (b.create engined).1 = (a.create engined).1.moved v w := by
    show (⟨b.cells.size⟩ : NodeId) = NodeId.moved v w ⟨a.cells.size⟩
    have hmoved := NodeId.moved_of_le (w := w) (m := ⟨a.cells.size⟩) hgrown
    have hcount : b.cells.size = a.cells.size + (w.cells.size - v.cells.size) := by omega
    rw [hmoved, hcount]
  have hcells : ((a.create engined).2.cells.size = a.cells.size + 1) ∧
      ((b.create engined).2.cells.size = b.cells.size + 1) :=
    ⟨Array.size_push _, Array.size_push _⟩
  refine ⟨hnew, ?_⟩
  constructor
  case base => exact h.base
  case closed => exact h.closed
  case inert => exact hinert
  case old =>
    intro m hm
    rw [cell_create, if_neg (by omega)]
    exact h.old m hm
  case kept =>
    intro m hm
    have hb := h.le_size
    rw [cell_create, if_neg (by omega)]
    exact h.kept m hm
  case built =>
    intro m hm
    have hindex := NodeId.index_moved_of_le (w := w) hm
    rw [cell_create, cell_create]
    -- The last node of one run has the part of the last node of the other.
    by_cases hlast : m.index = a.cells.size
    · rw [if_pos hlast, if_pos (by omega)]
      rfl
    · rw [if_neg hlast, if_neg (by omega)]
      exact h.built m hm
  case grown => rw [hcells.1]; omega
  case size => rw [hcells.1, hcells.2]; omega
  case references =>
    intro m hm r hr
    rw [cell_create] at hr
    split at hr
    · cases hr
    · have href := h.references m hm r hr
      rw [hcells.1]
      omega
  case parents =>
    intro m hm p hp
    rw [cell_create] at hp
    split at hp
    · cases hp
    · have hparent := h.parents m hm p hp
      rw [hcells.1]
      omega
  case keys =>
    intro m hm
    rw [cell_create]
    split
    · exact List.nodup_nil
    · exact h.keys m hm
  case engine => exact h.engine
  case files => exact h.files
  case loading => exact h.loading
  case static => exact h.static
  case frames => exact h.frames
  case held => exact h.held

/-- A change of a built node and the same change of its counterpart. -/
theorem modifyCell (h : Twin v w a b) {m : NodeId} (hm : v.cells.size ≤ m.index)
    {f g : Cell → Cell}
    (hsame : g ((a.cell m).rename (NodeId.moved v w)) =
      (f (a.cell m)).rename (NodeId.moved v w))
    (hreferences : ∀ r ∈ World.references (f (a.cell m)),
      r ∈ World.references (a.cell m) ∨ m.index < r.index ∧ r.index < a.cells.size)
    (hparents : ∀ p, (f (a.cell m)).parent = some p →
      (a.cell m).parent = some p ∨ p.index < a.cells.size)
    (hkeys : (a.cell m).entries.keys.Nodup → (f (a.cell m)).entries.keys.Nodup)
    (hengined : (f (a.cell m)).engined = (a.cell m).engined) :
    Twin v w (a.modifyCell m f) (b.modifyCell (m.moved v w) g) := by
  have hsize := h.size
  have hle := h.base.size
  have hgrown := h.grown
  have hindex := NodeId.index_moved_of_le (w := w) hm
  constructor
  case base => exact h.base
  case closed => exact h.closed
  case inert =>
    refine ⟨inert_modifyCell h.inert.1 m hengined, inert_modifyCell h.inert.2 _ ?_⟩
    rw [h.built m hm, hsame]
    exact hengined
  case old =>
    intro x hx
    rw [cell_modifyCell, if_neg]
    · exact h.old x hx
    · rintro ⟨rfl, -⟩
      omega
  case kept =>
    intro x hx
    rw [cell_modifyCell, if_neg]
    · exact h.kept x hx
    · rintro ⟨rfl, -⟩
      omega
  case built =>
    intro x hx
    rw [cell_modifyCell, cell_modifyCell, h.built x hx, h.built m hm]
    -- The change hits a node in one run just when it hits its counterpart in the other.
    by_cases hself : x = m ∧ m.index < a.cells.size
    · rw [if_pos hself, if_pos ⟨congrArg _ hself.1, by omega⟩]
      exact hsame
    · rw [if_neg hself, if_neg]
      rintro ⟨hmoved, hlt⟩
      exact hself ⟨NodeId.moved_injective v w hmoved, by omega⟩
  case grown => rw [size_modifyCell]; exact hgrown
  case size => rw [size_modifyCell, size_modifyCell]; exact hsize
  case references =>
    intro x hx r hr
    rw [cell_modifyCell] at hr
    rw [size_modifyCell]
    split at hr
    · rename_i hself
      obtain ⟨rfl, -⟩ := hself
      obtain hold | hnew := hreferences r hr
      · exact h.references x hx r hold
      · exact hnew
    · exact h.references x hx r hr
  case parents =>
    intro x hx p hp
    rw [cell_modifyCell] at hp
    rw [size_modifyCell]
    split at hp
    · obtain hold | hnew := hparents p hp
      · exact h.parents m hm p hold
      · exact hnew
    · exact h.parents x hx p hp
  case keys =>
    intro x hx
    rw [cell_modifyCell]
    split
    · exact hkeys (h.keys m hm)
    · exact h.keys x hx
  case engine => exact h.engine
  case files => exact h.files
  case loading => exact h.loading
  case static => exact h.static
  case frames => exact h.frames
  case held => exact h.held

theorem setName (h : Twin v w a b) {m : NodeId} (hm : v.cells.size ≤ m.index)
    (name : String) : Twin v w (a.setName m name) (b.setName (m.moved v w) name) :=
  h.modifyCell hm rfl (fun _ hr => .inl hr) (fun _ hp => .inl hp) id rfl

/-- Linking a built node to a node of the world. -/
theorem setParent (h : Twin v w a b) {m : NodeId} (hm : v.cells.size ≤ m.index)
    {p : NodeId} (hp : p.index < a.cells.size) :
    Twin v w (a.setParent m (some p)) (b.setParent (m.moved v w) (some (p.moved v w))) := by
  refine h.modifyCell hm ?_ (fun _ hr => .inl hr) ?_ id rfl
  · -- A link to the node itself is left out in both runs.
    have hparent : (some (p.moved v w)).filter (· != m.moved v w) =
        ((some p).filter (· != m)).map (NodeId.moved v w) := by
      rw [Option.filter_some, Option.filter_some]
      by_cases hself : p = m
      · subst hself
        simp
      · have hmoved : p.moved v w ≠ m.moved v w :=
          fun heq => hself (NodeId.moved_injective v w heq)
        simp [hself, hmoved]
    show (⟨_, (some (p.moved v w)).filter (· != m.moved v w), _, _⟩ : Cell) = _
    rw [hparent]
    rfl
  · intro q hq
    have hmem : q = p := by
      have hq' : (some p).filter (· != m) = some q := hq
      rw [Option.filter_eq_some_iff] at hq'
      exact (Option.some.inj hq'.1).symm
    rw [hmem]
    exact .inr hp

/-- Storing a value whose nodes were built after the node that holds it. -/
theorem set (h : Twin v w a b) {m : NodeId} (hm : v.cells.size ≤ m.index)
    (key : String) {value : Value}
    (hvalue : ∀ r ∈ value.nodes, m.index < r.index ∧ r.index < a.cells.size) :
    Twin v w (a.set m key value)
      (b.set (m.moved v w) key (value.rename (NodeId.moved v w))) := by
  refine h.modifyCell hm ?_ ?_ (fun _ hp => .inl hp)
    (fun hkeys => Entries.nodup_keys_insert hkeys key value) rfl
  · have hentries := Entries.insert_mapValues (Value.rename (NodeId.moved v w))
      (a.cell m).entries key value
    show (⟨_, _, Entries.insert (Entries.mapValues _ _) key _, _⟩ : Cell) = _
    rw [hentries]
    rfl
  · intro r hr
    obtain ⟨p, hp, hmem⟩ := List.mem_flatMap.mp hr
    obtain rfl | hold := Entries.mem_insert hp
    · exact .inr (hvalue r hmem)
    · exact .inl (List.mem_flatMap.mpr ⟨p, hold, hmem⟩)

theorem adopt (h : Twin v w a b) {m : NodeId} (hm : v.cells.size ≤ m.index)
    (key : String) {value : Value}
    (hvalue : ∀ r ∈ value.nodes, m.index < r.index ∧ r.index < a.cells.size) :
    Twin v w (a.adopt m key value)
      (b.adopt (m.moved v w) key (value.rename (NodeId.moved v w))) := by
  cases value with
  | node child =>
      obtain ⟨hafter, hlt⟩ := hvalue child List.mem_cons_self
      -- A node was built before the nodes that it holds, so it never adopts itself.
      have hne : child ≠ m := by
        rintro rfl
        omega
      have hmoved : child.moved v w ≠ m.moved v w :=
        fun heq => hne (NodeId.moved_injective v w heq)
      show Twin v w (if child = m then a else _) (if child.moved v w = m.moved v w then b else _)
      rw [if_neg hne, if_neg hmoved]
      refine h.modifyCell (by omega) rfl (fun _ hr => .inl hr) ?_ id rfl
      intro p hp
      injection hp with hp
      rw [← hp]
      exact .inr (by omega)
  | _ => exact h

theorem put (h : Twin v w a b) {m : NodeId} (hm : v.cells.size ≤ m.index)
    (key : String) {value : Value}
    (hvalue : ∀ r ∈ value.nodes, m.index < r.index ∧ r.index < a.cells.size) :
    Twin v w (a.put m key value)
      (b.put (m.moved v w) key (value.rename (NodeId.moved v w))) := by
  refine (h.adopt hm key hvalue).set hm key ?_
  rw [size_adopt]
  exact hvalue

/-! ## What twins agree on -/

/-- A built node holds the same under a key in both runs. -/
theorem getRaw (h : Twin v w a b) {m : NodeId} (hm : v.cells.size ≤ m.index) (key : String) :
    b.getRaw (m.moved v w) key = (a.getRaw m key).map (Value.rename (NodeId.moved v w)) := by
  rw [World.getRaw, h.built m hm]
  exact Entries.get?_mapValues _ _ _

theorem containsKey (h : Twin v w a b) {m : NodeId} (hm : v.cells.size ≤ m.index) (key : String) :
    b.containsKey (m.moved v w) key = a.containsKey m key := by
  rw [World.containsKey, h.built m hm]
  exact Entries.contains_mapValues _ _ _

/-- A node that was there before holds the same instructions in both runs. -/
theorem getRaw_directive (h : Twin v w a b) {m : NodeId} (hm : m.index < v.cells.size)
    {key : String} (hkey : NodeId.isDirectiveKey key = true) :
    b.getRaw m key = a.getRaw m key := by
  obtain ⟨extra, hcell, hextra⟩ := h.base.old m hm
  have hnone : Entries.get? extra key = none := by
    cases hfound : Entries.get? extra key with
    | none => rfl
    | some value =>
        have hother := (hextra _ (Entries.mem_of_get?_eq_some hfound)).1
        exact absurd (hkey.symm.trans hother) (by decide)
  rw [World.getRaw, World.getRaw, h.kept m (Nat.lt_of_lt_of_le hm h.base.size), hcell, h.old m hm]
  show Entries.get? ((v.cell m).entries ++ extra) key = _
  rw [Entries.get?_append, hnone, Option.or_none]

/-- The nodes of a value of a built node were built after it. -/
theorem nodes_of_getRaw (h : Twin v w a b) {m : NodeId} (hm : v.cells.size ≤ m.index)
    {key : String} {value : Value} (hvalue : a.getRaw m key = some value) :
    ∀ r ∈ value.nodes, m.index < r.index ∧ r.index < a.cells.size := by
  intro r hr
  exact h.references m hm r
    (List.mem_flatMap.mpr ⟨(key, value), Entries.mem_of_get?_eq_some hvalue, hr⟩)

theorem name (h : Twin v w a b) (m : NodeId) :
    (b.cell (m.moved v w)).name = (a.cell m).name := by
  by_cases hm : m.index < v.cells.size
  · obtain ⟨extra, hcell, -⟩ := h.base.old m hm
    rw [NodeId.moved_of_lt hm, h.kept m (Nat.lt_of_lt_of_le hm h.base.size), hcell, h.old m hm]
  · rw [h.built m (Nat.not_lt.mp hm)]
    rfl

/-- The nodes that one run holds are those that the other holds. -/
theorem holders (h : Twin v w a b) :
    b.holders = a.holders.map (NodeId.moved v w) := by
  have hstatic : v.static.moved v w = v.static :=
    NodeId.moved_of_lt (h.closed.holders _ List.mem_cons_self)
  have hframes : v.frames.map (NodeId.moved v w) = v.frames := by
    have hsame : ∀ x ∈ v.frames, x.moved v w = id x := by
      intro x hx
      refine NodeId.moved_of_lt (h.closed.holders x (List.mem_cons_of_mem _ ?_))
      exact List.mem_append_left _ hx
    rw [List.map_congr_left hsame, List.map_id]
  rw [World.holders, World.holders, h.static.1, h.static.2, h.frames.1, h.frames.2, h.held,
    List.map_cons, List.map_append, hstatic, hframes]

/-- A reference of a node in one run is one of its counterpart in the other. -/
theorem mem_references (h : Twin v w a b) {x y : NodeId}
    (hmem : x ∈ World.references (a.cell y)) :
    x.moved v w ∈ World.references (b.cell (y.moved v w)) := by
  by_cases hy : y.index < v.cells.size
  · rw [h.old y hy] at hmem
    obtain ⟨extra, hcell, -⟩ := h.base.old y hy
    rw [NodeId.moved_of_lt hy, h.kept y (Nat.lt_of_lt_of_le hy h.base.size), hcell,
      NodeId.moved_of_lt (h.closed.references y x hmem)]
    obtain ⟨p, hp, hx⟩ := List.mem_flatMap.mp hmem
    exact List.mem_flatMap.mpr ⟨p, List.mem_append_left _ hp, hx⟩
  · rw [h.built y (Nat.not_lt.mp hy), references_rename]
    exact List.mem_map_of_mem hmem

/-- A node that refers to a counterpart is the counterpart of one that refers to its original: what
the second world has besides refers to none of them. -/
theorem exists_of_mem_references (h : Twin v w a b)
    {x y : NodeId}
    (hmem : x.moved v w ∈ World.references (b.cell y)) :
    ∃ y', y'.moved v w = y ∧ x ∈ World.references (a.cell y') := by
  -- A counterpart is a node of `v`, or lies behind all that `w` has.
  have hsplit : (x.moved v w = x ∧ x.index < v.cells.size) ∨
      w.cells.size ≤ (x.moved v w).index := by
    by_cases hx : x.index < v.cells.size
    · exact .inl ⟨NodeId.moved_of_lt hx, hx⟩
    · exact .inr (NodeId.le_index_moved h.base.size (Nat.not_lt.mp hx))
  have hle := h.base.size
  by_cases hy : y.index < v.cells.size
  · obtain ⟨extra, hcell, hextra⟩ := h.base.old y hy
    refine ⟨y, NodeId.moved_of_lt hy, ?_⟩
    rw [h.kept y (Nat.lt_of_lt_of_le hy h.base.size), hcell] at hmem
    obtain ⟨p, hp, hin⟩ := List.mem_flatMap.mp hmem
    obtain hp | hp := List.mem_append.mp hp
    · rw [h.old y hy]
      have href : x.moved v w ∈ World.references (v.cell y) := List.mem_flatMap.mpr ⟨p, hp, hin⟩
      have hrange := h.closed.references y _ href
      obtain ⟨hsame, -⟩ | hbehind := hsplit
      · rw [hsame] at href
        exact href
      · omega
    · -- What `w` has besides refers to nodes between those of `v` and the end of `w`.
      have hbetween := (hextra p hp).2 _ hin
      obtain ⟨hsame, hlt⟩ | hbehind := hsplit
      · rw [hsame] at hbetween
        omega
      · omega
  · by_cases hyw : y.index < w.cells.size
    · rw [h.kept y hyw] at hmem
      have hbetween := h.base.new y (Nat.not_lt.mp hy) _ hmem
      obtain ⟨hsame, hlt⟩ | hbehind := hsplit
      · rw [hsame] at hbetween
        omega
      · omega
    · obtain ⟨y', hy', rfl⟩ := NodeId.exists_moved_eq h.base.size (Nat.not_lt.mp hyw)
      rw [h.built y' hy', references_rename] at hmem
      exact ⟨y', rfl, (List.mem_map_of_injective (NodeId.moved_injective v w)).mp hmem⟩

theorem alive (h : Twin v w a b) (m : NodeId) :
    b.alive (m.moved v w) = a.alive m := by
  have hinjective := NodeId.moved_injective v w
  have hheld : ∀ x, x.moved v w ∈ b.holders ↔ x ∈ a.holders := by
    intro x
    rw [h.holders]
    exact List.mem_map_of_injective hinjective
  have hlt : ∀ x : NodeId, (x.moved v w).index < b.cells.size ↔ x.index < a.cells.size := by
    intro x
    have hsize := h.size
    have hgrown := h.grown
    have hle := h.base.size
    by_cases hx : x.index < v.cells.size
    · rw [NodeId.moved_of_lt hx]
      omega
    · rw [NodeId.index_moved_of_le (Nat.not_lt.mp hx)]
      omega
  rw [Bool.eq_iff_iff, alive_iff, alive_iff]
  -- Sets that support themselves go to and fro along the renaming.
  constructor
  · rintro ⟨nodes, hm, hsupports⟩
    refine ⟨fun x => nodes (x.moved v w), hm, ?_⟩
    intro x hx
    obtain hholder | ⟨hrange, y, hy, hmem⟩ := hsupports _ hx
    · exact .inl ((hheld x).mp hholder)
    · obtain ⟨y', rfl, hback⟩ := h.exists_of_mem_references hmem
      exact .inr ⟨(hlt x).mp hrange, y', hy, hback⟩
  · rintro ⟨nodes, hm, hsupports⟩
    refine ⟨fun x => ∃ x', x'.moved v w = x ∧ nodes x', ⟨m, rfl, hm⟩, ?_⟩
    rintro _ ⟨x, rfl, hx⟩
    obtain hholder | ⟨hrange, y, hy, hmem⟩ := hsupports x hx
    · exact .inl ((hheld x).mpr hholder)
    · exact .inr ⟨(hlt x).mpr hrange, y.moved v w, ⟨y, rfl, hy⟩, h.mem_references hmem⟩

theorem parent? (h : Twin v w a b) (m : NodeId) :
    b.parent? (m.moved v w) = (a.parent? m).map (NodeId.moved v w) := by
  have hlink : (b.cell (m.moved v w)).parent = (a.cell m).parent.map (NodeId.moved v w) := by
    by_cases hm : m.index < v.cells.size
    · obtain ⟨extra, hcell, -⟩ := h.base.old m hm
      rw [NodeId.moved_of_lt hm, h.kept m (Nat.lt_of_lt_of_le hm h.base.size), hcell, h.old m hm]
      show (v.cell m).parent = _
      cases hp : (v.cell m).parent with
      | none => rfl
      | some p =>
          show some p = some (p.moved v w)
          rw [NodeId.moved_of_lt (h.closed.parents m p hp)]
    · rw [h.built m (Nat.not_lt.mp hm)]
      rfl
  rw [World.parent?, World.parent?, hlink]
  cases (a.cell m).parent with
  | none => rfl
  | some p =>
      show Option.filter _ (some (p.moved v w)) = _
      rw [Option.filter_some, Option.filter_some, h.alive p]
      split <;> rfl

theorem lt_size_of_parent? (h : Twin v w a b) {m p : NodeId}
    (hp : a.parent? m = some p) : p.index < a.cells.size := by
  have hlink : (a.cell m).parent = some p := (Option.filter_eq_some_iff.mp hp).1
  by_cases hm : m.index < v.cells.size
  · rw [h.old m hm] at hlink
    exact Nat.lt_of_lt_of_le (h.closed.parents m p hlink) h.grown
  · exact h.parents m (Nat.not_lt.mp hm) p hlink

theorem lineage (h : Twin v w a b) {m : NodeId}
    (hm : m.index < a.cells.size) :
    b.lineage (m.moved v w) = (a.lineage m).map (NodeId.moved v w) := by
  have hsize := h.size
  have hle := h.base.size
  exact lineage_rename (NodeId.moved_injective v w) (h.parent?)
    (fun m p hp => h.lt_size_of_parent? hp) (by omega) hm

theorem path (h : Twin v w a b) {m : NodeId}
    (hm : m.index < a.cells.size) : b.path (m.moved v w) = a.path m :=
  path_rename (h.lineage hm) h.name

/-- The object of a built node is the same in both runs: the nodes in it are numbered upwards, so
either run has fuel for all of them. -/
theorem objectWithin (h : Twin v w a b) (fuel fuel' : Nat)
    {m : NodeId} (hm : v.cells.size ≤ m.index) (hfuel : a.cells.size < m.index + fuel)
    (hfuel' : a.cells.size < m.index + fuel') (hlt : m.index < a.cells.size) :
    b.objectWithin fuel' (m.moved v w) = a.objectWithin fuel m := by
  induction fuel generalizing fuel' m with
  | zero => omega
  | succ fuel ih =>
      cases fuel' with
      | zero => omega
      | succ fuel' =>
          -- A nested node comes later, so the fuel that is left suffices for it.
          have hentry : ∀ p ∈ (a.cell m).entries,
              (p.2.rename (NodeId.moved v w)).json (b.rendering (b.objectWithin fuel'))
                (b.objectWithin fuel') =
              p.2.json (a.rendering (a.objectWithin fuel)) (a.objectWithin fuel) := by
            intro p hp
            have hnodes : ∀ r ∈ p.2.nodes, m.index < r.index ∧ r.index < a.cells.size :=
              fun r hr => h.references m hm r (List.mem_flatMap.mpr ⟨p, hp, hr⟩)
            have hobject : ∀ r ∈ p.2.nodes,
                b.objectWithin fuel' (r.moved v w) = a.objectWithin fuel r := by
              intro r hr
              have hr := hnodes r hr
              exact ih fuel' (by omega) (by omega) (by omega) hr.2
            exact Value.json_rename (reader_rendering b a _ _) p.2 _ _
              (fun r hr => h.path (hnodes r hr).2) hobject hobject
          rw [World.objectWithin, World.objectWithin, h.built m hm]
          refine congrArg Json.object ?_
          show Entries.mapValues _ (Entries.mapValues _ (a.cell m).entries) = _
          rw [Entries.mapValues, Entries.mapValues, List.map_map]
          exact List.map_congr_left fun p hp => congrArg (Prod.mk p.1) (hentry p hp)

/-- A value of built nodes has the same text in both runs. -/
theorem text (h : Twin v w a b) {value : Value}
    (hvalue : ∀ r ∈ value.nodes, v.cells.size ≤ r.index ∧ r.index < a.cells.size) :
    b.text (value.rename (NodeId.moved v w)) = a.text value := by
  have hsize := h.size
  have hle := h.base.size
  refine Value.show_rename (reader_rendering b a _ _) value (fun r hr => h.path (hvalue r hr).2) ?_
  intro r hr
  have hr := hvalue r hr
  rw [object_rendering, object_rendering]
  exact h.objectWithin _ _ hr.1 (by omega) (by omega) hr.2

theorem text_getRaw (h : Twin v w a b) {m : NodeId} (hm : v.cells.size ≤ m.index)
    (key : String) : (b.getRaw (m.moved v w) key).map b.text = (a.getRaw m key).map a.text := by
  rw [h.getRaw hm]
  cases hvalue : a.getRaw m key with
  | none => rw [Option.map_none, Option.map_none, Option.map_none]
  | some value =>
      have hnodes : ∀ r ∈ value.nodes, v.cells.size ≤ r.index ∧ r.index < a.cells.size := by
        intro r hr
        have hrange := h.nodes_of_getRaw hm hvalue r hr
        exact ⟨by omega, hrange.2⟩
      rw [Option.map_some, Option.map_some, Option.map_some, h.text hnodes]

end Twin

end World

end ScriptTree
