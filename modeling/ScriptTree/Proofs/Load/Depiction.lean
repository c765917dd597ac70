import ScriptTree.Proofs.Load.Kinship

/-!
# Nodes that depict a literal

A value depicts a JSON value when each object in it is a node of its own, with the members of the
object as entries in the same order, and a node that is stored under a key is named after the key
(`World.Depicts`). What depicts a value is printed as that value (`Depicts.json_eq`). Values built
for lists, the children of a node and the node of a whole literal all depict what they are built
from (`Depicted.build`, `NodeId.materialize_depicts`, `NodeId.newChild_depicts`), and so does the
plain value of any JSON value (`World.json_build`).
-/

set_option autoImplicit false

namespace ScriptTree

theorem Entries.keys_append {α : Type} (entries more : Entries α) :
    Entries.keys (entries ++ more) = entries.keys ++ Entries.keys more :=
  List.map_append

/-! ## Proper JSON values -/

namespace Json

mutual

/-- The keys of every object of the value, however deep, are distinct. -/
def Proper : Json → Prop
  | .array items => AllProper items
  | .object members => (Entries.keys members).Nodup ∧ MembersProper members
  | _ => True

/-- The keys of every object of the values are distinct. -/
def AllProper : List Json → Prop
  | [] => True
  | item :: rest => item.Proper ∧ AllProper rest

/-- The keys of every object inside the members are distinct. -/
def MembersProper : List (String × Json) → Prop
  | [] => True
  | (_, member) :: rest => member.Proper ∧ MembersProper rest

end

end Json

namespace World

/-! ## Depiction -/

mutual

/-- The value depicts the JSON value; the nodes are those of its objects, from the outermost in and
in order. -/
inductive Depicts (w : World) : Json → Value → List NodeId → Prop
  | null : Depicts w .null .null []
  | bool (b : Bool) : Depicts w (.bool b) (.bool b) []
  | number (n : Number) : Depicts w (.number n) (.number n) []
  | text (s : String) : Depicts w (.text s) (.text s) []
  | array {items : List Json} {values : List Value} {nodes : List NodeId} :
      DepictsAll w items values nodes → Depicts w (.array items) (.list values) nodes
  | object {members : List (String × Json)} {n : NodeId} {nodes : List NodeId} :
      DepictsMembers w members (w.cell n).entries nodes →
      Depicts w (.object members) (.node n) (n :: nodes)

/-- The values depict the JSON values one by one. -/
inductive DepictsAll (w : World) : List Json → List Value → List NodeId → Prop
  | nil : DepictsAll w [] [] []
  | cons {item : Json} {rest : List Json} {value : Value} {values : List Value}
      {nodes others : List NodeId} :
      Depicts w item value nodes → DepictsAll w rest values others →
      DepictsAll w (item :: rest) (value :: values) (nodes ++ others)

/-- The entries depict the members of an object one by one, under the same keys. A node among them
is named after its key. -/
inductive DepictsMembers (w : World) : List (String × Json) → Entries Value → List NodeId → Prop
  | nil : DepictsMembers w [] [] []
  | cons {key : String} {member : Json} {rest : List (String × Json)} {value : Value}
      {entries : Entries Value} {nodes others : List NodeId} :
      Depicts w member value nodes → (∀ r, value = .node r → (w.cell r).name = some key) →
      DepictsMembers w rest entries others →
      DepictsMembers w ((key, member) :: rest) ((key, value) :: entries) (nodes ++ others)

end

variable {w w' : World}

/-- A node that depicts an object is one of the nodes. -/
theorem Depicts.mem_of_node {json : Json} {value : Value} {nodes : List NodeId} {r : NodeId}
    (h : w.Depicts json value nodes) (hr : value = .node r) : r ∈ nodes := by
  cases h <;> cases hr
  exact List.mem_cons_self

mutual

/-- Only the nodes of the depiction count. -/
theorem Depicts.congr : ∀ {json : Json} {value : Value} {nodes : List NodeId},
    w.Depicts json value nodes → (∀ m ∈ nodes, w'.cell m = w.cell m) →
    w'.Depicts json value nodes
  | _, _, _, .null, _ => .null
  | _, _, _, .bool b, _ => .bool b
  | _, _, _, .number n, _ => .number n
  | _, _, _, .text s, _ => .text s
  | _, _, _, .array h, hcells => .array (h.congr hcells)
  | _, .node n, _, .object h, hcells => by
      have hentries := hcells n List.mem_cons_self
      refine .object ?_
      rw [hentries]
      exact h.congr fun m hm => hcells m (List.mem_cons_of_mem n hm)

theorem DepictsAll.congr : ∀ {items : List Json} {values : List Value} {nodes : List NodeId},
    w.DepictsAll items values nodes → (∀ m ∈ nodes, w'.cell m = w.cell m) →
    w'.DepictsAll items values nodes
  | _, _, _, .nil, _ => .nil
  | _, _, _, .cons h h', hcells =>
      .cons (h.congr fun m hm => hcells m (List.mem_append_left _ hm))
        (h'.congr fun m hm => hcells m (List.mem_append_right _ hm))

theorem DepictsMembers.congr : ∀ {members : List (String × Json)} {entries : Entries Value}
    {nodes : List NodeId}, w.DepictsMembers members entries nodes →
    (∀ m ∈ nodes, w'.cell m = w.cell m) → w'.DepictsMembers members entries nodes
  | _, _, _, .nil, _ => .nil
  | _, _, _, .cons h hname h', hcells => by
      refine .cons (h.congr fun m hm => hcells m (List.mem_append_left _ hm)) ?_
        (h'.congr fun m hm => hcells m (List.mem_append_right _ hm))
      intro r hr
      rw [hcells r (List.mem_append_left _ (h.mem_of_node hr))]
      exact hname r hr

end

theorem DepictsMembers.keys_eq {members : List (String × Json)} {entries : Entries Value}
    {nodes : List NodeId} (h : w.DepictsMembers members entries nodes) :
    entries.keys = Entries.keys members := by
  induction members generalizing entries nodes with
  | nil => cases h; rfl
  | cons p rest ih =>
      cases h with
      | cons _ _ h => exact congrArg _ (ih h)

/-! ## Printing -/

mutual

/-- What depicts a value is printed as the value, when there is fuel for all of its nodes. -/
theorem Depicts.json_within {r : Rendering} : ∀ {json : Json} {value : Value}
    {nodes : List NodeId}, w.Depicts json value nodes → ∀ {fuel : Nat}, nodes.length ≤ fuel →
    value.json r (w.objectWithin fuel) = json
  | _, _, _, .null, _, _ | _, _, _, .bool _, _, _ | _, _, _, .number _, _, _
  | _, _, _, .text _, _, _ => rfl
  | _, _, _, .array h, _, hfuel => congrArg Json.array (h.json_within hfuel)
  | _, .node n, _, .object h, fuel + 1, hfuel => by
      show Json.object _ = _
      exact congrArg Json.object (h.json_within (Nat.le_of_succ_le_succ hfuel))

theorem DepictsAll.json_within {r : Rendering} : ∀ {items : List Json} {values : List Value}
    {nodes : List NodeId}, w.DepictsAll items values nodes → ∀ {fuel : Nat},
    nodes.length ≤ fuel → Value.allJson r (w.objectWithin fuel) values = items
  | _, _, _, .nil, _, _ => rfl
  | _, _, _, .cons h h', _, hfuel => by
      rw [List.length_append] at hfuel
      rw [Value.allJson, h.json_within (by omega), h'.json_within (by omega)]

theorem DepictsMembers.json_within {r : Rendering} : ∀ {members : List (String × Json)}
    {entries : Entries Value} {nodes : List NodeId}, w.DepictsMembers members entries nodes →
    ∀ {fuel : Nat}, nodes.length ≤ fuel →
    entries.mapValues (fun v => v.json r (w.objectWithin fuel)) = members
  | _, _, _, .nil, _, _ => rfl
  | _, _, _, .cons h _ h', _, hfuel => by
      rw [List.length_append] at hfuel
      rw [Entries.mapValues, List.map_cons, h.json_within (by omega)]
      exact congrArg _ (h'.json_within (by omega))

end

/-- What depicts a value with different nodes of the world is printed as the value. -/
theorem Depicts.json_eq {json : Json} {value : Value} {nodes : List NodeId}
    (h : w.Depicts json value nodes) (hdistinct : nodes.Nodup)
    (hrange : ∀ m ∈ nodes, m.index < w.cells.size) : w.json value = json :=
  h.json_within (Nat.le_succ_of_le (length_le_size hdistinct hrange))

/-! ## Building -/

/-- From `a` to `u` a value has been built that depicts the JSON value. Its nodes are new, and those
that were there are as they were. -/
structure Depicted (a u : World) (json : Json) (value : Value) (nodes : List NodeId) : Prop where
  depicts : u.Depicts json value nodes
  distinct : nodes.Nodup
  range : ∀ m ∈ nodes, a.cells.size ≤ m.index ∧ m.index < u.cells.size
  size : a.cells.size ≤ u.cells.size
  frame : ∀ m : NodeId, m.index < a.cells.size → u.cell m = a.cell m
  unnamed : ∀ r, value = .node r → (u.cell r).name = none

/-- From `a` to `u` entries have been added to a node. The nodes built for them are new, and the other
nodes that were there are as they were. -/
structure Adds (a u : World) (n : NodeId) (entries : Entries Value) (nodes : List NodeId) :
    Prop where
  cell : u.cell n = { a.cell n with entries := (a.cell n).entries ++ entries }
  distinct : nodes.Nodup
  range : ∀ m ∈ nodes, a.cells.size ≤ m.index ∧ m.index < u.cells.size
  size : a.cells.size ≤ u.cells.size
  frame : ∀ m : NodeId, m.index < a.cells.size → m ≠ n → u.cell m = a.cell m

section Storing

variable {a u : World} {n : NodeId} {key : String} {json : Json} {value : Value}
  {nodes : List NodeId}

theorem cell_put_new (hn : n.index < u.cells.size) (hkey : key ∉ (u.cell n).entries.keys) :
    (u.put n key value).cell n =
      { u.cell n with entries := (u.cell n).entries ++ [(key, value)] } := by
  rw [cell_put_self hn, Entries.insert_of_not_mem _ _ hkey]

theorem name_put_node {m : NodeId} (hm : n ≠ m) (hlt : m.index < u.cells.size) :
    ((u.put n key (.node m)).cell m).name = (u.cell m).name.or (some key) := by
  rw [put, World.set, cell_modifyCell_of_ne _ _ hm, adopt, if_neg hm.symm,
    cell_modifyCell_self _ _ hlt]

namespace Depicted

/-- The nodes of what was built are others than a node that was there. -/
theorem ne (h : Depicted a u json value nodes) (hn : n.index < a.cells.size) {m : NodeId}
    (hm : m ∈ nodes) : n ≠ m := by
  rintro rfl
  have hnew := (h.range n hm).1
  omega

/-- Storing what was built gives the node of it a link and a name, and depicts the same. -/
theorem depicts_put (h : Depicted a u json value nodes) (hn : n.index < a.cells.size) :
    (u.put n key value).Depicts json value nodes := by
  by_cases hvalue : ∃ r, value = .node r
  · obtain ⟨r, rfl⟩ := hvalue
    have hdepicts := h.depicts
    cases hdepicts with
    | @object members _ others hmembers =>
        have hr : r ∉ others := (List.nodup_cons.mp h.distinct).1
        refine .object ?_
        rw [entries_put_of_ne (h.ne hn List.mem_cons_self)]
        refine hmembers.congr fun m hm => cell_put_of_ne (h.ne hn (List.mem_cons_of_mem r hm)) ?_
        rintro ⟨⟩
        exact hr hm
  · refine h.depicts.congr fun m hm => cell_put_of_ne (h.ne hn hm) ?_
    rintro rfl
    exact hvalue ⟨m, rfl⟩

/-- The node of what was built is named after the key that it is stored under. -/
theorem name_put (h : Depicted a u json value nodes) (hn : n.index < a.cells.size) {r : NodeId}
    (hr : value = .node r) : ((u.put n key value).cell r).name = some key := by
  have hmem := h.depicts.mem_of_node hr
  rw [hr, name_put_node (h.ne hn hmem) (h.range r hmem).2, h.unnamed r hr, Option.none_or]

/-- What was built is stored under a key that the node does not hold. -/
theorem put (h : Depicted a u json value nodes) (hn : n.index < a.cells.size)
    (hkey : key ∉ (a.cell n).entries.keys) :
    Adds a (u.put n key value) n [(key, value)] nodes := by
  have hcell := h.frame n hn
  constructor
  case cell => rw [cell_put_new (Nat.lt_of_lt_of_le hn h.size) (by rwa [hcell]), hcell]
  case distinct => exact h.distinct
  case range =>
    rw [size_put]
    exact h.range
  case size =>
    rw [size_put]
    exact h.size
  case frame =>
    intro m hm hne
    rw [cell_put_of_ne hne.symm, h.frame m hm]
    rintro rfl
    exact h.ne hm (h.depicts.mem_of_node rfl) rfl

end Depicted

namespace Adds

variable {v : World} {entries more : Entries Value} {others : List NodeId}

theorem refl (a : World) (n : NodeId) : Adds a a n [] [] where
  cell := by rw [List.append_nil]
  distinct := List.nodup_nil
  range := fun _ hm => (List.not_mem_nil hm).elim
  size := Nat.le_refl _
  frame := fun _ _ _ => rfl

/-- Nodes that were built before are none of those that were built since. -/
theorem nodup_append (h : Adds a u n entries nodes) (hbefore : others.Nodup)
    (hrange : ∀ m ∈ others, m.index < a.cells.size) : (others ++ nodes).Nodup := by
  refine List.nodup_append.mpr ⟨hbefore, h.distinct, ?_⟩
  rintro m hm _ hm' rfl
  have hlt := hrange m hm
  have hnew := (h.range m hm').1
  omega

/-- What was built before the node is filled further stays as it is. -/
theorem frame_of_new (h : Adds a u n entries nodes) {m : NodeId} (hlt : m.index < a.cells.size)
    (hm : n.index < m.index) : u.cell m = a.cell m := by
  refine h.frame m hlt ?_
  rintro rfl
  exact Nat.lt_irrefl _ hm

theorem trans (h : Adds a u n entries nodes) (h' : Adds u v n more others) :
    Adds a v n (entries ++ more) (nodes ++ others) where
  cell := by rw [h'.cell, h.cell, List.append_assoc]
  distinct := h'.nodup_append h.distinct fun m hm => (h.range m hm).2
  range := by
    intro m hm
    have hsize := h.size
    have hsize' := h'.size
    rcases List.mem_append.mp hm with hm | hm
    · obtain ⟨hnew, hlt⟩ := h.range m hm
      exact ⟨hnew, Nat.lt_of_lt_of_le hlt hsize'⟩
    · obtain ⟨hnew, hlt⟩ := h'.range m hm
      exact ⟨Nat.le_trans hsize hnew, hlt⟩
  size := Nat.le_trans h.size h'.size
  frame := by
    intro m hm hne
    rw [h'.frame m (Nat.lt_of_lt_of_le hm h.size) hne, h.frame m hm hne]

/-- The keys stay distinct when the first of those to come has been stored. -/
theorem nodup_keys (h : Adds a u n entries nodes) {keys : List String}
    (hkeys : ((a.cell n).entries.keys ++ (entries.keys ++ keys)).Nodup) :
    ((u.cell n).entries.keys ++ keys).Nodup := by
  rwa [h.cell, Entries.keys_append, List.append_assoc]

end Adds

/-- What was built and stored stays as it is while the node is filled further. -/
theorem Depicted.stored {v : World} {more : Entries Value} {others : List NodeId}
    (h : Depicted a u json value nodes) (hn : n.index < a.cells.size)
    (hadds : Adds (u.put n key value) v n more others) :
    v.Depicts json value nodes ∧ ∀ r, value = .node r → (v.cell r).name = some key := by
  have hkept : ∀ m ∈ nodes, v.cell m = (u.put n key value).cell m := by
    intro m hm
    obtain ⟨hnew, hlt⟩ := h.range m hm
    exact hadds.frame_of_new (by rwa [size_put]) (Nat.lt_of_lt_of_le hn hnew)
  refine ⟨(h.depicts_put hn).congr hkept, fun r hr => ?_⟩
  rw [hkept r (h.depicts.mem_of_node hr)]
  exact h.name_put hn hr

/-- The key of the first member is none that the node holds. -/
theorem key_notMem {keys : List String} {member : Json} {rest : List (String × Json)}
    (hkeys : (keys ++ Entries.keys ((key, member) :: rest)).Nodup) : key ∉ keys := by
  intro hmem
  have hapart := (List.nodup_append.mp hkeys).2.2
  exact hapart key hmem key List.mem_cons_self rfl

end Storing

theorem createUnder_frame (a : World) (owner : Option NodeId) :
    (a.createUnder owner).1.index = a.cells.size ∧
      (a.createUnder owner).2.cells.size = a.cells.size + 1 ∧
      (∀ m : NodeId, m.index < a.cells.size → (a.createUnder owner).2.cell m = a.cell m) ∧
      ((a.createUnder owner).2.cell (a.createUnder owner).1).entries = [] ∧
      ((a.createUnder owner).2.cell (a.createUnder owner).1).name = none := by
  cases owner with
  | none =>
      refine ⟨rfl, Array.size_push _, fun m hm => cell_create_of_lt a false hm, ?_, ?_⟩
      · rw [createUnder, cell_create_self]
      · rw [createUnder, cell_create_self]
  | some owner =>
      obtain ⟨hindex, hsize⟩ := index_createUnder a owner
      have hlt : (a.create (a.cell owner).engined).1.index <
          (a.create (a.cell owner).engined).2.cells.size :=
        Nat.lt_of_lt_of_eq (Nat.lt_succ_self _) (Array.size_push _).symm
      refine ⟨hindex, hsize, fun m hm => ?_, ?_, ?_⟩
      · refine (cell_modifyCell_of_ne _ _ ?_).trans (cell_create_of_lt a _ hm)
        rintro rfl
        exact Nat.lt_irrefl _ hm
      · exact (congrArg Cell.entries (cell_modifyCell_self _ _ hlt)).trans
          (congrArg Cell.entries (cell_create_self a _))
      · exact (congrArg Cell.name (cell_modifyCell_self _ _ hlt)).trans
          (congrArg Cell.name (cell_create_self a _))

/-- From `a` to `u` values have been built that depict the JSON values, in the same way. -/
structure DepictedAll (a u : World) (items : List Json) (values : List Value)
    (nodes : List NodeId) : Prop where
  depicts : u.DepictsAll items values nodes
  distinct : nodes.Nodup
  range : ∀ m ∈ nodes, a.cells.size ≤ m.index ∧ m.index < u.cells.size
  size : a.cells.size ≤ u.cells.size
  frame : ∀ m : NodeId, m.index < a.cells.size → u.cell m = a.cell m

namespace DepictedAll

variable {a u v : World} {item : Json} {rest : List Json} {value : Value} {values : List Value}
  {nodes others : List NodeId}

theorem nil (a : World) : DepictedAll a a [] [] [] where
  depicts := .nil
  distinct := List.nodup_nil
  range := fun _ hm => (List.not_mem_nil hm).elim
  size := Nat.le_refl _
  frame := fun _ _ => rfl

theorem cons (h : Depicted a u item value nodes) (h' : DepictedAll u v rest values others) :
    DepictedAll a v (item :: rest) (value :: values) (nodes ++ others) where
  depicts := .cons (h.depicts.congr fun m hm => h'.frame m (h.range m hm).2) h'.depicts
  distinct := by
    refine List.nodup_append.mpr ⟨h.distinct, h'.distinct, ?_⟩
    rintro m hm _ hm' rfl
    have hlt := (h.range m hm).2
    have hnew := (h'.range m hm').1
    omega
  range := by
    intro m hm
    have hsize := h.size
    have hsize' := h'.size
    rcases List.mem_append.mp hm with hm | hm
    · obtain ⟨hnew, hlt⟩ := h.range m hm
      exact ⟨hnew, Nat.lt_of_lt_of_le hlt hsize'⟩
    · obtain ⟨hnew, hlt⟩ := h'.range m hm
      exact ⟨Nat.le_trans hsize hnew, hlt⟩
  size := Nat.le_trans h.size h'.size
  frame := fun m hm => (h'.frame m (Nat.lt_of_lt_of_le hm h.size)).trans (h.frame m hm)

end DepictedAll

namespace Depicted

/-- A value without nodes needs no building. -/
theorem leaf {a : World} {json : Json} {value : Value} (h : a.Depicts json value []) :
    Depicted a a json value [] where
  depicts := h
  distinct := List.nodup_nil
  range := fun _ hm => (List.not_mem_nil hm).elim
  size := Nat.le_refl _
  frame := fun _ _ => rfl
  unnamed := fun _ hr => (List.not_mem_nil (h.mem_of_node hr)).elim

theorem array {a u : World} {items : List Json} {values : List Value} {nodes : List NodeId}
    (h : DepictedAll a u items values nodes) : Depicted a u (.array items) (.list values) nodes where
  depicts := .array h.depicts
  distinct := h.distinct
  range := h.range
  size := h.size
  frame := h.frame
  unnamed := fun _ => Value.noConfusion

/-- A node that was created and filled depicts an object. -/
theorem object {a u : World} {owner : Option NodeId} {members : List (String × Json)}
    {entries : Entries Value} {nodes : List NodeId}
    (h : Adds (a.createUnder owner).2 u (a.createUnder owner).1 entries nodes)
    (hdepicts : u.DepictsMembers members entries nodes) :
    Depicted a u (.object members) (.node (a.createUnder owner).1)
      ((a.createUnder owner).1 :: nodes) := by
  obtain ⟨hindex, hsize, hframe, hentries, hname⟩ := createUnder_frame a owner
  have hgrown := h.size
  constructor
  case depicts =>
    refine .object ?_
    rw [h.cell, hentries]
    exact hdepicts
  case distinct =>
    refine List.nodup_cons.mpr ⟨fun hmem => ?_, h.distinct⟩
    have hnew := (h.range _ hmem).1
    omega
  case range =>
    intro m hm
    rcases List.mem_cons.mp hm with rfl | hm
    · omega
    · obtain ⟨hnew, hlt⟩ := h.range m hm
      exact ⟨by omega, hlt⟩
  case size => omega
  case frame =>
    intro m hm
    rw [h.frame m (by omega), hframe m hm]
    rintro rfl
    omega
  case unnamed =>
    rintro r ⟨⟩
    rw [h.cell]
    exact hname

mutual

/-- The value of a JSON value depicts it. -/
theorem build (owner : Option NodeId) : ∀ (json : Json) (a : World), json.Proper →
    ∃ nodes, Depicted a (a.build owner json).2 json (a.build owner json).1 nodes
  | .null, _, _ => ⟨[], leaf .null⟩
  | .bool b, _, _ => ⟨[], leaf (.bool b)⟩
  | .number n, _, _ => ⟨[], leaf (.number n)⟩
  | .text s, _, _ => ⟨[], leaf (.text s)⟩
  | .array items, a, hproper => by
      rw [Json.Proper] at hproper
      obtain ⟨nodes, hbuilt⟩ := buildAll owner items a hproper
      exact ⟨nodes, array hbuilt⟩
  | .object members, a, hproper => by
      rw [Json.Proper] at hproper
      obtain ⟨hindex, hsize, -, hentries, -⟩ := createUnder_frame a owner
      obtain ⟨entries, nodes, hadds, hdepicts⟩ := buildMembers owner (a.createUnder owner).1
        members (a.createUnder owner).2 (by omega) (by rw [hentries]; exact hproper.1) hproper.2
      exact ⟨_, object hadds hdepicts⟩

theorem buildAll (owner : Option NodeId) : ∀ (items : List Json) (a : World),
    Json.AllProper items →
    ∃ nodes, DepictedAll a (World.buildAll owner items a).2 items
      (World.buildAll owner items a).1 nodes
  | [], a, _ => ⟨[], .nil a⟩
  | item :: rest, a, hproper => by
      rw [Json.AllProper] at hproper
      obtain ⟨nodes, hfirst⟩ := build owner item a hproper.1
      obtain ⟨others, hrest⟩ := buildAll owner rest (a.build owner item).2 hproper.2
      exact ⟨nodes ++ others, .cons hfirst hrest⟩

theorem buildMembers (owner : Option NodeId) (n : NodeId) : ∀ (members : List (String × Json))
    (a : World), n.index < a.cells.size →
    ((a.cell n).entries.keys ++ Entries.keys members).Nodup → Json.MembersProper members →
    ∃ entries nodes, Adds a (World.buildMembers owner n members a) n entries nodes ∧
      (World.buildMembers owner n members a).DepictsMembers members entries nodes
  | [], a, _, _, _ => ⟨[], [], Adds.refl a n, .nil⟩
  | (key, member) :: rest, a, hn, hkeys, hproper => by
      rw [Json.MembersProper] at hproper
      obtain ⟨nodes, hbuilt⟩ := build (owner.map fun _ => n) member a hproper.1
      have hput := hbuilt.put hn (key_notMem hkeys)
      obtain ⟨entries, others, hadds, hdepicts⟩ := buildMembers owner n rest _
        (Nat.lt_of_lt_of_le hn hput.size) (hput.nodup_keys hkeys) hproper.2
      obtain ⟨hvalue, hname⟩ := hbuilt.stored hn hadds
      exact ⟨_, nodes ++ others, hput.trans hadds, .cons hvalue hname hdepicts⟩

end

end Depicted

/-! ## Filling a node and its children -/

/-- The entries are those of the members of an object, with a named child that is still empty for
each member that is an object. The children are listed, and all nodes. -/
inductive Sketches (w : World) :
    List (String × Json) → Entries Value → List NodeId → List NodeId → Prop
  | nil : Sketches w [] [] [] []
  | child {key : String} {members rest : List (String × Json)} {entries : Entries Value}
      {child : NodeId} {children nodes : List NodeId} :
      (w.cell child).entries = [] → (w.cell child).name = some key →
      Sketches w rest entries children nodes →
      Sketches w ((key, .object members) :: rest) ((key, .node child) :: entries)
        (child :: children) (child :: nodes)
  | value {key : String} {member : Json} {rest : List (String × Json)} {value : Value}
      {entries : Entries Value} {children nodes others : List NodeId} :
      (∀ members, member ≠ .object members) → Depicts w member value nodes →
      Sketches w rest entries children others →
      Sketches w ((key, member) :: rest) ((key, value) :: entries) children (nodes ++ others)

namespace Sketches

variable {a u : World} {members : List (String × Json)} {entries : Entries Value}
  {children nodes : List NodeId}

theorem congr (h : a.Sketches members entries children nodes)
    (hcells : ∀ m ∈ nodes, u.cell m = a.cell m) : u.Sketches members entries children nodes := by
  induction h with
  | nil => exact .nil
  | @child key members rest entries child children nodes hentries hname _ ih =>
      have hcell := hcells child List.mem_cons_self
      refine .child (by rw [hcell, hentries]) (by rw [hcell, hname]) ?_
      exact ih fun m hm => hcells m (List.mem_cons_of_mem _ hm)
  | value hmember hvalue _ ih =>
      refine .value hmember (hvalue.congr fun m hm => hcells m (List.mem_append_left _ hm)) ?_
      exact ih fun m hm => hcells m (List.mem_append_right _ hm)

theorem mem_of_child (h : a.Sketches members entries children nodes) {c : NodeId}
    (hc : c ∈ children) : c ∈ nodes := by
  induction h with
  | nil => exact hc
  | child _ _ _ ih =>
      rcases List.mem_cons.mp hc with rfl | hc
      · exact List.mem_cons_self
      · exact List.mem_cons_of_mem _ (ih hc)
  | value _ _ _ ih => exact List.mem_append_right _ (ih hc)

end Sketches

/-- An empty child named after its key is stored in a node. -/
theorem adds_createChild {a : World} {n : NodeId} {key : String} (hn : n.index < a.cells.size)
    (hkey : key ∉ (a.cell n).entries.keys) :
    Adds a (a.createChild n key).2 n [(key, .node (a.createChild n key).1)]
        [(a.createChild n key).1] ∧
      ((a.createChild n key).2.cell (a.createChild n key).1).entries = [] ∧
      ((a.createChild n key).2.cell (a.createChild n key).1).name = some key := by
  obtain ⟨hindex, hsize⟩ := index_createChild a n key
  -- The child has been created and named, and is not stored yet.
  let child := (a.create (a.cell n).engined).1
  let u := (a.create (a.cell n).engined).2.setName child key
  have husize : u.cells.size = a.cells.size + 1 := (size_modifyCell _ _ _).trans (Array.size_push _)
  have hchild : child.index < u.cells.size := by
    rw [husize]
    exact Nat.lt_succ_self _
  have hne : n ≠ child := by
    intro heq
    rw [heq] at hn
    exact Nat.lt_irrefl _ hn
  have hnew : u.cell child = { (a.create (a.cell n).engined).2.cell child with name := some key } :=
    cell_modifyCell_self _ _ (Nat.lt_of_lt_of_eq (Nat.lt_succ_self _) (Array.size_push _).symm)
  have hold : ∀ m : NodeId, m.index < a.cells.size → u.cell m = a.cell m := by
    intro m hm
    refine (cell_modifyCell_of_ne _ _ ?_).trans (cell_create_of_lt a _ hm)
    rintro rfl
    exact Nat.lt_irrefl _ hm
  have hstored : (a.createChild n key).2 = u.put n key (.node child) := rfl
  refine ⟨⟨?_, List.nodup_singleton _, ?_, by omega, ?_⟩, ?_, ?_⟩
  · rw [hstored, cell_put_new (by omega) (by rwa [hold n hn]), hold n hn]
    rfl
  · intro m hm
    rw [List.mem_singleton.mp hm]
    omega
  · intro m hm hmn
    rw [hstored, cell_put_of_ne hmn.symm, hold m hm]
    rintro ⟨⟩
    exact Nat.lt_irrefl _ hm
  · show ((u.put n key (.node child)).cell child).entries = []
    rw [entries_put_of_ne hne, hnew, cell_create_self]
  · show ((u.put n key (.node child)).cell child).name = some key
    rw [name_put_node hne hchild, hnew]
    rfl

theorem sketches_putMembers (n : NodeId) : ∀ (members : List (String × Json)) (a : World),
    n.index < a.cells.size → ((a.cell n).entries.keys ++ Entries.keys members).Nodup →
    Json.MembersProper members →
    ∃ entries nodes, Adds a (putMembers n members a).2 n entries nodes ∧
      (putMembers n members a).2.Sketches members entries (putMembers n members a).1 nodes
  | [], a, _, _, _ => ⟨[], [], Adds.refl a n, .nil⟩
  | (key, member) :: rest, a, hn, hkeys, hproper => by
      rw [Json.MembersProper] at hproper
      have hkey := key_notMem hkeys
      by_cases hobject : ∃ members, member = .object members
      · obtain ⟨members, rfl⟩ := hobject
        obtain ⟨hput, hentries, hname⟩ := adds_createChild hn hkey
        obtain ⟨entries, others, hadds, hsketches⟩ := sketches_putMembers n rest _
          (Nat.lt_of_lt_of_le hn hput.size) (hput.nodup_keys hkeys) hproper.2
        obtain ⟨hnew, hlt⟩ := hput.range _ List.mem_cons_self
        have hcell := hadds.frame_of_new hlt (Nat.lt_of_lt_of_le hn hnew)
        rw [putMembers_object]
        exact ⟨_, _, hput.trans hadds, .child (by rw [hcell, hentries]) (by rw [hcell, hname])
          hsketches⟩
      · have hvalue : ∀ members, member ≠ .object members :=
          fun members heq => hobject ⟨members, heq⟩
        obtain ⟨nodes, hbuilt⟩ := Depicted.build (some n) member a hproper.1
        have hput := hbuilt.put hn hkey
        obtain ⟨entries, others, hadds, hsketches⟩ := sketches_putMembers n rest _
          (Nat.lt_of_lt_of_le hn hput.size) (hput.nodup_keys hkeys) hproper.2
        rw [putMembers_value a n key hvalue]
        exact ⟨_, _, hput.trans hadds, .value hvalue (hbuilt.stored hn hadds).1 hsketches⟩

/-- The children of a sketch have been filled from `a` to `u`, and nothing else has changed. -/
structure Completed (a u : World) (members : List (String × Json)) (entries : Entries Value)
    (children before nodes : List NodeId) : Prop where
  depicts : u.DepictsMembers members entries nodes
  distinct : nodes.Nodup
  origin : ∀ m ∈ nodes, m ∈ before ∨ a.cells.size ≤ m.index
  range : ∀ m ∈ nodes, m.index < u.cells.size
  size : a.cells.size ≤ u.cells.size
  frame : ∀ m : NodeId, m.index < a.cells.size → m ∉ children → u.cell m = a.cell m

namespace Completed

variable {a b u : World} {key : String} {members rest : List (String × Json)} {member : Json}
  {value : Value} {entries filled : Entries Value} {child : NodeId}
  {children before nodes others : List NodeId}

theorem nil (a : World) : Completed a a [] [] [] [] [] where
  depicts := .nil
  distinct := List.nodup_nil
  origin := fun _ hm => (List.not_mem_nil hm).elim
  range := fun _ hm => (List.not_mem_nil hm).elim
  size := Nat.le_refl _
  frame := fun _ _ _ => rfl

/-- A value that is no object is there already. -/
theorem of_value (hvalue : a.Depicts member value nodes) (hmember : ∀ members, member ≠ .object members)
    (hbefore : (nodes ++ before).Nodup) (hlt : ∀ m ∈ nodes ++ before, m.index < a.cells.size)
    (hchildren : ∀ c ∈ children, c ∈ before)
    (h : Completed a u rest entries children before others) :
    Completed a u ((key, member) :: rest) ((key, value) :: entries) children (nodes ++ before)
      (nodes ++ others) := by
  obtain ⟨hnodes, hrest, hapart⟩ := List.nodup_append.mp hbefore
  have hkept : ∀ m ∈ nodes, u.cell m = a.cell m := by
    intro m hm
    refine h.frame m (hlt m (List.mem_append_left _ hm)) fun hc => ?_
    exact hapart m hm m (hchildren m hc) rfl
  constructor
  case depicts =>
    refine .cons (hvalue.congr hkept) ?_ h.depicts
    rintro r rfl
    cases hvalue with
    | @object members => exact absurd rfl (hmember members)
  case distinct =>
    refine List.nodup_append.mpr ⟨hnodes, h.distinct, ?_⟩
    rintro m hm _ hm' rfl
    rcases h.origin m hm' with hold | hnew
    · exact hapart m hm m hold rfl
    · have hmlt := hlt m (List.mem_append_left _ hm)
      omega
  case origin =>
    intro m hm
    rcases List.mem_append.mp hm with hm | hm
    · exact .inl (List.mem_append_left _ hm)
    · exact (h.origin m hm).imp (List.mem_append_right _) id
  case range =>
    intro m hm
    rcases List.mem_append.mp hm with hm | hm
    · exact Nat.lt_of_lt_of_le (hlt m (List.mem_append_left _ hm)) h.size
    · exact h.range m hm
  case size => exact h.size
  case frame => exact h.frame

/-- A child is filled before the others. -/
theorem of_child (hempty : (a.cell child).entries = []) (hname : (a.cell child).name = some key)
    (hbefore : (child :: before).Nodup) (hlt : ∀ m ∈ child :: before, m.index < a.cells.size)
    (hchildren : ∀ c ∈ children, c ∈ before) (hadds : Adds a b child filled nodes)
    (hfilled : b.DepictsMembers members filled nodes)
    (h : Completed b u rest entries children before others) :
    Completed a u ((key, .object members) :: rest) ((key, .node child) :: entries)
      (child :: children) (child :: before) (child :: nodes ++ others) := by
  obtain ⟨hchild, hrest⟩ := List.nodup_cons.mp hbefore
  have hsize := hadds.size
  have hsize' := h.size
  -- Filling the other children changes neither this one nor what it holds.
  have hcell : u.cell child = b.cell child := by
    refine h.frame child (Nat.lt_of_lt_of_le (hlt child List.mem_cons_self) hsize) fun hc => ?_
    exact hchild (hchildren child hc)
  have hkept : ∀ m ∈ nodes, u.cell m = b.cell m := by
    intro m hm
    obtain ⟨hnew, hmlt⟩ := hadds.range m hm
    refine h.frame m hmlt fun hc => ?_
    have hold := hlt m (List.mem_cons_of_mem _ (hchildren m hc))
    omega
  constructor
  case depicts =>
    refine .cons (.object ?_) ?_ h.depicts
    · rw [hcell, hadds.cell, hempty]
      exact hfilled.congr hkept
    · rintro r ⟨⟩
      rw [hcell, hadds.cell]
      exact hname
  case distinct =>
    refine List.nodup_append.mpr ⟨List.nodup_cons.mpr ⟨fun hmem => ?_, hadds.distinct⟩,
      h.distinct, ?_⟩
    · have hnew := (hadds.range child hmem).1
      have hold := hlt child List.mem_cons_self
      omega
    · rintro m hm _ hm' rfl
      rcases List.mem_cons.mp hm with rfl | hm
      · rcases h.origin m hm' with hold | hnew
        · exact hchild hold
        · have hold := hlt m List.mem_cons_self
          omega
      · obtain ⟨hnew, hmlt⟩ := hadds.range m hm
        rcases h.origin m hm' with hold | hlater
        · have hold := hlt m (List.mem_cons_of_mem _ hold)
          omega
        · omega
  case origin =>
    intro m hm
    rcases List.mem_append.mp hm with hm | hm
    · rcases List.mem_cons.mp hm with rfl | hm
      · exact .inl List.mem_cons_self
      · exact .inr (hadds.range m hm).1
    · exact (h.origin m hm).imp (List.mem_cons_of_mem _) hsize.trans
  case range =>
    intro m hm
    rcases List.mem_append.mp hm with hm | hm
    · rcases List.mem_cons.mp hm with rfl | hm
      · have hold := hlt m List.mem_cons_self
        omega
      · exact Nat.lt_of_lt_of_le (hadds.range m hm).2 hsize'
    · exact h.range m hm
  case size => exact hsize.trans hsize'
  case frame =>
    intro m hm hmem
    rw [List.mem_cons, not_or] at hmem
    rw [h.frame m (Nat.lt_of_lt_of_le hm hsize) hmem.2, hadds.frame m hm hmem.1]

/-- A node whose children have been filled has been filled. -/
theorem adds {n : NodeId} (h : Completed b u members entries children before nodes)
    (hadds : Adds a b n entries before) (hchildren : ∀ c ∈ children, c ∈ before)
    (hn : n.index < a.cells.size) : Adds a u n entries nodes := by
  have hsize := hadds.size
  -- The children are new, so what was there has not changed since.
  have hframe : ∀ m : NodeId, m.index < a.cells.size → u.cell m = b.cell m := by
    intro m hm
    refine h.frame m (Nat.lt_of_lt_of_le hm hsize) fun hc => ?_
    have hnew := (hadds.range m (hchildren m hc)).1
    omega
  constructor
  case cell => rw [hframe n hn, hadds.cell]
  case distinct => exact h.distinct
  case range =>
    intro m hm
    refine ⟨?_, h.range m hm⟩
    rcases h.origin m hm with hold | hnew
    · exact (hadds.range m hold).1
    · exact hsize.trans hnew
  case size => exact hsize.trans h.size
  case frame =>
    intro m hm hne
    rw [hframe m hm, hadds.frame m hm hne]

end Completed

/-- What the run holds does not count. -/
theorem Adds.held {a u : World} {n : NodeId} {entries : Entries Value} {nodes : List NodeId}
    (h : Adds a u n entries nodes) (before after : List NodeId) :
    Adds { a with held := before } { u with held := after } n entries nodes :=
  ⟨h.cell, h.distinct, h.range, h.size, h.frame⟩

end World

namespace NodeId

open World (Adds Sketches Completed Depicted)

theorem materializeAll_value (introspect : NodeId → Action Unit) (children : List NodeId)
    (key : String) {member : Json} (hmember : ∀ members, member ≠ .object members)
    (rest : List (String × Json)) :
    materializeAll introspect children ((key, member) :: rest) =
      materializeAll introspect children rest := by
  cases member with
  | object members => exact absurd rfl (hmember members)
  | _ => rfl

theorem notMem_instructionKeys {members : List (String × Json)}
    (h : Json.membersUninstructed members = true) {key : String}
    (hkey : key ∈ Entries.keys members) : key ∉ instructionKeys := by
  induction members with
  | nil => cases hkey
  | cons p rest ih =>
      obtain ⟨k, member⟩ := p
      obtain ⟨hk, -, hothers⟩ := Json.membersUninstructed_cons h
      rcases List.mem_cons.mp hkey with rfl | hkey
      · exact hk
      · exact ih hothers hkey

/-- Without instructions among its keys a node is introspected to no effect. -/
theorem introspect_of_keys (lang : Language) {n : NodeId} {u : World}
    {members : List (String × Json)} (hkeys : (u.cell n).entries.keys = Entries.keys members)
    (hbare : Json.membersUninstructed members = true) : introspect lang n u = (.done (), u) := by
  refine introspect_of_bare lang fun key hkey => ?_
  have hcontains : ¬ (u.cell n).entries.contains key = true := by
    rw [Entries.contains_iff_mem_keys, hkeys]
    exact fun hmem => notMem_instructionKeys hbare hmem hkey
  exact Option.not_isSome_iff_eq_none.mp hcontains

variable (lang : Language)

mutual

/-- An empty node that is filled with the members of an object depicts it. -/
theorem materialize_depicts (n : NodeId) : ∀ (json : Json) (a : World),
    n.index < a.cells.size → (a.cell n).entries = [] → json.uninstructed = true → json.Proper →
    ∀ members, json = .object members → ∃ u entries nodes,
      n.materialize (introspect lang) (.object members) a = (.done (), u) ∧
      Adds a u n entries nodes ∧ u.DepictsMembers members entries nodes
  | .object members, a, hn, hempty, hbare, hproper, _, rfl => by
      rw [Json.uninstructed] at hbare
      rw [Json.Proper] at hproper
      obtain ⟨entries, before, hadds, hsketches⟩ := World.sketches_putMembers n members a hn
        (by rw [hempty]; exact hproper.1) hproper.2
      obtain ⟨u, nodes, hrun, hcompleted⟩ := materializeAll_depicts members _ entries _ before
        hsketches hadds.distinct (fun m hm => (hadds.range m hm).2) hbare hproper.2
      have hfilled := hcompleted.adds hadds (fun _ => hsketches.mem_of_child) hn
      refine ⟨u, entries, nodes, ?_, hfilled, hcompleted.depicts⟩
      rw [materialize, Action.bind_apply]
      show (materializeAll _ _ members >>= _) _ = _
      rw [Action.bind_apply, hrun]
      -- The node has no instructions that could be carried out.
      refine introspect_of_keys lang ?_ hbare
      rw [hfilled.cell, hempty]
      exact hcompleted.depicts.keys_eq
  | .null, _, _, _, _, _, _, h | .bool _, _, _, _, _, _, _, h | .number _, _, _, _, _, _, _, h
  | .text _, _, _, _, _, _, _, h | .array _, _, _, _, _, _, _, h => Json.noConfusion h

/-- The children of a sketch are filled, each before the next. -/
theorem materializeAll_depicts : ∀ (members : List (String × Json)) (a : World)
    (entries : Entries Value) (children before : List NodeId),
    a.Sketches members entries children before → before.Nodup →
    (∀ m ∈ before, m.index < a.cells.size) → Json.membersUninstructed members = true →
    Json.MembersProper members → ∃ u nodes,
      materializeAll (introspect lang) children members a = (.done (), u) ∧
      Completed a u members entries children before nodes
  | [], a, _, _, _, .nil, _, _, _, _ => ⟨a, [], rfl, .nil a⟩
  | (key, member) :: rest, a, _, _, _, hsketches, hbefore, hlt, hbare, hproper => by
      obtain ⟨-, hmember, hothers⟩ := Json.membersUninstructed_cons hbare
      rw [Json.MembersProper] at hproper
      have hfill := fun child => materialize_depicts child member
      cases hsketches with
      | @child _ members _ entries child children before hempty hname hrest =>
          obtain ⟨b, filled, nodes, hrun, hadds, hfilled⟩ := hfill child
            (a.hold (child :: children)) (hlt child List.mem_cons_self) hempty hmember hproper.1
            members rfl
          replace hadds := hadds.held a.held a.held
          obtain ⟨hchild, hdistinct⟩ := List.nodup_cons.mp hbefore
          have hrest' : Sketches { b with held := a.held } rest entries children before := by
            refine hrest.congr fun m hm => ?_
            refine hadds.frame m (hlt m (List.mem_cons_of_mem _ hm)) ?_
            rintro rfl
            exact hchild hm
          obtain ⟨u, others, hrun', hcompleted⟩ := materializeAll_depicts rest
            { b with held := a.held } entries children before hrest' hdistinct
            (fun m hm => Nat.lt_of_lt_of_le (hlt m (List.mem_cons_of_mem _ hm)) hadds.size)
            hothers hproper.2
          refine ⟨u, child :: nodes ++ others, ?_, hcompleted.of_child hempty hname hbefore hlt
            (fun _ => hrest.mem_of_child) hadds (hfilled.congr fun _ _ => rfl)⟩
          show (Action.holding _ _ >>= _) a = _
          rw [Action.bind_apply, Action.holding_of_done hrun]
          exact hrun'
      | @value _ _ _ value entries _ nodes before hvalue hdepicts hrest =>
          obtain ⟨u, others, hrun, hcompleted⟩ := materializeAll_depicts rest a entries _ before
            hrest (List.nodup_append.mp hbefore).2.1
            (fun m hm => hlt m (List.mem_append_right _ hm)) hothers hproper.2
          refine ⟨u, nodes ++ others, ?_, hcompleted.of_value hdepicts hvalue hbefore hlt
            fun c hc => hrest.mem_of_child hc⟩
          rw [materializeAll_value _ _ _ hvalue]
          exact hrun

end

/-- The node of a literal depicts it, and is linked to the node that it is built for. -/
theorem newChild_depicts {n : NodeId} {text : String} {members : List (String × Json)} {w : World}
    (hn : n.index < w.cells.size) (hread : Json.readLenient? text = some (.object members))
    (hbare : (Json.object members).uninstructed = true) (hproper : (Json.object members).Proper) :
    ∃ item u nodes, n.newChild (introspect lang) text w = (.done item, u) ∧
      Depicted w u (.object members) (.node item) nodes ∧ (u.cell item).parent = some n := by
  obtain ⟨hindex, hsize, -, hentries, -⟩ := World.createUnder_frame w (some n)
  have hcreated := (World.Linked.refl w).createUnder hn
  obtain ⟨b, entries, nodes, hrun, hadds, hfilled⟩ := materialize_depicts lang
    (w.createUnder (some n)).1 (.object members)
    ((w.createUnder (some n)).2.hold [(w.createUnder (some n)).1])
    (Nat.lt_of_lt_of_eq (by omega) hsize.symm) hentries hbare hproper members rfl
  replace hadds := hadds.held (w.createUnder (some n)).2.held (w.createUnder (some n)).2.held
  refine ⟨(w.createUnder (some n)).1, { b with held := (w.createUnder (some n)).2.held }, _, ?_,
    Depicted.object hadds (hfilled.congr fun _ _ => rfl), ?_⟩
  · rw [newChild, hread]
    show (Action.holding [(w.createUnder (some n)).1]
      ((w.createUnder (some n)).1.materialize (introspect lang) (.object members)) >>=
        fun _ => pure (w.createUnder (some n)).1) (w.createUnder (some n)).2 = _
    rw [Action.bind_apply, Action.holding_of_done hrun]
    rfl
  · rw [hadds.cell]
    exact (hcreated.nodes _ List.mem_cons_self).2.2

end NodeId

namespace World

/-! ## Plain values -/

/-- The plain value of a JSON value is printed as it. -/
theorem json_build {json : Json} (hproper : json.Proper) (owner : Option NodeId) (w : World) :
    (w.build owner json).2.json (w.build owner json).1 = json := by
  obtain ⟨nodes, hbuilt⟩ := Depicted.build owner json w hproper
  exact hbuilt.depicts.json_eq hbuilt.distinct fun m hm => (hbuilt.range m hm).2

end World

end ScriptTree
