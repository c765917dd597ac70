import ScriptTree.Proofs.Load.Merge

/-!
# Worlds on the way of a load

A run that is its own twin leaves the nodes that were there alone, and every node that it builds
refers to nodes built after it. `World.Grows` says so of the world where a load starts and one on
its way. `World.Kept` lists what a property of worlds has to keep so that a whole load keeps it:
fresh nodes, stored values and merges. What a load builds from these follows from them once
(`Kept.build`, `Kept.putMembers`, `Kept.flatten`). Two properties are of this kind, that nothing is
expanded or run (`kept_inert`), and that the world grows from a given one (`kept_grows`).
-/

set_option autoImplicit false

namespace ScriptTree

open World (Twin)

/-! ## Runs that are their own twins -/

theorem NodeId.moved_same (v : World) (m : NodeId) : m.moved v v = m := by
  unfold NodeId.moved
  split
  · rfl
  · simp

theorem Value.rename_moved_same (v : World) (value : Value) :
    value.rename (NodeId.moved v v) = value :=
  Value.rename_eq_self value fun m _ => NodeId.moved_same v m

namespace World

/-- A load that started in `v` has come to `a`: the nodes of `v` are as they were, and each node
that was built since refers to nodes built after it. -/
abbrev Grows (v a : World) : Prop := Twin v v a a

namespace Grows

variable {v a : World} {n : NodeId}

theorem refl (hclosed : v.Closed) (hinert : v.Inert) : v.Grows v :=
  Twin.start hclosed hinert hinert (Extends.refl v)

/-- What the run itself holds does not count. -/
theorem held (h : v.Grows a) (nodes : List NodeId) : v.Grows { a with held := nodes } := by
  refine { h with held := ?_ }
  have hsame : NodeId.moved v v = id := funext (NodeId.moved_same v)
  rw [hsame, List.map_id]

theorem loading (h : v.Grows a) (files : List String) : v.Grows { a with loading := files } :=
  { h with loading := rfl }

theorem put (h : v.Grows a) (hn : v.cells.size ≤ n.index) (key : String) {value : Value}
    (hvalue : ∀ r ∈ value.nodes, n.index < r.index ∧ r.index < a.cells.size) :
    v.Grows (a.put n key value) := by
  have hput := Twin.put h hn key hvalue
  rwa [NodeId.moved_same, Value.rename_moved_same] at hput

theorem createUnder (h : v.Grows a) {owner : NodeId} (howner : owner.index < a.cells.size) :
    v.Grows (a.createUnder (some owner)).2 := by
  obtain ⟨-, -, -, htwin⟩ := Twin.createUnder h howner
  rwa [NodeId.moved_same] at htwin

theorem createChild (h : v.Grows a) (hn : v.cells.size ≤ n.index) (hlt : n.index < a.cells.size)
    (key : String) : v.Grows (a.createChild n key).2 := by
  obtain ⟨-, -, -, htwin⟩ := Twin.createChild h hn hlt key
  rwa [NodeId.moved_same] at htwin

theorem mergeFrom (h : v.Grows a) {item : NodeId} (hn : v.cells.size ≤ n.index)
    (hitem : n.index < item.index) : v.Grows (a.merge n (a.cell item).entries) := by
  have hmerge := Twin.mergeFrom h hn hitem
  rwa [NodeId.moved_same, NodeId.moved_same] at hmerge

end Grows

/-! ## What a load keeps -/

/-- The property is kept by the changes that a load makes, when they are made to nodes of the given
kind, to which all new nodes belong. Where it holds, nothing is expanded and no script runs. -/
structure Kept (I : World → Prop) (site : NodeId → Prop) : Prop where
  inert : ∀ a, I a → a.Inert
  held : ∀ (a : World) nodes, I a → I { a with held := nodes }
  loading : ∀ (a : World) files, I a → I { a with loading := files }
  /-- A node that is new, or that a node of the kind refers to, is of the kind. -/
  new : ∀ (a : World) (n : NodeId), I a → a.cells.size ≤ n.index → site n
  referred : ∀ (a : World) (n : NodeId), I a → site n → ∀ r ∈ references (a.cell n), site r
  createUnder : ∀ (a : World) (owner : NodeId), I a → owner.index < a.cells.size →
    I (a.createUnder (some owner)).2
  createChild : ∀ (a : World) (n : NodeId) (key : String), I a → site n →
    n.index < a.cells.size → I (a.createChild n key).2
  put : ∀ (a : World) (n : NodeId) (key : String) (value : Value), I a → site n →
    (∀ r ∈ value.nodes, n.index < r.index ∧ r.index < a.cells.size) → I (a.put n key value)
  mergeFrom : ∀ (a : World) (n item : NodeId), I a → site n → n.index < item.index →
    I (a.merge n (a.cell item).entries)

theorem index_createUnder (a : World) (owner : NodeId) :
    (a.createUnder (some owner)).1.index = a.cells.size ∧
      (a.createUnder (some owner)).2.cells.size = a.cells.size + 1 :=
  ⟨rfl, (size_modifyCell _ _ _).trans (Array.size_push _)⟩

theorem index_createChild (a : World) (n : NodeId) (key : String) :
    (a.createChild n key).1.index = a.cells.size ∧
      (a.createChild n key).2.cells.size = a.cells.size + 1 := by
  constructor
  · rfl
  · unfold createChild
    simp only [size_put, setName, size_modifyCell]
    exact Array.size_push _

namespace Kept

variable {I : World → Prop} {site : NodeId → Prop}

theorem putText (hk : Kept I site) {a : World} {n : NodeId} (ha : I a) (hn : site n) (key text : String) :
    I (a.put n key (.text text)) := by
  apply hk.put a n key _ ha hn
  intro r hr
  cases hr

theorem putTexts (hk : Kept I site) {a : World} {n : NodeId} (ha : I a) (hn : site n)
    (texts : List (String × String)) :
    I (a.putAll n (texts.map fun p => (p.1, .text p.2))) := by
  induction texts generalizing a with
  | nil => exact ha
  | cons p rest ih => exact ih (hk.putText ha hn p.1 p.2)

mutual

/-- Building a value keeps the property, and the nodes of the value are new. -/
theorem build (hk : Kept I site) (owner : NodeId) : ∀ (json : Json) (a : World), I a → owner.index < a.cells.size →
    I (a.build (some owner) json).2 ∧ ∀ r ∈ (a.build (some owner) json).1.nodes,
      a.cells.size ≤ r.index ∧ r.index < (a.build (some owner) json).2.cells.size
  | .null, _, ha, _ | .bool _, _, ha, _ | .number _, _, ha, _ | .text _, _, ha, _ => by
      refine ⟨ha, ?_⟩
      intro r hr
      cases hr
  | .array items, a, ha, howner => hk.buildAll owner items a ha howner
  | .object members, a, ha, howner => by
      obtain ⟨hindex, hsize⟩ := index_createUnder a owner
      have hcreated := hk.createUnder a owner ha howner
      have hsite := hk.new a (a.createUnder (some owner)).1 ha (Nat.le_of_eq hindex.symm)
      have hgrown := (continues_buildMembers (some owner) (a.createUnder (some owner)).1 members
        (a.createUnder (some owner)).2).size
      have hlt : (a.createUnder (some owner)).1.index <
          (a.createUnder (some owner)).2.cells.size := by omega
      rw [build_object]
      constructor
      · exact hk.buildMembers owner _ members _ hcreated hsite hlt
      · intro r hr
        rcases List.mem_singleton.mp hr with rfl
        exact ⟨Nat.le_of_eq hindex.symm, Nat.lt_of_lt_of_le hlt hgrown⟩

theorem buildAll (hk : Kept I site) (owner : NodeId) : ∀ (items : List Json) (a : World), I a →
    owner.index < a.cells.size →
    I (World.buildAll (some owner) items a).2 ∧
      ∀ r ∈ Value.allNodes (World.buildAll (some owner) items a).1, a.cells.size ≤ r.index ∧
        r.index < (World.buildAll (some owner) items a).2.cells.size
  | [], _, ha, _ => by
      refine ⟨ha, ?_⟩
      intro r hr
      cases hr
  | item :: rest, a, ha, howner => by
      obtain ⟨hfirst, hnodes⟩ := hk.build owner item a ha howner
      have hgrown := (continues_build (some owner) item a).size
      have hgrown' := (continues_buildAll (some owner) rest (a.build (some owner) item).2).size
      obtain ⟨hrest, hmore⟩ := hk.buildAll owner rest _ hfirst (by omega)
      refine ⟨hrest, ?_⟩
      intro r hr
      rcases List.mem_append.mp hr with hr | hr
      · have hrange := hnodes r hr
        exact ⟨hrange.1, Nat.lt_of_lt_of_le hrange.2 hgrown'⟩
      · have hrange := hmore r hr
        exact ⟨Nat.le_trans hgrown hrange.1, hrange.2⟩

theorem buildMembers (hk : Kept I site) (owner n : NodeId) : ∀ (members : List (String × Json)) (a : World), I a →
    site n → n.index < a.cells.size → I (World.buildMembers (some owner) n members a)
  | [], _, ha, _, _ => ha
  | (key, member) :: rest, a, ha, hn, hlt => by
      obtain ⟨hbuilt, hnodes⟩ := hk.build n member a ha hlt
      have hgrown := (continues_build (some n) member a).size
      apply hk.buildMembers owner n rest
      · apply hk.put _ n key _ hbuilt hn
        intro r hr
        have hrange := hnodes r hr
        exact ⟨Nat.lt_of_lt_of_le hlt hrange.1, hrange.2⟩
      · exact hn
      · rw [size_put]
        exact Nat.lt_of_lt_of_le hlt hgrown

end

/-- Storing the members of an object keeps the property, and the children are new. -/
theorem putMembers (hk : Kept I site) {n : NodeId} (hn : site n) (members : List (String × Json)) {a : World}
    (ha : I a) (hlt : n.index < a.cells.size) :
    I (World.putMembers n members a).2 ∧
      ∀ child ∈ (World.putMembers n members a).1, a.cells.size ≤ child.index ∧
        child.index < (World.putMembers n members a).2.cells.size := by
  induction members generalizing a with
  | nil =>
      refine ⟨ha, ?_⟩
      intro child hchild
      cases hchild
  | cons p rest ih =>
      obtain ⟨key, member⟩ := p
      by_cases hobject : ∃ members, member = .object members
      · -- An object becomes a child that is filled later.
        obtain ⟨members, rfl⟩ := hobject
        obtain ⟨hindex, hsize⟩ := index_createChild a n key
        have hgrown := (continues_putMembers n rest (a.createChild n key).2).size
        obtain ⟨hrest, hrange⟩ := ih (hk.createChild a n key ha hn hlt) (by omega)
        rw [putMembers_object]
        refine ⟨hrest, ?_⟩
        intro child hchild
        rcases List.mem_cons.mp hchild with rfl | hchild
        · exact ⟨Nat.le_of_eq hindex.symm, Nat.lt_of_lt_of_le (by omega) hgrown⟩
        · have hrange := hrange child hchild
          exact ⟨by omega, hrange.2⟩
      · -- Every other member is stored as it is built.
        have hvalue : ∀ members, member ≠ .object members :=
          fun members heq => hobject ⟨members, heq⟩
        obtain ⟨hbuilt, hnodes⟩ := hk.build n member a ha hlt
        have hgrown := (continues_build (some n) member a).size
        have hput := hk.put _ n key _ hbuilt hn fun r hr => by
          have hrange := hnodes r hr
          omega
        rw [putMembers_value a n key hvalue]
        have hlt' : n.index <
            ((a.build (some n) member).2.put n key (a.build (some n) member).1).cells.size := by
          rw [size_put]
          exact Nat.lt_of_lt_of_le hlt hgrown
        obtain ⟨hrest, hrange⟩ := ih hput hlt'
        refine ⟨hrest, ?_⟩
        intro child hchild
        have hrange := hrange child hchild
        rw [size_put] at hrange
        exact ⟨Nat.le_trans hgrown hrange.1, hrange.2⟩

theorem storeProperty (hk : Kept I site) {a : World} {n : NodeId} (ha : I a) (hn : site n) (value : String)
    (names : List (List Char)) : I (a.storeProperty n value names) := by
  induction names generalizing n with
  | nil => exact ha
  | cons name rest ih =>
      rw [World.storeProperty]
      split
      · -- The names lead on, to a node that this one refers to.
        rename_i next hfound
        apply ih
        apply hk.referred a n ha hn
        exact List.mem_flatMap.mpr
          ⟨(_, .node next), Entries.mem_of_get?_eq_some hfound, List.mem_cons_self⟩
      · exact hk.putText ha hn _ value

theorem flatten (hk : Kept I site) {a : World} {n : NodeId} (ha : I a) (hn : site n)
    (properties : List (String × String)) : I (a.flatten n properties) := by
  induction properties generalizing a with
  | nil => exact ha
  | cons p rest ih => exact ih (hk.storeProperty ha hn _ _)

end Kept

/-- Loading enables no templates and no scripts. -/
theorem kept_inert : Kept Inert fun _ => True where
  inert _ h := h
  held _ _ h := h
  loading _ _ h := h
  new _ _ _ _ := trivial
  referred _ _ _ _ _ _ := trivial
  createUnder _ owner h _ := inert_modifyCell (inert_create h owner) _ rfl
  createChild _ n key h _ _ := (inert_modifyCell (inert_create h n) _ rfl).put n key _
  put _ n key value h _ _ := h.put n key value
  mergeFrom _ n _ h _ _ := h.merge n _

/-- Loading into nodes that are new since `v` lets the world grow from `v`. -/
theorem kept_grows (v : World) : Kept v.Grows fun n => v.cells.size ≤ n.index where
  inert _ h := h.inert.1
  held _ nodes h := h.held nodes
  loading _ files h := h.loading files
  new _ _ h hn := Nat.le_trans h.grown hn
  referred _ n h hn r hr := Nat.le_trans hn (Nat.le_of_lt (h.references n hn r hr).1)
  createUnder _ _ h howner := h.createUnder howner
  createChild _ _ key h hn hlt := h.createChild hn hlt key
  put _ _ key _ h hn hvalue := h.put hn key hvalue
  mergeFrom _ _ _ h hn hitem := h.mergeFrom hn hitem

end World

end ScriptTree
