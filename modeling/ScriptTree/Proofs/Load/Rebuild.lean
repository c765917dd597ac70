import ScriptTree.Proofs.Run.Orderly
import ScriptTree.Proofs.World.Twin

/-!
# Building in twin worlds

The parts of a load that build and fill nodes: nodes of a JSON value with their members
(`Twin.build`), the members of an object with its children (`Twin.putMembers`), flat properties
(`Twin.flatten`) and the entries of another node (`Twin.merge`). In twin worlds they build the same
up to the numbers of nodes, and every node that they put into another was built after it.
-/

set_option autoImplicit false

namespace ScriptTree

/-- The second value is the first with the counterparts of its nodes, which are no older than the
given number and among as many as there are. -/
def Value.Moved (v w : World) (least size : Nat) (x y : Value) : Prop :=
  (∀ r ∈ x.nodes, least ≤ r.index ∧ r.index < size) ∧ y = x.rename (NodeId.moved v w)

namespace Value

variable {v w : World} {least size : Nat}

theorem Moved.mono {least' size' : Nat} {x y : Value} (h : x.Moved v w least size y)
    (hleast : least' ≤ least) (hsize : size ≤ size') : x.Moved v w least' size' y := by
  refine ⟨fun r hr => ?_, h.2⟩
  have hrange := h.1 r hr
  omega

/-- Nothing moves in a value without nodes. -/
theorem moved_self {x : Value} (hnodes : x.nodes = []) (hrename : x.rename (NodeId.moved v w) = x) :
    x.Moved v w least size x := by
  refine ⟨fun r hr => ?_, hrename.symm⟩
  rw [hnodes] at hr
  cases hr

theorem moved_text (s : String) : (Value.text s).Moved v w least size (.text s) :=
  moved_self rfl rfl

theorem moved_node {n : NodeId} (hleast : least ≤ n.index) (hlt : n.index < size) :
    (Value.node n).Moved v w least size (.node (n.moved v w)) := by
  refine ⟨fun r hr => ?_, rfl⟩
  obtain rfl := List.mem_singleton.mp hr
  exact ⟨hleast, hlt⟩

end Value

namespace World

theorem build_object (w : World) (owner : Option NodeId) (members : List (String × Json)) :
    w.build owner (.object members) =
      (.node (w.createUnder owner).1,
        buildMembers owner (w.createUnder owner).1 members (w.createUnder owner).2) := rfl

/-- A fresh child of a node, named after its key. -/
def createChild (w : World) (n : NodeId) (key : String) : NodeId × World :=
  let (child, w) := w.create (w.cell n).engined
  (child, (w.setName child key).put n key (.node child))

theorem putMembers_object (w : World) (n : NodeId) (key : String)
    (members rest : List (String × Json)) :
    putMembers n ((key, .object members) :: rest) w =
      ((w.createChild n key).1 :: (putMembers n rest (w.createChild n key).2).1,
        (putMembers n rest (w.createChild n key).2).2) := rfl

theorem putMembers_value (w : World) (n : NodeId) (key : String) {member : Json}
    (hmember : ∀ members, member ≠ .object members) (rest : List (String × Json)) :
    putMembers n ((key, member) :: rest) w =
      putMembers n rest ((w.build (some n) member).2.put n key (w.build (some n) member).1) := by
  cases member with
  | object members => exact absurd rfl (hmember members)
  | _ => rfl

end World

namespace World.Twin

variable {v w a b : World}

theorem putMoved (h : Twin v w a b) {n : NodeId} (hn : v.cells.size ≤ n.index) (key : String)
    {value value' : Value} (hvalue : value.Moved v w (n.index + 1) a.cells.size value') :
    Twin v w (a.put n key value) (b.put (n.moved v w) key value') := by
  obtain ⟨hnodes, rfl⟩ := hvalue
  exact h.put hn key fun r hr => ⟨Nat.lt_of_succ_le (hnodes r hr).1, (hnodes r hr).2⟩

/-- Texts are stored in a built node. -/
theorem putAll (h : Twin v w a b) {n : NodeId} (hn : v.cells.size ≤ n.index)
    (texts : List (String × String)) :
    Twin v w (a.putAll n (texts.map fun p => (p.1, .text p.2)))
      (b.putAll (n.moved v w) (texts.map fun p => (p.1, .text p.2))) := by
  induction texts generalizing a b with
  | nil => exact h
  | cons p rest ih => exact ih (h.putMoved hn p.1 (Value.moved_text p.2))

theorem storeProperty (h : Twin v w a b) {n : NodeId} (hn : v.cells.size ≤ n.index)
    (value : String) (names : List (List Char)) :
    Twin v w (a.storeProperty n value names) (b.storeProperty (n.moved v w) value names) := by
  induction names generalizing n with
  | nil => exact h
  | cons name rest ih =>
      rw [World.storeProperty, World.storeProperty, h.getRaw hn]
      have hput := h.putMoved hn (String.ofList (Text.join ['.'] (name :: rest)))
        (Value.moved_text value)
      cases hfound : a.getRaw n (String.ofList name) with
      | none => exact hput
      | some found =>
          cases found with
          | node next =>
              -- The names lead on, to a node that was built later still.
              have hnext := h.nodes_of_getRaw hn hfound next List.mem_cons_self
              exact ih (Nat.le_trans hn (Nat.le_of_lt hnext.1))
          | _ => exact hput

theorem flatten (h : Twin v w a b) {n : NodeId} (hn : v.cells.size ≤ n.index)
    (properties : List (String × String)) :
    Twin v w (a.flatten n properties) (b.flatten (n.moved v w) properties) := by
  induction properties generalizing a b with
  | nil => exact h
  | cons p rest ih => exact ih (h.storeProperty hn _ _)

/-- The entries are merged into a node that was built before the nodes in them. -/
theorem merge (h : Twin v w a b) {n : NodeId} (hn : v.cells.size ≤ n.index)
    (entries : List (String × Value))
    (hentries : ∀ p ∈ entries, ∀ r ∈ p.2.nodes, n.index < r.index ∧ r.index < a.cells.size) :
    Twin v w (a.merge n entries)
      (b.merge (n.moved v w) (Entries.mapValues (Value.rename (NodeId.moved v w)) entries)) := by
  induction entries generalizing a b with
  | nil => exact h
  | cons p rest ih =>
      have hrest : ∀ q ∈ rest, ∀ r ∈ q.2.nodes, n.index < r.index ∧ r.index < a.cells.size :=
        fun q hq => hentries q (List.mem_cons_of_mem _ hq)
      rw [Entries.mapValues, List.map_cons]
      rw [World.merge, World.merge, List.foldl_cons, List.foldl_cons, h.containsKey hn]
      by_cases hskip : (NodeId.isDirectiveKey p.1 || a.containsKey n p.1) = true
      · rw [if_pos hskip, if_pos hskip]
        exact ih h hrest
      · rw [if_neg hskip, if_neg hskip]
        refine ih (h.put hn p.1 (hentries p List.mem_cons_self)) ?_
        rw [size_put]
        exact hrest

/-- One built node is merged into another that was built before it. -/
theorem mergeFrom (h : Twin v w a b) {n item : NodeId} (hn : v.cells.size ≤ n.index)
    (hitem : n.index < item.index) :
    Twin v w (a.merge n (a.cell item).entries)
      (b.merge (n.moved v w) (b.cell (item.moved v w)).entries) := by
  have hle : v.cells.size ≤ item.index := by omega
  rw [h.built item hle]
  refine h.merge hn (a.cell item).entries ?_
  intro p hp r hr
  have hrange := h.references item hle r (List.mem_flatMap.mpr ⟨p, hp, hr⟩)
  omega

/-- A node is created with an owner. -/
theorem createUnder (h : Twin v w a b) {owner : NodeId} (howner : owner.index < a.cells.size) :
    (a.createUnder (some owner)).1.index = a.cells.size ∧
      (a.createUnder (some owner)).2.cells.size = a.cells.size + 1 ∧
      (b.createUnder (some (owner.moved v w))).1 = (a.createUnder (some owner)).1.moved v w ∧
      Twin v w (a.createUnder (some owner)).2 (b.createUnder (some (owner.moved v w))).2 := by
  obtain ⟨hnew, htwin⟩ := h.create owner
  have hsize : (a.create (a.cell owner).engined).2.cells.size = a.cells.size + 1 :=
    Array.size_push _
  have hlinked := htwin.setParent (m := (a.create (a.cell owner).engined).1) h.grown
    (p := owner) (by omega)
  rw [← hnew] at hlinked
  exact ⟨rfl, (size_modifyCell _ _ _).trans hsize, hnew, hlinked⟩

/-- A named child is created in a built node. -/
theorem createChild (h : Twin v w a b) {n : NodeId} (hn : v.cells.size ≤ n.index)
    (hlt : n.index < a.cells.size) (key : String) :
    (a.createChild n key).1.index = a.cells.size ∧
      (a.createChild n key).2.cells.size = a.cells.size + 1 ∧
      (b.createChild (n.moved v w) key).1 = (a.createChild n key).1.moved v w ∧
      Twin v w (a.createChild n key).2 (b.createChild (n.moved v w) key).2 := by
  obtain ⟨hnew, htwin⟩ := h.create n
  have hnamed := htwin.setName (m := (a.create (a.cell n).engined).1) h.grown key
  have hsize : ((a.create (a.cell n).engined).2.setName (a.create (a.cell n).engined).1
      key).cells.size = a.cells.size + 1 :=
    (size_modifyCell _ _ _).trans (Array.size_push _)
  have hchild : (Value.node (a.create (a.cell n).engined).1).Moved v w (n.index + 1) _ _ :=
    Value.moved_node hlt (Nat.lt_of_lt_of_eq (Nat.lt_succ_self _) hsize.symm)
  have hput := hnamed.putMoved hn key hchild
  rw [← hnew] at hput
  exact ⟨rfl, (size_put _ _ _ _).trans hsize, hnew, hput⟩

mutual

/-- The value of a JSON value is the same in both runs, and its nodes are new. -/
theorem build (owner : NodeId) : ∀ (json : Json) (a b : World), Twin v w a b →
    owner.index < a.cells.size →
    Twin v w (a.build (some owner) json).2 (b.build (some (owner.moved v w)) json).2 ∧
      (a.build (some owner) json).1.Moved v w a.cells.size
        (a.build (some owner) json).2.cells.size (b.build (some (owner.moved v w)) json).1
  | .null, _, _, h, _ | .bool _, _, _, h, _ | .number _, _, _, h, _ | .text _, _, _, h, _ =>
      ⟨h, Value.moved_self rfl rfl⟩
  | .array items, a, b, h, howner => by
      obtain ⟨htwin, hnodes, hvalues⟩ := buildAll owner items a b h howner
      exact ⟨htwin, hnodes, congrArg Value.list hvalues⟩
  | .object members, a, b, h, howner => by
      obtain ⟨hindex, hsize, hnew, htwin⟩ := h.createUnder howner
      have hmembers := buildMembers owner (a.createUnder (some owner)).1 members _ _ htwin
        (hindex ▸ h.grown) (by omega)
      have hgrown := (continues_buildMembers (some owner) (a.createUnder (some owner)).1 members
        (a.createUnder (some owner)).2).size
      rw [build_object, build_object, hnew]
      have hlt := Nat.lt_of_lt_of_le (Nat.lt_of_lt_of_eq (Nat.lt_succ_self _) hsize.symm) hgrown
      exact ⟨hmembers, Value.moved_node (Nat.le_of_eq hindex.symm) (hindex ▸ hlt)⟩

theorem buildAll (owner : NodeId) : ∀ (items : List Json) (a b : World), Twin v w a b →
    owner.index < a.cells.size →
    Twin v w (World.buildAll (some owner) items a).2
        (World.buildAll (some (owner.moved v w)) items b).2 ∧
      (∀ r ∈ Value.allNodes (World.buildAll (some owner) items a).1, a.cells.size ≤ r.index ∧
        r.index < (World.buildAll (some owner) items a).2.cells.size) ∧
      (World.buildAll (some (owner.moved v w)) items b).1 =
        Value.renameAll (NodeId.moved v w) (World.buildAll (some owner) items a).1
  | [], _, _, h, _ => ⟨h, fun _ hr => (List.not_mem_nil hr).elim, rfl⟩
  | item :: rest, a, b, h, howner => by
      obtain ⟨hfirst, hnodes, hvalue⟩ := build owner item a b h howner
      have hgrown := (continues_build (some owner) item a).size
      obtain ⟨hrest, hmore, hvalues⟩ :=
        buildAll owner rest _ _ hfirst (Nat.lt_of_lt_of_le howner hgrown)
      have hgrown' := (continues_buildAll (some owner) rest (a.build (some owner) item).2).size
      refine ⟨hrest, ?_, ?_⟩
      · intro r hr
        obtain hr | hr := List.mem_append.mp hr
        · exact ⟨(hnodes r hr).1, Nat.lt_of_lt_of_le (hnodes r hr).2 hgrown'⟩
        · exact ⟨Nat.le_trans hgrown (hmore r hr).1, (hmore r hr).2⟩
      · exact congr (congrArg List.cons hvalue) hvalues

theorem buildMembers (owner n : NodeId) : ∀ (members : List (String × Json)) (a b : World),
    Twin v w a b → v.cells.size ≤ n.index → n.index < a.cells.size →
    Twin v w (World.buildMembers (some owner) n members a)
      (World.buildMembers (some (owner.moved v w)) (n.moved v w) members b)
  | [], _, _, h, _, _ => h
  | (key, member) :: rest, a, b, h, hn, hlt => by
      obtain ⟨htwin, hvalue⟩ := build n member a b h hlt
      have hgrown := (continues_build (some n) member a).size
      have hput := htwin.putMoved hn key (hvalue.mono hlt (Nat.le_refl _))
      refine buildMembers owner n rest _ _ hput hn ?_
      rw [size_put]
      exact Nat.lt_of_lt_of_le hlt hgrown

end

/-- The members of an object are stored in a built node, with the same children in both runs. -/
theorem putMembers {n : NodeId} (hn : v.cells.size ≤ n.index) (members : List (String × Json))
    (h : Twin v w a b) (hlt : n.index < a.cells.size) :
    Twin v w (World.putMembers n members a).2 (World.putMembers (n.moved v w) members b).2 ∧
      (∀ child ∈ (World.putMembers n members a).1, v.cells.size ≤ child.index ∧
        child.index < (World.putMembers n members a).2.cells.size) ∧
      (World.putMembers (n.moved v w) members b).1 =
        (World.putMembers n members a).1.map (NodeId.moved v w) := by
  induction members generalizing a b with
  | nil => exact ⟨h, fun _ hchild => (List.not_mem_nil hchild).elim, rfl⟩
  | cons p rest ih =>
      obtain ⟨key, member⟩ := p
      by_cases hobject : ∃ members, member = .object members
      · -- An object becomes a child that is filled later.
        obtain ⟨members, rfl⟩ := hobject
        obtain ⟨hindex, hsize, hnew, htwin⟩ := h.createChild hn hlt key
        have hgrown := (continues_putMembers n rest (a.createChild n key).2).size
        obtain ⟨hrest, hrange, hchildren⟩ := ih htwin (by omega)
        rw [putMembers_object, putMembers_object, hnew]
        refine ⟨hrest, ?_, congrArg _ hchildren⟩
        intro child hchild
        obtain rfl | hchild := List.mem_cons.mp hchild
        · have hold : a.cells.size < (a.createChild n key).2.cells.size := by omega
          exact ⟨hindex ▸ h.grown, hindex ▸ Nat.lt_of_lt_of_le hold hgrown⟩
        · exact hrange child hchild
      · -- Every other member is stored as it is built.
        have hvalue : ∀ members, member ≠ .object members :=
          fun members heq => hobject ⟨members, heq⟩
        obtain ⟨htwin, hmoved⟩ := build n member a b h hlt
        have hgrown := (continues_build (some n) member a).size
        have hput := htwin.putMoved hn key (hmoved.mono hlt (Nat.le_refl _))
        rw [putMembers_value a n key hvalue, putMembers_value b _ key hvalue]
        refine ih hput ?_
        rw [size_put]
        exact Nat.lt_of_lt_of_le hlt hgrown

end World.Twin

end ScriptTree
