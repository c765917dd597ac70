import ScriptTree.Proofs.Load.Growth

/-!
# Links of the nodes of a literal

Loading a literal without instructions links every node that it builds to the one node that holds
it, under a key or in a list (`World.Linked`). Values are built first and stored then, so a node of
a value is linked before it is held (`Linked.Places`); a child is stored without a link and adopted
(`Fits`). `NodeId.newChild_linked` says so of the whole literal.
-/

set_option autoImplicit false

namespace ScriptTree

/-! ## Literals without instructions -/

/-- The keys of a node that are read when its instructions are carried out. -/
def NodeId.instructionKeys : List String :=
  ["$json", "$xml", "$properties", "$properties-xml", "$onload"]

namespace Json

mutual

/-- No object of the value, however deep, has a key that is an instruction. -/
def uninstructed : Json → Bool
  | .array items => allUninstructed items
  | .object members => membersUninstructed members
  | _ => true

/-- No object of the values has a key that is an instruction. -/
def allUninstructed : List Json → Bool
  | [] => true
  | item :: rest => item.uninstructed && allUninstructed rest

/-- No key of the members is an instruction, and none of an object inside them is. -/
def membersUninstructed : List (String × Json) → Bool
  | [] => true
  | (key, member) :: rest =>
      !NodeId.instructionKeys.contains key && member.uninstructed && membersUninstructed rest

end

theorem allUninstructed_cons {item : Json} {rest : List Json}
    (h : allUninstructed (item :: rest) = true) :
    item.uninstructed = true ∧ allUninstructed rest = true := by
  rw [allUninstructed, Bool.and_eq_true] at h
  exact h

theorem membersUninstructed_cons {key : String} {member : Json} {rest : List (String × Json)}
    (h : membersUninstructed ((key, member) :: rest) = true) :
    key ∉ NodeId.instructionKeys ∧ member.uninstructed = true ∧
      membersUninstructed rest = true := by
  rw [membersUninstructed, Bool.and_eq_true, Bool.and_eq_true] at h
  obtain ⟨⟨hkey, hmember⟩, hrest⟩ := h
  refine ⟨?_, hmember, hrest⟩
  intro hmem
  rw [List.contains_iff_mem.mpr hmem] at hkey
  cases hkey

end Json

/-- An action that is done is done while nodes are held for it. -/
theorem Action.holding_of_done {α : Type} {nodes : List NodeId} {p : Action α} {a b : World}
    {value : α} (h : p (a.hold nodes) = (.done value, b)) :
    Action.holding nodes p a = (.done value, { b with held := a.held }) := by
  have hheld : Action.holding nodes p a =
      ((p (a.hold nodes)).1, { (p (a.hold nodes)).2 with held := a.held }) := rfl
  rw [hheld, h]

/-- Carrying out the instructions of a node that has none does nothing. -/
theorem NodeId.introspect_of_bare (lang : Language) {n : NodeId} {a : World}
    (hbare : ∀ key ∈ instructionKeys, a.getRaw n key = none) :
    NodeId.introspect lang n a = (.done (), a) := by
  have heach : ∀ key take, key ∈ instructionKeys → n.eachFile lang key take a = (.done (), a) := by
    intro key take hkey
    rw [eachFile, Action.bind_apply, getText, Action.bind_apply, NodeId.get,
      Action.inspect_bind_apply, hbare key hkey]
    rfl
  rw [introspect, Action.inspect_bind_apply]
  show n.introspectWith _ lang a = _
  -- No file is listed, and there are no steps to run.
  rw [introspectWith, Action.bind_apply, heach _ _ (by decide)]
  show (n.eachFile lang "$xml" _ >>= _) a = _
  rw [Action.bind_apply, heach _ _ (by decide)]
  show (n.eachFile lang "$properties" _ >>= _) a = _
  rw [Action.bind_apply, heach _ _ (by decide)]
  show (n.eachFile lang "$properties-xml" _ >>= _) a = _
  rw [Action.bind_apply, heach _ _ (by decide)]
  show (Action.inspect _ >>= _) a = _
  rw [Action.inspect_bind_apply, hbare "$onload" (by decide)]
  rfl

namespace World

/-! ## Nodes linked to their holders -/

/-- A load that started in `w` has come to `a`. The nodes of `w` are as they were; a node that was
built since holds nodes built after it, each of them once, which are linked to it, and has no
instructions. -/
structure Linked (w a : World) : Prop where
  size : w.cells.size ≤ a.cells.size
  old : ∀ m : NodeId, m.index < w.cells.size → a.cell m = w.cell m
  distinct : ∀ m : NodeId, w.cells.size ≤ m.index → (references (a.cell m)).Nodup
  references : ∀ m : NodeId, w.cells.size ≤ m.index → ∀ r ∈ references (a.cell m),
    m.index < r.index ∧ r.index < a.cells.size ∧ (a.cell r).parent = some m
  keys : ∀ m : NodeId, w.cells.size ≤ m.index → (a.cell m).entries.keys.Nodup
  bare : ∀ m : NodeId, w.cells.size ≤ m.index → ∀ key ∈ NodeId.instructionKeys,
    a.getRaw m key = none

/-- A value may be stored in a node: its nodes were built after the node, which does not hold them
yet, and are linked to it, or the value is itself a node that has no link yet. -/
structure Fits (a : World) (n : NodeId) (value : Value) : Prop where
  distinct : value.nodes.Nodup
  unheld : ∀ r ∈ value.nodes, r ∉ references (a.cell n)
  nodes : ∀ r ∈ value.nodes, n.index < r.index ∧ r.index < a.cells.size ∧
    ((a.cell r).parent = some n ∨ value = .node r ∧ (a.cell r).parent = none)

/-- The nodes of the entries stay distinct when a value is stored that refers to other ones. -/
theorem nodup_nodes_insert {entries : Entries Value} {value : Value} (key : String)
    (hentries : (entries.flatMap fun p => p.2.nodes).Nodup) (hvalue : value.nodes.Nodup)
    (hother : ∀ r ∈ value.nodes, r ∉ entries.flatMap fun p => p.2.nodes) :
    ((entries.insert key value).flatMap fun p => p.2.nodes).Nodup := by
  induction entries with
  | nil =>
      rw [Entries.insert, List.flatMap_cons, List.flatMap_nil, List.append_nil]
      exact hvalue
  | cons q rest ih =>
      obtain ⟨k, found⟩ := q
      rw [List.flatMap_cons, List.nodup_append] at hentries
      obtain ⟨hfound, hrest, hapart⟩ := hentries
      have hrest' : ∀ r ∈ value.nodes, r ∉ rest.flatMap fun p => p.2.nodes :=
        fun r hr hmem => hother r hr (List.mem_append_right _ hmem)
      rw [Entries.insert]
      split
      · rw [List.flatMap_cons, List.nodup_append]
        refine ⟨hvalue, hrest, ?_⟩
        rintro r hr _ hmem rfl
        exact hrest' r hr hmem
      · rw [List.flatMap_cons, List.nodup_append]
        refine ⟨hfound, ih hrest hrest', ?_⟩
        rintro r hr _ hmem rfl
        obtain ⟨p, hp, hin⟩ := List.mem_flatMap.mp hmem
        rcases Entries.mem_insert hp with rfl | hold
        · exact hother r hin (List.mem_append_left _ hr)
        · exact hapart r hr r (List.mem_flatMap.mpr ⟨p, hold, hin⟩) rfl

namespace Linked

variable {w a : World} {n : NodeId}

theorem refl (w : World) : w.Linked w where
  size := Nat.le_refl _
  old _ _ := rfl
  references m hm r hr := by
    rw [cell_of_size_le hm] at hr
    cases hr
  distinct m hm := by
    rw [cell_of_size_le hm]
    exact List.nodup_nil
  keys m hm := by
    rw [cell_of_size_le hm]
    exact List.nodup_nil
  bare m hm key _ := by
    rw [getRaw, cell_of_size_le hm]
    rfl

/-- What the run holds does not count. -/
theorem held (h : w.Linked a) (nodes : List NodeId) : w.Linked { a with held := nodes } :=
  ⟨h.size, h.old, h.distinct, h.references, h.keys, h.bare⟩

/-- A node without entries is created. -/
theorem fresh (h : w.Linked a) (engined : Bool) : w.Linked (a.create engined).2 := by
  have hsize : (a.create engined).2.cells.size = a.cells.size + 1 := Array.size_push _
  have hle := h.size
  constructor
  case size => omega
  case old =>
    intro m hm
    rw [cell_create, if_neg (by omega)]
    exact h.old m hm
  case references =>
    intro m hm r hr
    rw [cell_create] at hr
    split at hr
    · cases hr
    · obtain ⟨hlt, hrange, hparent⟩ := h.references m hm r hr
      refine ⟨hlt, by omega, ?_⟩
      rw [cell_create, if_neg (by omega)]
      exact hparent
  case distinct =>
    intro m hm
    rw [cell_create]
    split
    · exact List.nodup_nil
    · exact h.distinct m hm
  case keys =>
    intro m hm
    rw [cell_create]
    split
    · exact List.nodup_nil
    · exact h.keys m hm
  case bare =>
    intro m hm key hkey
    rw [getRaw, cell_create]
    split
    · rfl
    · exact h.bare m hm key hkey

/-- A change of the link or the name of a new node that nothing refers to. -/
theorem relabel (h : w.Linked a) (hn : w.cells.size ≤ n.index)
    (hunheld : ∀ m : NodeId, w.cells.size ≤ m.index → n ∉ World.references (a.cell m))
    {f : Cell → Cell} (hf : ∀ c, (f c).entries = c.entries) : w.Linked (a.modifyCell n f) := by
  have hentries : ∀ m, ((a.modifyCell n f).cell m).entries = (a.cell m).entries := by
    intro m
    rw [cell_modifyCell]
    split
    · rename_i heq
      rw [hf, heq.1]
    · rfl
  constructor
  case size => rw [size_modifyCell]; exact h.size
  case old =>
    intro m hm
    rw [cell_modifyCell, if_neg]
    · exact h.old m hm
    · rintro ⟨rfl, -⟩
      omega
  case references =>
    intro m hm r hr
    rw [World.references, hentries] at hr
    obtain ⟨hlt, hrange, hparent⟩ := h.references m hm r hr
    rw [size_modifyCell, cell_modifyCell, if_neg]
    · exact ⟨hlt, hrange, hparent⟩
    · rintro ⟨rfl, -⟩
      exact hunheld m hm hr
  case distinct =>
    intro m hm
    rw [World.references, hentries]
    exact h.distinct m hm
  case keys =>
    intro m hm
    rw [hentries]
    exact h.keys m hm
  case bare =>
    intro m hm key hkey
    rw [getRaw, hentries]
    exact h.bare m hm key hkey

/-- A value that fits is stored under a key that is no instruction. -/
theorem put (h : w.Linked a) (hn : w.cells.size ≤ n.index) (hlt : n.index < a.cells.size)
    {key : String} (hkey : key ∉ NodeId.instructionKeys) {value : Value} (hfits : a.Fits n value) :
    w.Linked (a.put n key value) := by
  -- A node that a new node refers to keeps its link: only a node without one is adopted.
  have hlink : ∀ m : NodeId, w.cells.size ≤ m.index → ∀ r, n ≠ r → (a.cell r).parent = some m →
      ((a.put n key value).cell r).parent = some m := by
    intro m _ r hr hparent
    by_cases hvalue : value = .node r
    · subst hvalue
      obtain ⟨-, hrange, hfree | ⟨-, hnone⟩⟩ := hfits.nodes r List.mem_cons_self
      · rw [parent_put_node hr hrange, ← hfree, hparent]
      · rw [hnone] at hparent
        cases hparent
    · rw [cell_put_of_ne hr hvalue]
      exact hparent
  constructor
  case size => rw [size_put]; exact h.size
  case old =>
    intro m hm
    rw [cell_put_of_ne]
    · exact h.old m hm
    · rintro rfl
      omega
    · rintro rfl
      have hrange := (hfits.nodes m List.mem_cons_self).1
      omega
  case references =>
    intro m hm r hr
    rw [size_put]
    by_cases hmn : n = m
    · subst hmn
      rw [World.references, cell_put_self hlt] at hr
      obtain ⟨p, hp, hin⟩ := List.mem_flatMap.mp hr
      rcases Entries.mem_insert hp with rfl | hold
      · obtain ⟨hafter, hrange, hparent⟩ := hfits.nodes r hin
        have hne : n ≠ r := by
          rintro rfl
          omega
        refine ⟨hafter, hrange, ?_⟩
        rcases hparent with hparent | ⟨rfl, -⟩
        · exact hlink n hn r hne hparent
        · exact parent_put_node hne hrange
      · obtain ⟨hafter, hrange, hparent⟩ :=
          h.references n hn r (List.mem_flatMap.mpr ⟨p, hold, hin⟩)
        have hne : n ≠ r := by
          rintro rfl
          omega
        exact ⟨hafter, hrange, hlink n hn r hne hparent⟩
    · rw [World.references, entries_put_of_ne hmn] at hr
      obtain ⟨hafter, hrange, hparent⟩ := h.references m hm r hr
      refine ⟨hafter, hrange, ?_⟩
      by_cases hne : n = r
      · subst hne
        rw [cell_put_self hlt]
        exact hparent
      · exact hlink m hm r hne hparent
  case distinct =>
    intro m hm
    by_cases hmn : n = m
    · subst hmn
      rw [cell_put_self hlt]
      exact nodup_nodes_insert key (h.distinct n hn) hfits.distinct hfits.unheld
    · rw [World.references, entries_put_of_ne hmn]
      exact h.distinct m hm
  case keys =>
    intro m hm
    by_cases hmn : n = m
    · subst hmn
      rw [cell_put_self hlt]
      exact Entries.nodup_keys_insert (h.keys n hm) key value
    · rw [entries_put_of_ne hmn]
      exact h.keys m hm
  case bare =>
    intro m hm other hother
    by_cases hmn : n = m
    · subst hmn
      rw [getRaw_put_self a key other value hlt, if_neg]
      · exact h.bare n hm other hother
      · intro heq
        exact hkey (eq_of_beq heq ▸ hother)
    · rw [getRaw_put_of_ne a key other value hmn]
      exact h.bare m hm other hother

/-- Nothing refers to a node that is yet to come. -/
theorem not_referred (h : w.Linked a) {m r : NodeId} (hm : w.cells.size ≤ m.index)
    (hr : a.cells.size ≤ r.index) : r ∉ World.references (a.cell m) := by
  intro hmem
  have hrange := (h.references m hm r hmem).2.1
  omega

/-- Nothing refers to the node that has just been created. -/
theorem not_referred_created (h : w.Linked a) (engined : Bool) {m : NodeId}
    (hm : w.cells.size ≤ m.index) :
    (a.create engined).1 ∉ World.references ((a.create engined).2.cell m) := by
  intro hmem
  rw [cell_create] at hmem
  split at hmem
  · cases hmem
  · exact h.not_referred hm (Nat.le_refl _) hmem

/-! ## Building for a literal -/

/-- What building for a node has led to: the nodes that were there are as they were, and those of
the value are new and linked to the node. -/
structure Places (w a : World) (owner : NodeId) (nodes : List NodeId) (u : World) : Prop where
  linked : w.Linked u
  size : a.cells.size ≤ u.cells.size
  frame : ∀ m : NodeId, m.index < a.cells.size → u.cell m = a.cell m
  distinct : nodes.Nodup
  nodes : ∀ r ∈ nodes, a.cells.size ≤ r.index ∧ r.index < u.cells.size ∧
    (u.cell r).parent = some owner

/-- A node is created for another one and linked to it. -/
theorem createUnder (h : w.Linked a) {owner : NodeId} (howner : owner.index < a.cells.size) :
    Places w a owner [(a.createUnder (some owner)).1] (a.createUnder (some owner)).2 := by
  obtain ⟨hindex, hsize⟩ := index_createUnder a owner
  have hcreated := h.fresh (a.cell owner).engined
  have hlast : (a.create (a.cell owner).engined).2.cells.size = a.cells.size + 1 :=
    Array.size_push _
  have hlinked : w.Linked (a.createUnder (some owner)).2 := by
    apply hcreated.relabel h.size
    · exact fun m hm => h.not_referred_created _ hm
    · exact fun c => rfl
  refine ⟨hlinked, by omega, ?_, List.nodup_singleton _, ?_⟩
  · intro m hm
    show ((a.create _).2.modifyCell _ _).cell m = _
    rw [cell_modifyCell, if_neg, cell_create, if_neg (by omega)]
    rintro ⟨rfl, -⟩
    exact absurd hm (Nat.lt_irrefl _)
  · intro r hr
    rcases List.mem_singleton.mp hr with rfl
    refine ⟨Nat.le_of_eq hindex.symm, by omega, ?_⟩
    have hrange : (a.create (a.cell owner).engined).1.index <
        (a.create (a.cell owner).engined).2.cells.size := by
      rw [hlast]
      exact Nat.lt_succ_self _
    have hne : owner ≠ (a.create (a.cell owner).engined).1 := by
      intro heq
      rw [heq] at howner
      exact Nat.lt_irrefl _ howner
    have hlink : (some owner).filter (· != (a.create (a.cell owner).engined).1) = some owner := by
      rw [Option.filter_some, if_pos (bne_iff_ne.mpr hne)]
    exact (congrArg Cell.parent (cell_modifyCell_self _ _ hrange)).trans hlink

/-- A value that was built for a node is stored in it. -/
theorem put_placed (ha : w.Linked a) (hn : w.cells.size ≤ n.index) (hlt : n.index < a.cells.size)
    {key : String} (hkey : key ∉ NodeId.instructionKeys) {value : Value} {u : World}
    (h : Places w a n value.nodes u) :
    w.Linked (u.put n key value) ∧ (∀ m : NodeId, m.index < a.cells.size → m ≠ n →
      (u.put n key value).cell m = a.cell m) ∧
      ((u.put n key value).cell n).parent = (a.cell n).parent := by
  have hlt' := Nat.lt_of_lt_of_le hlt h.size
  refine ⟨?_, ?_, ?_⟩
  · apply h.linked.put hn hlt' hkey
    refine ⟨h.distinct, ?_, ?_⟩
    · intro r hr
      rw [h.frame n hlt]
      exact ha.not_referred hn (h.nodes r hr).1
    · intro r hr
      obtain ⟨hafter, hrange, hparent⟩ := h.nodes r hr
      exact ⟨Nat.lt_of_lt_of_le hlt hafter, hrange, .inl hparent⟩
  · intro m hm hne
    rw [cell_put_of_ne hne.symm, h.frame m hm]
    rintro rfl
    have hafter := (h.nodes m List.mem_cons_self).1
    omega
  · rw [cell_put_self hlt', ← h.frame n hlt]

mutual

theorem build (owner : NodeId) : ∀ (json : Json) (a : World), w.Linked a →
    owner.index < a.cells.size → json.uninstructed = true →
    Places w a owner (a.build (some owner) json).1.nodes (a.build (some owner) json).2
  | .null, a, h, _, _ | .bool _, a, h, _, _ | .number _, a, h, _, _ | .text _, a, h, _, _ =>
      ⟨h, Nat.le_refl _, fun _ _ => rfl, List.nodup_nil, fun _ hr => (List.not_mem_nil hr).elim⟩
  | .array items, a, h, howner, hbare => by
      rw [Json.uninstructed] at hbare
      exact buildAll owner items a h howner hbare
  | .object members, a, h, howner, hbare => by
      rw [Json.uninstructed] at hbare
      obtain ⟨hindex, hsize⟩ := index_createUnder a owner
      have hcreated := h.createUnder howner
      have hnode := hcreated.nodes _ List.mem_cons_self
      have hnew := Nat.le_trans h.size hnode.1
      obtain ⟨hlinked, hframe, hparent⟩ := buildMembers owner (a.createUnder (some owner)).1 members
        (a.createUnder (some owner)).2 hcreated.linked hnew hnode.2.1 hbare
      have hgrown := (continues_buildMembers (some owner) (a.createUnder (some owner)).1 members
        (a.createUnder (some owner)).2).size
      rw [build_object]
      refine ⟨hlinked, Nat.le_trans (by omega) hgrown, ?_, List.nodup_singleton _, ?_⟩
      · intro m hm
        rw [hframe m (by omega), hcreated.frame m hm]
        rintro rfl
        omega
      · intro r hr
        rcases List.mem_singleton.mp hr with rfl
        exact ⟨hnode.1, Nat.lt_of_lt_of_le hnode.2.1 hgrown, hparent.trans hnode.2.2⟩

theorem buildAll (owner : NodeId) : ∀ (items : List Json) (a : World), w.Linked a →
    owner.index < a.cells.size → Json.allUninstructed items = true →
    Places w a owner (Value.allNodes (World.buildAll (some owner) items a).1)
      (World.buildAll (some owner) items a).2
  | [], a, h, _, _ => ⟨h, Nat.le_refl _, fun _ _ => rfl, List.nodup_nil, fun _ hr => (List.not_mem_nil hr).elim⟩
  | item :: rest, a, h, howner, hbare => by
      obtain ⟨hitem, hothers⟩ := Json.allUninstructed_cons hbare
      have hfirst := build owner item a h howner hitem
      have hrest := buildAll owner rest (a.build (some owner) item).2 hfirst.linked
        (Nat.lt_of_lt_of_le howner hfirst.size) hothers
      refine ⟨hrest.linked, Nat.le_trans hfirst.size hrest.size, ?_, ?_, ?_⟩
      · intro m hm
        have hlater := hrest.frame m (Nat.lt_of_lt_of_le hm hfirst.size)
        exact hlater.trans (hfirst.frame m hm)
      · -- The nodes of the later items are built later.
        refine List.nodup_append.mpr ⟨hfirst.distinct, hrest.distinct, ?_⟩
        rintro r hr _ hmem rfl
        have hrange := (hfirst.nodes r hr).2.1
        have hafter := (hrest.nodes r hmem).1
        omega
      · intro r hr
        rcases List.mem_append.mp hr with hr | hr
        · obtain ⟨hafter, hrange, hparent⟩ := hfirst.nodes r hr
          have hlater := hrest.frame r hrange
          refine ⟨hafter, Nat.lt_of_lt_of_le hrange hrest.size, ?_⟩
          exact (congrArg Cell.parent hlater).trans hparent
        · obtain ⟨hafter, hrange, hparent⟩ := hrest.nodes r hr
          exact ⟨Nat.le_trans hfirst.size hafter, hrange, hparent⟩

theorem buildMembers (owner n : NodeId) : ∀ (members : List (String × Json)) (a : World),
    w.Linked a → w.cells.size ≤ n.index → n.index < a.cells.size →
    Json.membersUninstructed members = true →
    w.Linked (World.buildMembers (some owner) n members a) ∧
      (∀ m : NodeId, m.index < a.cells.size → m ≠ n →
        (World.buildMembers (some owner) n members a).cell m = a.cell m) ∧
      ((World.buildMembers (some owner) n members a).cell n).parent = (a.cell n).parent
  | [], _, h, _, _, _ => ⟨h, fun _ _ _ => rfl, rfl⟩
  | (key, member) :: rest, a, h, hn, hlt, hbare => by
      obtain ⟨hkey, hmember, hothers⟩ := Json.membersUninstructed_cons hbare
      have hbuilt := build n member a h hlt hmember
      obtain ⟨hput, hframe, hparent⟩ := put_placed h hn hlt hkey hbuilt
      have hsize : a.cells.size ≤ ((a.build (some n) member).2.put n key
          (a.build (some n) member).1).cells.size := by
        rw [size_put]
        exact hbuilt.size
      obtain ⟨hrest, hframe', hparent'⟩ := buildMembers owner n rest _ hput hn
        (Nat.lt_of_lt_of_le hlt hsize) hothers
      refine ⟨hrest, ?_, hparent'.trans hparent⟩
      intro m hm hne
      exact (hframe' m (Nat.lt_of_lt_of_le hm hsize) hne).trans (hframe m hm hne)

end

/-- An empty child is created in a node, under a key that is no instruction. -/
theorem createChild (h : w.Linked a) (hn : w.cells.size ≤ n.index) (hlt : n.index < a.cells.size)
    {key : String} (hkey : key ∉ NodeId.instructionKeys) : w.Linked (a.createChild n key).2 := by
  have hsize : (a.create (a.cell n).engined).2.cells.size = a.cells.size + 1 := Array.size_push _
  have hnamed : w.Linked ((a.create (a.cell n).engined).2.setName
      (a.create (a.cell n).engined).1 key) := by
    apply (h.fresh (a.cell n).engined).relabel h.size
    · exact fun m hm => h.not_referred_created _ hm
    · exact fun c => rfl
  apply hnamed.put hn
  · show n.index < ((a.create _).2.modifyCell _ _).cells.size
    rw [size_modifyCell]
    omega
  · exact hkey
  · -- The child has no link yet.
    refine ⟨List.nodup_singleton _, ?_, ?_⟩
    · intro r hr
      rcases List.mem_singleton.mp hr with rfl
      show _ ∉ World.references (((a.create _).2.modifyCell _ _).cell n)
      rw [cell_modifyCell, if_neg]
      · exact h.not_referred_created _ hn
      · rintro ⟨heq, -⟩
        rw [heq] at hlt
        exact Nat.lt_irrefl _ hlt
    · intro r hr
      rcases List.mem_singleton.mp hr with rfl
      refine ⟨hlt, ?_, .inr ⟨rfl, ?_⟩⟩
      · show a.cells.size < ((a.create _).2.modifyCell _ _).cells.size
        rw [size_modifyCell]
        omega
      · have hnone : ((a.create (a.cell n).engined).2.cell
            (a.create (a.cell n).engined).1).parent = none := by
          rw [cell_create_self]
        have hrange : (a.create (a.cell n).engined).1.index <
            (a.create (a.cell n).engined).2.cells.size := by
          rw [hsize]
          exact Nat.lt_succ_self _
        exact (congrArg Cell.parent (cell_modifyCell_self _ _ hrange)).trans hnone

theorem putMembers (hn : w.cells.size ≤ n.index) (members : List (String × Json)) (h : w.Linked a)
    (hlt : n.index < a.cells.size) (hbare : Json.membersUninstructed members = true) :
    w.Linked (World.putMembers n members a).2 ∧ ∀ child ∈ (World.putMembers n members a).1,
      a.cells.size ≤ child.index ∧ child.index < (World.putMembers n members a).2.cells.size := by
  induction members generalizing a with
  | nil =>
      refine ⟨h, ?_⟩
      intro child hchild
      cases hchild
  | cons p rest ih =>
      obtain ⟨key, member⟩ := p
      obtain ⟨hkey, hmember, hothers⟩ := Json.membersUninstructed_cons hbare
      by_cases hobject : ∃ members, member = .object members
      · -- An object becomes a child that is filled later.
        obtain ⟨members, rfl⟩ := hobject
        obtain ⟨hindex, hsize⟩ := index_createChild a n key
        have hgrown := (continues_putMembers n rest (a.createChild n key).2).size
        obtain ⟨hrest, hrange⟩ := ih (h.createChild hn hlt hkey) (by omega) hothers
        rw [putMembers_object]
        refine ⟨hrest, ?_⟩
        intro child hchild
        rcases List.mem_cons.mp hchild with rfl | hchild
        · exact ⟨Nat.le_of_eq hindex.symm, Nat.lt_of_lt_of_le (by omega) hgrown⟩
        · have hrange := hrange child hchild
          exact ⟨by omega, hrange.2⟩
      · have hvalue : ∀ members, member ≠ .object members :=
          fun members heq => hobject ⟨members, heq⟩
        have hbuilt := build n member a h hlt hmember
        obtain ⟨hput, -, -⟩ := put_placed h hn hlt hkey hbuilt
        have hsize : a.cells.size ≤ ((a.build (some n) member).2.put n key
            (a.build (some n) member).1).cells.size := by
          rw [size_put]
          exact hbuilt.size
        rw [putMembers_value a n key hvalue]
        obtain ⟨hrest, hrange⟩ := ih hput (Nat.lt_of_lt_of_le hlt hsize) hothers
        refine ⟨hrest, ?_⟩
        intro child hchild
        exact ⟨Nat.le_trans hsize (hrange child hchild).1, (hrange child hchild).2⟩

end Linked

end World

namespace NodeId

open World (Linked)

variable {w : World} (lang : Language)

mutual

/-- A node is filled with a literal without instructions: all nodes are linked, and nothing else has
changed. -/
theorem materialize_linked (n : NodeId) : ∀ (json : Json) (a : World), w.Linked a →
    w.cells.size ≤ n.index → n.index < a.cells.size → json.uninstructed = true →
    ∃ u, n.materialize (introspect lang) json a = (.done (), u) ∧ w.Linked u ∧ a.Continues u
  | .object members, a, h, hn, hlt, hbare => by
      rw [Json.uninstructed] at hbare
      obtain ⟨hput, hrange⟩ := Linked.putMembers hn members h hlt hbare
      have hc := World.continues_putMembers n members a
      have hnew : ∀ child ∈ (World.putMembers n members a).1, w.cells.size ≤ child.index ∧
          child.index < (World.putMembers n members a).2.cells.size := by
        intro child hchild
        exact ⟨Nat.le_trans h.size (hrange child hchild).1, (hrange child hchild).2⟩
      obtain ⟨u, hrun, hu, hcu⟩ := materializeAll_linked _ members _ hput hnew hbare
      refine ⟨u, ?_, hu, hc.trans hcu⟩
      rw [materialize, Action.bind_apply]
      show (NodeId.materializeAll _ _ members >>= _) _ = _
      rw [Action.bind_apply, hrun]
      -- The node has no instructions that could be carried out.
      exact introspect_of_bare lang (hu.bare n hn)
  | .null, a, h, _, _, _ | .bool _, a, h, _, _, _ | .number _, a, h, _, _, _
  | .text _, a, h, _, _, _ | .array _, a, h, _, _, _ => ⟨a, rfl, h, World.Continues.refl a⟩

theorem materializeAll_linked : ∀ (children : List NodeId) (members : List (String × Json))
    (a : World), w.Linked a →
    (∀ c ∈ children, w.cells.size ≤ c.index ∧ c.index < a.cells.size) →
    Json.membersUninstructed members = true →
    ∃ u, materializeAll (introspect lang) children members a = (.done (), u) ∧ w.Linked u ∧
      a.Continues u
  | _, [], a, h, _, _ => ⟨a, rfl, h, World.Continues.refl a⟩
  | child :: others, (_, .object members) :: rest, a, h, hchildren, hbare => by
      obtain ⟨-, hmember, hothers⟩ := Json.membersUninstructed_cons hbare
      obtain ⟨hnew, hlt⟩ := hchildren child List.mem_cons_self
      obtain ⟨b, hfill, hb, hcb⟩ := materialize_linked child (.object members)
        (a.hold (child :: others)) (h.held _) hnew hlt hmember
      have hc : a.Continues { b with held := a.held } := hcb.held_restored
      obtain ⟨u, hrun, hu, hcu⟩ := materializeAll_linked others rest { b with held := a.held }
        (hb.held _) (fun c hc' => ⟨(hchildren c (List.mem_cons_of_mem _ hc')).1,
          Nat.lt_of_lt_of_le (hchildren c (List.mem_cons_of_mem _ hc')).2 hc.size⟩) hothers
      refine ⟨u, ?_, hu, hc.trans hcu⟩
      show (Action.holding _ _ >>= _) a = _
      rw [Action.bind_apply, Action.holding_of_done hfill]
      exact hrun
  | [], (_, .object _) :: rest, a, h, hchildren, hbare =>
      materializeAll_linked [] rest a h hchildren (Json.membersUninstructed_cons hbare).2.2
  | children, (_, .null) :: rest, a, h, hchildren, hbare
  | children, (_, .bool _) :: rest, a, h, hchildren, hbare
  | children, (_, .number _) :: rest, a, h, hchildren, hbare
  | children, (_, .text _) :: rest, a, h, hchildren, hbare
  | children, (_, .array _) :: rest, a, h, hchildren, hbare =>
      materializeAll_linked children rest a h hchildren (Json.membersUninstructed_cons hbare).2.2

end

/-- The node of a literal without instructions is the first that was built, linked to the node that
it is built for. -/
theorem newChild_linked {n item : NodeId} {text : String} {a : World}
    (hn : n.index < w.cells.size)
    (hbare : ∀ json, Json.readLenient? text = some json → json.uninstructed = true)
    (hdone : n.newChild (introspect lang) text w = (.done item, a)) :
    w.Linked a ∧ w.Continues a ∧ item.index = w.cells.size := by
  rw [newChild] at hdone
  rcases hread : Json.readLenient? text with _ | json
  · rw [hread] at hdone
    cases (Prod.mk.inj hdone).1
  · rw [hread] at hdone
    by_cases hobject : ∃ members, json = .object members
    · obtain ⟨members, rfl⟩ := hobject
      obtain ⟨hindex, hsize⟩ := World.index_createUnder w n
      have hcreated := (Linked.refl w).createUnder hn
      have hnode := hcreated.nodes _ List.mem_cons_self
      obtain ⟨u, hrun, hu, hcu⟩ := materialize_linked lang (w.createUnder (some n)).1
        (.object members) ((w.createUnder (some n)).2.hold [(w.createUnder (some n)).1])
        (hcreated.linked.held _) hnode.1 hnode.2.1 (hbare _ hread)
      have hc := (World.continues_createUnder w (some n)).trans hcu.held_restored
      change (Action.holding [(w.createUnder (some n)).1]
        ((w.createUnder (some n)).1.materialize (introspect lang) (.object members)) >>=
          fun _ => pure (w.createUnder (some n)).1) (w.createUnder (some n)).2 = _ at hdone
      rw [Action.bind_apply, Action.holding_of_done hrun] at hdone
      obtain ⟨hvalue, rfl⟩ := Prod.mk.inj hdone
      rw [← Outcome.done.inj hvalue]
      exact ⟨hu.held _, hc, hindex⟩
    · cases json with
      | object members => exact absurd ⟨members, rfl⟩ hobject
      | _ => cases (Prod.mk.inj hdone).1

end NodeId

end ScriptTree
