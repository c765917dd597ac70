import ScriptTree.Proofs.Load.Passage
import ScriptTree.Proofs.World.Forest

/-!
# Edits of a forest

A load builds nodes that are younger than their parents (`World.Branches`), and neither the merge nor
the insertion at its end puts an older node below a new one, so a load keeps a forest one
(`Forest.mergeLoaded`, `Forest.insertLoaded`). With the changes of single nodes these are all the
edits that a caller can make (`Edit`). Any sequence of edits keeps a forest one as long as no node is
put under its own descendants, and then every walk up from a node ends (`World.edited_forest`).
-/

set_option autoImplicit false

namespace ScriptTree

namespace World

variable {w w' v a u : World} {n m p item : NodeId} {key : String} {value : Value}

/-! ## Nodes of a load and their parents -/

/-- A link to a parent was there before the value was stored, or the value is the node. -/
theorem parent_put_cases (h : ((w.put n key value).cell m).parent = some p) :
    (w.cell m).parent = some p ∨ value = .node m ∧ p = n := by
  have hadopted : ((w.adopt n key value).cell m).parent = some p :=
    (reading_modifyCell Cell.parent rfl m).symm.trans h
  by_cases hvalue : value = .node m
  · subst hvalue
    rw [adopt] at hadopted
    split at hadopted
    · exact .inl hadopted
    · rw [cell_modifyCell] at hadopted
      split at hadopted
      · exact .inr ⟨rfl, (Option.some.inj hadopted).symm⟩
      · exact .inl hadopted
  · rw [cell_adopt_of_ne hvalue] at hadopted
    exact .inl hadopted

theorem parent_merge_cases {entries : List (String × Value)}
    (h : ((w.merge n entries).cell m).parent = some p) :
    (w.cell m).parent = some p ∨ (∃ q ∈ entries, q.2 = .node m) ∧ p = n := by
  induction entries generalizing w with
  | nil => exact .inl h
  | cons q rest ih =>
      have hlater : ∀ {x : Prop}, x ∨ (∃ q ∈ rest, q.2 = .node m) ∧ p = n →
          x ∨ (∃ r ∈ q :: rest, r.2 = .node m) ∧ p = n := by
        intro x hx
        exact hx.imp id fun ⟨⟨r, hr, hnode⟩, hp⟩ => ⟨⟨r, List.mem_cons_of_mem q hr, hnode⟩, hp⟩
      rw [merge_cons] at h
      split at h
      · exact hlater (ih h)
      · rcases ih h with hput | hrest
        · rcases parent_put_cases hput with hold | ⟨hnode, hp⟩
          · exact .inl hold
          · exact .inr ⟨⟨q, List.mem_cons_self, hnode⟩, hp⟩
        · exact hlater (.inr hrest)

/-- A load that started in `v` has come to `a`, and the nodes that were built since are younger than
their parents. -/
structure Branches (v a : World) : Prop where
  grows : v.Grows a
  parents : ∀ m : NodeId, v.cells.size ≤ m.index → ∀ p, (a.cell m).parent = some p →
    p.index < m.index

namespace Branches

theorem refl (hclosed : v.Closed) (hinert : v.Inert) : v.Branches v where
  grows := .refl hclosed hinert
  parents m hm p hp := by
    rw [cell_of_size_le hm] at hp
    cases hp

theorem create (h : v.Branches a) (engined : Bool) : ∀ m : NodeId, v.cells.size ≤ m.index →
    ∀ p, ((a.create engined).2.cell m).parent = some p → p.index < m.index := by
  intro m hm p hp
  rw [cell_create] at hp
  split at hp
  · cases hp
  · exact h.parents m hm p hp

theorem put (h : v.Branches a) (hn : v.cells.size ≤ n.index)
    (hvalue : ∀ r ∈ value.nodes, n.index < r.index ∧ r.index < a.cells.size) :
    v.Branches (a.put n key value) where
  grows := h.grows.put hn key hvalue
  parents m hm p hp := by
    rcases parent_put_cases hp with hold | ⟨rfl, rfl⟩
    · exact h.parents m hm p hold
    · exact (hvalue m List.mem_cons_self).1

end Branches

/-- Loading into nodes that are new since `v` builds nodes that are younger than their parents. -/
theorem kept_branches (v : World) : Kept v.Branches fun n => v.cells.size ≤ n.index where
  inert _ h := h.grows.inert.1
  held _ nodes h := ⟨h.grows.held nodes, h.parents⟩
  loading _ files h := ⟨h.grows.loading files, h.parents⟩
  new _ _ h hn := Nat.le_trans h.grows.grown hn
  referred _ n h hn r hr := Nat.le_trans hn (Nat.le_of_lt (h.grows.references n hn r hr).1)
  createUnder a owner h howner := by
    refine ⟨h.grows.createUnder howner, fun m hm p hp => ?_⟩
    rw [World.createUnder] at hp
    dsimp only at hp
    rw [World.setParent, cell_modifyCell] at hp
    split at hp
    · rename_i heq
      replace hp : (some owner).filter (· != (a.create (a.cell owner).engined).1) = some p := hp
      rw [heq.1, ← Option.some.inj (Option.filter_eq_some_iff.mp hp).1]
      exact howner
    · exact h.create _ m hm p hp
  createChild a n key h hn hlt := by
    refine ⟨h.grows.createChild hn hlt key, fun m hm p hp => ?_⟩
    rcases parent_put_cases hp with hold | ⟨hnode, rfl⟩
    · rw [parent_setName] at hold
      exact h.create _ m hm p hold
    · rw [← Value.node.inj hnode]
      exact hlt
  put _ _ _ _ h hn hvalue := h.put hn hvalue
  mergeFrom a n item h hn hitem := by
    refine ⟨h.grows.mergeFrom hn hitem, fun m hm p hp => ?_⟩
    rcases parent_merge_cases hp with hold | ⟨⟨q, hq, hnode⟩, rfl⟩
    · exact h.parents m hm p hold
    · have href : m ∈ references (a.cell item) := by
        refine List.mem_flatMap.mpr ⟨q, hq, ?_⟩
        rw [hnode]
        exact List.mem_cons_self
      have hlater := (h.grows.references item (Nat.le_trans hn (Nat.le_of_lt hitem)) m href).1
      exact Nat.lt_trans hitem hlater

/-! ## Loads into a forest -/

namespace Grows

variable (h : w.Grows a) (hc : w.Continues a)

include h hc

/-- What a load has built, before it is merged or stored. -/
theorem tame : w.Tame a where
  closed := (h.extends_of_continues hc).closed h.closed h.parents
  inert := h.inert.1
  links m p hm hp := by
    rwa [(h.extends_of_continues hc).parent?_eq h.closed hm] at hp

/-- The node that a load has built is merged into an older one. -/
theorem tame_merge (hn : n.index < w.cells.size) (hitem : w.cells.size ≤ item.index) :
    w.Tame (a.merge n (a.cell item).entries) := by
  have hkeys : ((a.cell item).entries.map Prod.fst).Nodup := h.keys item hitem
  have hentries : ∀ p ∈ (a.cell item).entries, ∀ r ∈ p.2.nodes,
      w.cells.size ≤ r.index ∧ r.index < a.cells.size := by
    intro p hp r hr
    have hrange := h.references item hitem r (List.mem_flatMap.mpr ⟨p, hp, hr⟩)
    exact ⟨Nat.le_trans hitem (Nat.le_of_lt hrange.1), hrange.2⟩
  refine ⟨h.closed_merge hc hn hkeys hentries, h.inert.1.merge n _, fun m p hm hp => ?_⟩
  rwa [(h.extends_merge hc hn hkeys hentries).parent?_eq h.closed hm] at hp

/-- The node that a load has built is stored in an older one. -/
theorem tame_put (hn : n.index < w.cells.size) (hitem : w.cells.size ≤ item.index)
    (hlt : item.index < a.cells.size) (key : String) :
    w.Tame ((a.setName item key).put n key (.node item)) := by
  have hgrown := h.grown
  have hn' : n.index < (a.setName item key).cells.size := by
    rw [World.setName, size_modifyCell]
    omega
  have hnamed : (a.setName item key).Closed := by
    have hbefore := (h.tame hc).closed
    exact hbefore.modifyCell (fun r => hbefore.references item r) (fun p => hbefore.parents item p)
  refine ⟨hnamed.put hn' key fun r hr => ?_, (inert_modifyCell h.inert.1 item rfl).put n key _,
    fun m p hm hp => ?_⟩
  · rw [List.mem_singleton.mp hr, World.setName, size_modifyCell]
    exact hlt
  · obtain ⟨hparent, halive⟩ := parent_of_parent? hp
    have hlink : (w.cell m).parent = some p := by
      rcases parent_put_cases hparent with hold | ⟨hnode, -⟩
      · rwa [← h.old m hm, ← parent_setName a item key]
      · rw [Value.node.inj hnode] at hitem
        omega
    refine parent?_of_parent hlink (alive_back ?_ ?_ (h.closed.parents m p hlink) halive)
    · intro x hx _
      have hput := continues_put (a.setName item key) n key (.node item)
      rw [((hc.trans (continues_setName a item key)).trans hput).holders_eq] at hx
      exact alive_of_mem_holders hx
    · -- What the insertion or the load refers to besides is new.
      intro x y href hy
      have hold : y ∈ World.references (a.cell x) := by
        by_cases hx : n = x
        · subst hx
          rw [World.references, cell_put_self hn'] at href
          obtain ⟨q, hq, hin⟩ := List.mem_flatMap.mp href
          rcases Entries.mem_insert hq with rfl | hq
          · rw [List.mem_singleton.mp hin] at hy
            omega
          · rw [entries_setName] at hq
            exact List.mem_flatMap.mpr ⟨q, hq, hin⟩
        · rwa [World.references, entries_put_of_ne hx, entries_setName] at href
      by_cases hx : x.index < w.cells.size
      · rw [h.old x hx] at hold
        exact .inr hold
      · have hlater := (h.references x (Nat.not_lt.mp hx) y hold).1
        omega

end Grows

namespace Forest

variable (h : w.Forest)

include h

/-- A forest stays one when the nodes that come are younger than their parents. -/
theorem grow (htame : w.Tame w')
    (hnew : ∀ m p, w.cells.size ≤ m.index → (w'.cell m).parent = some p → p.index < m.index) :
    w'.Forest :=
  ⟨htame.closed, htame.inert, h.acyclic.grow h.closed htame.links hnew⟩

theorem built (hbuilt : w.Branches a) (hc : w.Continues a) : a.Forest :=
  h.grow (hbuilt.grows.tame hc) fun m p hm hp => hbuilt.parents m hm p hp

/-- A load that builds a node and then merges it, wherever it ends. -/
theorem mergeLoaded {F : Halt → Prop} {load : Action NodeId}
    (hload : Action.Keeps w.Branches F load w fun item u =>
      w.cells.size ≤ item.index ∧ item.index < u.cells.size)
    (hn : n.index < w.cells.size) : ((load >>= fun item => n.mergeFrom item) w).2.Forest := by
  obtain ⟨hkept, hcontinues, hvalue, -⟩ := hload
  rw [Action.bind_apply]
  rcases hrun : load w with ⟨item | cause | _, a⟩
  all_goals rw [hrun] at hkept hcontinues hvalue
  · refine h.grow (hkept.grows.tame_merge hcontinues hn (hvalue item rfl).1) fun m p hm hp => ?_
    rcases parent_merge_cases hp with hold | ⟨-, rfl⟩
    · exact hkept.parents m hm p hold
    · exact Nat.lt_of_lt_of_le hn hm
  · exact h.built hkept hcontinues
  · exact h.built hkept hcontinues

/-- A load that builds a node and then stores it, wherever it ends. -/
theorem insertLoaded {F : Halt → Prop} {load : Action NodeId}
    (hload : Action.Keeps w.Branches F load w fun item u =>
      w.cells.size ≤ item.index ∧ item.index < u.cells.size)
    (hn : n.index < w.cells.size) (key : String) :
    ((load >>= fun item => Action.change fun w =>
      (w.setName item key).put n key (.node item)) w).2.Forest := by
  obtain ⟨hkept, hcontinues, hvalue, -⟩ := hload
  rw [Action.bind_apply]
  rcases hrun : load w with ⟨item | cause | _, a⟩
  all_goals rw [hrun] at hkept hcontinues hvalue
  · obtain ⟨hitem, hlt⟩ := hvalue item rfl
    refine h.grow (hkept.grows.tame_put hcontinues hn hitem hlt key) fun m p hm hp => ?_
    rcases parent_put_cases hp with hold | ⟨-, rfl⟩
    · rw [parent_setName] at hold
      exact hkept.parents m hm p hold
    · exact Nat.lt_of_lt_of_le hn hm
  · exact h.built hkept hcontinues
  · exact h.built hkept hcontinues

variable (lang : Language)

theorem appendJson (hn : n.index < w.cells.size) (text : String) :
    (n.appendJson (NodeId.introspect lang) text w).2.Forest :=
  h.mergeLoaded (NodeId.keeps_newChild_of_upholds (kept_branches w)
    (NodeId.upholds_introspect lang (kept_branches w)) (.refl h.closed h.inert) hn text) hn

theorem insertJson (hn : n.index < w.cells.size) (key text : String) :
    (n.insertJson (NodeId.introspect lang) key text w).2.Forest :=
  h.insertLoaded (NodeId.keeps_newChild_of_upholds (kept_branches w)
    (NodeId.upholds_introspect lang (kept_branches w)) (.refl h.closed h.inert) hn text) hn key

theorem appendXml (hn : n.index < w.cells.size) (source text : String) :
    (Document.append (NodeId.introspect lang) lang n source text w).2.Forest := by
  rw [Document.append_eq]
  exact h.mergeLoaded (NodeId.keeps_build_of_upholds lang (kept_branches w)
    (NodeId.upholds_introspect lang (kept_branches w)) (.refl h.closed h.inert) hn source text) hn

end Forest

end World

/-! ## Edits -/

/-- A change of a tree that a caller can make. -/
inductive Edit where
  | put (n : NodeId) (key : String) (value : Value)
  | putAll (n : NodeId) (entries : List (String × Value))
  | set (n : NodeId) (key : String) (value : Value)
  | merge (n : NodeId) (entries : List (String × Value))
  | putStatic (n : NodeId) (key : String) (value : Value)
  | remove (n : NodeId) (key : String)
  | clear (n : NodeId)
  | setName (n : NodeId) (name : String)
  | setParent (n : NodeId) (parent : Option NodeId)
  | flatten (n : NodeId) (properties : List (String × String))
  | appendJson (n : NodeId) (text : String)
  | appendXml (n : NodeId) (source text : String)
  | insertJson (n : NodeId) (key text : String)

namespace Edit

/-- The world after an edit, whether it succeeds or not. -/
def perform (lang : Language) (w : World) : Edit → World
  | put n key value => (n.put key value w).2
  | putAll n entries => w.putAll n entries
  | set n key value => (n.set key value w).2
  | merge n entries => w.merge n entries
  | putStatic n key value => (n.putStatic key value w).2
  | remove n key => (n.remove key w).2
  | clear n => w.clear n
  | setName n name => w.setName n name
  | setParent n parent => w.setParent n parent
  | flatten n properties => w.flatten n properties
  | appendJson n text => (n.appendJson (NodeId.introspect lang) text w).2
  | appendXml n source text => (Document.append (NodeId.introspect lang) lang n source text w).2
  | insertJson n key text => (n.insertJson (NodeId.introspect lang) key text w).2

/-- The nodes that a caller has at hand for an edit. -/
def nodes : Edit → List NodeId
  | put n _ value | set n _ value | putStatic n _ value => n :: value.nodes
  | putAll n entries | merge n entries => n :: entries.flatMap fun p => p.2.nodes
  | setParent n parent => n :: parent.toList
  | remove n _ | clear n | setName n _ | flatten n _ | appendJson n _ | appendXml n _ _
  | insertJson n _ _ => [n]

/-- The edit puts no node under one of its proper descendants and gives it none for a parent. -/
def Sound (w : World) : Edit → Prop
  | put n _ value => w.MayPut n value
  | putAll n entries => w.MayPutAll n entries
  | merge n entries => w.MayMerge n entries
  | putStatic n _ value => (w.cell n).engined = true → w.MayPut w.static value
  | setParent n parent => ∀ p ∈ parent, ¬ w.Descends p n
  | _ => True

end Edit

namespace World

variable {w w' : World}

/-- A caller has made an edit with nodes that it holds, or holds other nodes that are alive. -/
inductive Edited (lang : Language) (w : World) : World → Prop
  | edit (e : Edit) : (∀ m ∈ e.nodes, m ∈ w.holders) → e.Sound w → Edited lang w (e.perform lang w)
  | keep (nodes : List NodeId) : (∀ m ∈ nodes, w.alive m = true) →
      Edited lang w { w with held := nodes }

/-- One edit keeps a forest one. -/
theorem Forest.edited {lang : Language} (h : w.Forest) (hedited : w.Edited lang w') :
    w'.Forest := by
  cases hedited with
  | keep nodes hnodes => exact h.keep hnodes
  | edit e hheld hsound =>
      have hn : ∀ {n}, n ∈ e.nodes → n.index < w.cells.size :=
        fun hmem => h.closed.holders _ (hheld _ hmem)
      have halive : ∀ {m}, m ∈ e.nodes → w.alive m = true :=
        fun hmem => alive_of_mem_holders (hheld _ hmem)
      cases e with
      | put n key value =>
          exact h.put (hn List.mem_cons_self) (fun r hr => halive (List.mem_cons_of_mem n hr)) hsound
      | putAll n entries =>
          refine h.putAll (hn List.mem_cons_self) (fun p hp r hr => hheld r ?_) hsound
          exact List.mem_cons_of_mem n (List.mem_flatMap.mpr ⟨p, hp, hr⟩)
      | set n key value => exact h.set fun r hr => halive (List.mem_cons_of_mem n hr)
      | merge n entries =>
          refine h.merge (hn List.mem_cons_self) (fun p hp r hr => hheld r ?_) hsound
          exact List.mem_cons_of_mem n (List.mem_flatMap.mpr ⟨p, hp, hr⟩)
      | putStatic n key value =>
          show (NodeId.putStatic n key value w).2.Forest
          rw [NodeId.putStatic, Action.update]
          dsimp only
          split
          · rename_i hengined
            exact h.put (h.closed.holders _ List.mem_cons_self)
              (fun r hr => halive (List.mem_cons_of_mem n hr)) (hsound hengined)
          · exact h
      | remove n key => exact h.remove key
      | clear n => exact h.clear
      | setName n name => exact h.setName name
      | setParent n parent =>
          refine h.setParent (fun p hp => hn (List.mem_cons_of_mem n ?_)) hsound
          exact Option.mem_toList.mpr hp
      | flatten n properties => exact h.flatten (hn List.mem_cons_self) properties
      | appendJson n text => exact h.appendJson lang (hn List.mem_cons_self) text
      | appendXml n source text => exact h.appendXml lang (hn List.mem_cons_self) source text
      | insertJson n key text => exact h.insertJson lang (hn List.mem_cons_self) key text

/-- Any sequence of edits keeps a forest one. -/
theorem Forest.edits {lang : Language} (h : w.Forest)
    (hrun : Relation.ReflTransGen (Edited lang) w w') : w'.Forest := by
  induction hrun with
  | refl => exact h
  | tail _ hedited ih => exact ih.edited hedited

/-- After any sequence of edits that put no node under its own proper descendants, no node is a
proper descendant of itself. A node may be put into itself, and keeps its parent. The walk from any
node over its parents ends at one without a parent, which is the root of the node; the path is made
up of the names on the way, without that of the root; a name has the value of the nearest node on
the way that holds it; and the directory is the nearest one on the way. -/
theorem edited_forest (lang : Language) (h : w.Forest)
    (hrun : Relation.ReflTransGen (Edited lang) w w') :
    w'.Acyclic ∧
      (∀ n key, w'.MayPut n (.node n) ∧
        ((w'.put n key (.node n)).cell n).parent = (w'.cell n).parent) ∧
      ∀ n, ∃ chain, w'.Climbs n chain ∧
        chain.getLast? = some (w'.root n) ∧ w'.parent? (w'.root n) = none ∧
        w'.path n =
          ".".intercalate (chain.dropLast.reverse.map fun m => (w'.cell m).name.getD "") ∧
        (∀ key, n.resolve lang key w' = (.done (chain.findSome? fun m => w'.getRaw m key), w')) ∧
        n.directory lang w' = (.done ((chain.findSome? w'.ownDirectory?).getD "."), w') := by
  obtain ⟨hclosed, hinert, hacyclic⟩ := h.edits hrun
  refine ⟨hacyclic, fun n key => ⟨?_, w'.parent_put_self n key _⟩, fun n => ?_⟩
  · rintro _ ⟨⟩
    exact hacyclic n
  · obtain ⟨chain, hclimb⟩ := hacyclic.exists_climb n
    have hroot := hclimb.getLast?_eq hclosed
    exact ⟨chain, hclimb, hroot, hclimb.parent?_of_getLast? hroot, hclimb.path_eq hclosed,
      hclimb.resolve_eq lang hclosed hinert, hclimb.directory_eq lang hclosed hinert⟩

/-- A world with two nodes that a caller holds, and without files. -/
def pair : World :=
  (((World.initial ⟨false, false, 0⟩ ⟨.directory [], []⟩).create true).2.create true).2.hold
    [⟨1⟩, ⟨2⟩]

theorem forest_pair : pair.Forest := by
  have hclosed := ((closed_initial ⟨false, false, 0⟩ ⟨.directory [], []⟩).create true).create true
  refine ⟨⟨hclosed.references, hclosed.parents, by decide⟩, inert_of_engine rfl rfl,
    acyclic_of_parent_lt ?_⟩
  rintro ⟨_ | _ | _ | i⟩ p hp
  · cases hp
  · cases hp
  · cases hp
  · have hcell : pair.cell ⟨i + 3⟩ = default := cell_of_size_le (Nat.le_add_left 3 i)
    rw [hcell] at hp
    cases hp

/-- The second node is put under the first, and a node of a literal under the second. -/
theorem edited_forest_pair : ∃ w',
    Relation.ReflTransGen (Edited (.ofFuel 0)) pair w' ∧ w'.Acyclic ∧ w'.path ⟨3⟩ = "a.b" ∧
      ∃ chain, w'.Climbs ⟨3⟩ chain ∧ chain.getLast? = some ⟨1⟩ := by
  have hput : Edited (.ofFuel 0) pair _ := .edit (.put ⟨1⟩ "a" (.node ⟨2⟩)) (by decide)
    fun child _ => not_descends_of_parent?_eq_none (by decide +kernel)
  have hinsert : Edited (.ofFuel 0) _ _ :=
    .edit (w := (Edit.put ⟨1⟩ "a" (.node ⟨2⟩)).perform (.ofFuel 0) pair)
      (.insertJson ⟨2⟩ "b" "\x7b\x7d") (by decide) trivial
  have hrun := (Relation.ReflTransGen.single hput).tail hinsert
  obtain ⟨hacyclic, -, hwalks⟩ := edited_forest (.ofFuel 0) forest_pair hrun
  obtain ⟨chain, hclimb, hlast, -⟩ := hwalks ⟨3⟩
  refine ⟨_, hrun, hacyclic, by decide +kernel, chain, hclimb, hlast.trans ?_⟩
  decide +kernel

end World

end ScriptTree
