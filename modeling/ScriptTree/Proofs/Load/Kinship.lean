import ScriptTree.Proofs.Load.Linkage
import ScriptTree.Proofs.World.Below

/-!
# Parents of the nodes of a literal

The merge at the end of a load moves the entries of the literal's own node to the receiving node.
Nodes that are entries there get it for a parent; nodes in a list keep the link to the literal's
node, which nothing holds any more (`World.Joined`). So the nodes below an entry that is a node have
their holders for parents, and names of the receiver are read from them, and the nodes in a list of
the receiver have no parent (`NodeId.appendJson_links`).
-/

set_option autoImplicit false

namespace ScriptTree

/-! ## The literal in its place -/

/-- The first new node, that of a literal, has been merged into the node `n`. What it held belongs to
both: entries that are nodes are linked to `n`, and what else is in the entries is not. -/
structure World.Joined (w w' : World) (n item : NodeId) : Prop where
  first : item.index = w.cells.size
  size : w.cells.size ≤ w'.cells.size
  holders : w'.holders = w.holders
  kept : ∀ x y, y ∈ references (w.cell x) → y ∈ references (w'.cell x)
  old : ∀ x : NodeId, x.index < w.cells.size → ∀ y ∈ references (w'.cell x),
    y.index < w.cells.size ∨ x = n ∧ item.index < y.index ∧ y.index < w'.cells.size ∧
      ((w'.cell y).parent = some n ∨ (w'.cell y).parent = some item)
  new : ∀ x : NodeId, w.cells.size ≤ x.index → ∀ y ∈ references (w'.cell x),
    x.index < y.index ∧ y.index < w'.cells.size ∧ (x ≠ item → (w'.cell y).parent = some x)
  entry : ∀ key child, (key, .node child) ∈ (w'.cell n).entries →
    (key, .node child) ∉ (w.cell n).entries →
    item.index < child.index ∧ child.index < w'.cells.size ∧ (w'.cell child).parent = some n
  listed : ∀ key value, (key, value) ∈ (w'.cell n).entries → (key, value) ∉ (w.cell n).entries →
    ∀ m ∈ value.nodes, value ≠ .node m → (w'.cell m).parent = some item

namespace World

variable {w a w' : World} {n item child m : NodeId}

/-- A node is held by one entry only when the nodes of the entries are distinct. -/
theorem eq_of_mem_nodes {entries : Entries Value}
    (hdistinct : (entries.flatMap fun p => p.2.nodes).Nodup) {p q : String × Value}
    (hp : p ∈ entries) (hq : q ∈ entries) (hmp : m ∈ p.2.nodes) (hmq : m ∈ q.2.nodes) : p = q := by
  induction entries with
  | nil => cases hp
  | cons first rest ih =>
      rw [List.flatMap_cons, List.nodup_append] at hdistinct
      obtain ⟨-, hrest, hapart⟩ := hdistinct
      rcases List.mem_cons.mp hp with rfl | hp'
      · rcases List.mem_cons.mp hq with rfl | hq'
        · rfl
        · exact absurd rfl (hapart m hmp m (List.mem_flatMap.mpr ⟨q, hq', hmq⟩))
      · rcases List.mem_cons.mp hq with rfl | hq'
        · exact absurd rfl (hapart m hmq m (List.mem_flatMap.mpr ⟨p, hp', hmp⟩))
        · exact ih hrest hp' hq'

/-- The node of a literal is merged into the one that it was built for. -/
theorem Linked.joined (h : w.Linked a) (hc : w.Continues a) (hclosed : w.Closed)
    (hn : n.index < w.cells.size) (hitem : item.index = w.cells.size) :
    w.Joined (a.merge n (a.cell item).entries) n item := by
  have hnew : w.cells.size ≤ item.index := Nat.le_of_eq hitem.symm
  have hlt : n.index < a.cells.size := Nat.lt_of_lt_of_le hn h.size
  have hkeys : ((a.cell item).entries.map Prod.fst).Nodup := h.keys item hnew
  have hmerged := hc.trans (continues_merge a n (a.cell item).entries)
  have hself := cell_merge_self hlt hkeys
  -- What is merged was held by the node of the literal, and is linked to it.
  have hvalues : ∀ p ∈ (a.cell item).entries, ∀ y ∈ p.2.nodes,
      item.index < y.index ∧ y.index < a.cells.size ∧ (a.cell y).parent = some item := by
    intro p hp y hy
    exact h.references item hnew y (List.mem_flatMap.mpr ⟨p, hp, hy⟩)
  have hother : ∀ x : NodeId, x.index < w.cells.size → x ≠ n →
      (a.merge n (a.cell item).entries).cell x = w.cell x := by
    intro x hx hne
    rw [cell_merge_of_ne hne.symm, h.old x hx]
    intro p hp heq
    have hrange := (hvalues p hp x (by rw [heq]; exact List.mem_cons_self)).1
    omega
  constructor
  case first => exact hitem
  case size => exact hmerged.size
  case holders => rw [World.holders, World.holders, hmerged.static, hmerged.frames, hmerged.held]
  case kept =>
    intro x y hy
    by_cases hx : x.index < w.cells.size
    · by_cases hxn : x = n
      · subst hxn
        obtain ⟨p, hp, hin⟩ := List.mem_flatMap.mp hy
        rw [hself, h.old x hx]
        exact List.mem_flatMap.mpr ⟨p, List.mem_append_left _ hp, hin⟩
      · rw [hother x hx hxn]
        exact hy
    · rw [cell_of_size_le (Nat.not_lt.mp hx)] at hy
      cases hy
  case old =>
    intro x hx y hy
    by_cases hxn : x = n
    · subst hxn
      rw [hself, h.old x hx] at hy
      obtain ⟨p, hp, hin⟩ := List.mem_flatMap.mp hy
      rcases List.mem_append.mp hp with hp | hp
      · exact .inl (hclosed.references x y (List.mem_flatMap.mpr ⟨p, hp, hin⟩))
      · obtain ⟨hafter, hrange, hparent⟩ := hvalues p (List.mem_filter.mp hp).1 y hin
        have hne : x ≠ y := by
          rintro rfl
          omega
        refine .inr ⟨rfl, hafter, ?_, ?_⟩
        · rw [size_merge]
          exact hrange
        · rcases parent_merge_of_ne (w := a) hne (a.cell item).entries with hsame | hadopted
          · exact .inr (hsame.trans hparent)
          · exact .inl hadopted
    · rw [hother x hx hxn] at hy
      exact .inl (hclosed.references x y hy)
  case new =>
    intro x hx y hy
    have hne : n ≠ x := by
      rintro rfl
      omega
    rw [World.references, entries_merge_of_ne hne] at hy
    obtain ⟨hafter, hrange, hparent⟩ := h.references x hx y hy
    refine ⟨hafter, ?_, ?_⟩
    · rw [size_merge]
      exact hrange
    · -- The node is no entry of the literal itself, or it would be linked to the literal's node.
      intro hxitem
      rw [cell_merge_of_ne]
      · exact hparent
      · rintro rfl
        omega
      · intro p hp heq
        have hlink := (hvalues p hp y (by rw [heq]; exact List.mem_cons_self)).2.2
        exact hxitem (Option.some.inj (hparent.symm.trans hlink))
  case entry =>
    intro key child hmem hold
    rw [hself, h.old n hn] at hmem
    rcases List.mem_append.mp hmem with hmem | hmem
    · exact absurd hmem hold
    · obtain ⟨hafter, hrange, -⟩ :=
        hvalues _ (List.mem_filter.mp hmem).1 child List.mem_cons_self
      have hne : n ≠ child := by
        rintro rfl
        omega
      refine ⟨hafter, ?_, parent_merge_node hne hlt hrange hkeys hmem⟩
      rw [size_merge]
      exact hrange
  case listed =>
    intro key value hmem hold m hm hvalue
    rw [hself, h.old n hn] at hmem
    rcases List.mem_append.mp hmem with hmem | hmem
    · exact absurd hmem hold
    · have hentry := (List.mem_filter.mp hmem).1
      obtain ⟨hafter, -, hparent⟩ := hvalues _ hentry m hm
      rw [cell_merge_of_ne]
      · exact hparent
      · rintro rfl
        omega
      · -- The node would be in two entries of the literal.
        intro p hp heq
        have hin : m ∈ p.2.nodes := by
          rw [heq]
          exact List.mem_cons_self
        have hsame := eq_of_mem_nodes (h.distinct item hnew) hp hentry hin hm
        rw [hsame] at heq
        exact hvalue heq

namespace Joined

variable (h : w.Joined w' n item)

include h

/-- The node of the literal is let go: nothing refers to the first node that was built. -/
theorem dead_item (hclosed : w.Closed) : w'.alive item = false := by
  have hfirst := h.first
  rw [Bool.eq_false_iff]
  intro halive
  obtain ⟨nodes, hmem, hsupports⟩ := alive_iff.mp halive
  rcases hsupports item hmem with hheld | ⟨-, y, -, href⟩
  · have hlt := hclosed.holders item (h.holders ▸ hheld)
    omega
  · by_cases hy : y.index < w.cells.size
    · rcases h.old y hy item href with hlt | ⟨-, hlt, -⟩
      · omega
      · exact Nat.lt_irrefl _ hlt
    · have hlt := (h.new y (Nat.not_lt.mp hy) item href).1
      omega

theorem range : ∀ x y, y ∈ references (w'.cell x) → y.index < w'.cells.size := by
  intro x y hy
  by_cases hx : x.index < w.cells.size
  · rcases h.old x hx y hy with hlt | ⟨-, -, hlt, -⟩
    · exact Nat.lt_of_lt_of_le hlt h.size
    · exact hlt
  · exact (h.new x (Nat.not_lt.mp hx) y hy).2.1

variable {key : String} (hmem : (key, .node child) ∈ (w'.cell n).entries)
  (hnew : (key, .node child) ∉ (w.cell n).entries)

include hmem hnew

/-- A node of the literal below an entry that is a node is linked to a node that holds it: the
receiver for the entry itself, and a node further up in the literal for the others. -/
theorem link (hbelow : w'.Below child m) :
    item.index < m.index ∧ m.index < w'.cells.size ∧
      ∃ p, (w'.cell m).parent = some p ∧ m ∈ references (w'.cell p) ∧
        (m = child ∧ p = n ∨
          item.index < p.index ∧ p.index < m.index ∧ w'.Below child p) := by
  have hfirst := h.first
  induction hbelow with
  | refl =>
      obtain ⟨hafter, hrange, hparent⟩ := h.entry key child hmem hnew
      refine ⟨hafter, hrange, n, hparent, ?_, .inl ⟨rfl, rfl⟩⟩
      exact List.mem_flatMap.mpr ⟨_, hmem, List.mem_cons_self⟩
  | @tail x y hx href ih =>
      obtain ⟨hafter, -⟩ := ih
      obtain ⟨hlt, hrange, hlink⟩ := h.new x (by omega) y href
      have hne : x ≠ item := by
        rintro rfl
        exact Nat.lt_irrefl _ hafter
      exact ⟨Nat.lt_trans hafter hlt, hrange, x, hlink hne, href, .inr ⟨hafter, hlt, hx⟩⟩

omit hnew in
/-- A link to the receiver or below the entry is to a parent, for both are alive. -/
theorem parent (halive : w.alive n = true) {p : NodeId} (hlink : (w'.cell m).parent = some p)
    (hp : p = n ∨ w'.Below child p) : w'.parent? m = some p := by
  have hlive : w'.alive n = true := alive_mono h.holders h.size h.kept halive
  have hchild : child ∈ references (w'.cell n) :=
    List.mem_flatMap.mpr ⟨_, hmem, List.mem_cons_self⟩
  have hplive : w'.alive p = true := by
    rcases hp with rfl | hp
    · exact hlive
    · exact alive_of_below h.range (.head hchild hp) hlive
  rw [parent?, hlink, Option.filter_some, if_pos hplive]

/-- No other node that is alive holds a node below such an entry. -/
theorem holder_eq (hclosed : w.Closed) (hn : n.index < w.cells.size) (hbelow : w'.Below child m)
    {p q : NodeId} (hlink : (w'.cell m).parent = some p)
    (hp : m = child ∧ p = n ∨ item.index < p.index) (href : m ∈ references (w'.cell q))
    (halive : w'.alive q = true) : q = p := by
  have hfirst := h.first
  have hafter := (h.link hmem hnew hbelow).1
  by_cases hq : q.index < w.cells.size
  · rcases h.old q hq m href with hlt | ⟨rfl, -, -, hparent⟩
    · omega
    · -- The receiver holds it, so its link is to the receiver or to the node of the literal.
      rcases hparent with hparent | hparent
      · exact Option.some.inj (hparent.symm.trans hlink)
      · obtain rfl := Option.some.inj (hparent.symm.trans hlink)
        rcases hp with ⟨-, rfl⟩ | hp
        · rfl
        · exact absurd hp (Nat.lt_irrefl _)
  · by_cases hitem : q = item
    · subst hitem
      rw [h.dead_item hclosed] at halive
      cases halive
    · exact Option.some.inj (((h.new q (Nat.not_lt.mp hq) m href).2.2 hitem).symm.trans hlink)

/-- The parents of a node below such an entry lead to the receiver. -/
theorem ancestors (hn : n.index < w.cells.size) (halive : w.alive n = true)
    (hbelow : w'.Below child m) {fuel : Nat} {passed : List NodeId} (hfuel : m.index < fuel)
    (hpassed : ∀ x ∈ passed, m.index ≤ x.index) :
    ∃ closer above, w'.ancestors fuel passed m = closer ++ n :: above ∧
      ∀ q ∈ closer, w'.Below child q := by
  have hfirst := h.first
  -- The nodes on the way up get older, so none of them was passed before.
  induction fuel generalizing m passed with
  | zero => exact absurd hfuel (Nat.not_lt_zero _)
  | succ fuel ih =>
      obtain ⟨hafter, -, p, hlink, -, hp⟩ := h.link hmem hnew hbelow
      have hbelow' : p = n ∨ w'.Below child p := by
        rcases hp with ⟨-, rfl⟩ | ⟨-, -, hp⟩
        · exact .inl rfl
        · exact .inr hp
      have holder : p.index < m.index := by
        rcases hp with ⟨-, rfl⟩ | ⟨-, hlt, -⟩
        · omega
        · exact hlt
      have hfree : p ∉ passed := by
        intro hmem'
        have hle := hpassed p hmem'
        omega
      have hparent := h.parent hmem halive hlink hbelow'
      rw [World.ancestors, hparent]
      show ∃ closer above, (if p ∈ passed then [] else _) = _ ∧ _
      rw [if_neg hfree]
      rcases hbelow' with rfl | hbelow'
      · exact ⟨[], _, rfl, fun q hq => (List.not_mem_nil hq).elim⟩
      · have hpassed' : ∀ x ∈ p :: passed, p.index ≤ x.index := by
          intro x hx
          rcases List.mem_cons.mp hx with rfl | hx
          · exact Nat.le_refl _
          · exact Nat.le_of_lt (Nat.lt_of_lt_of_le holder (hpassed x hx))
        obtain ⟨closer, above, hchain, hcloser⟩ := ih hbelow' (by omega) hpassed'
        refine ⟨p :: closer, above, ?_, ?_⟩
        · rw [hchain]
          rfl
        · intro q hq
          rcases List.mem_cons.mp hq with rfl | hq
          · exact hbelow'
          · exact hcloser q hq

/-- A node below such an entry has one parent, the one node that is alive and holds it. -/
theorem parent_of_below (hclosed : w.Closed) (hn : n.index < w.cells.size)
    (halive : w.alive n = true) (hbelow : w'.Below child m) :
    ∃ p, w'.parent? m = some p ∧ m ∈ references (w'.cell p) ∧
      ∀ q, m ∈ references (w'.cell q) → w'.alive q = true → q = p := by
  obtain ⟨-, -, p, hlink, hholds, hp⟩ := h.link hmem hnew hbelow
  refine ⟨p, ?_, hholds, ?_⟩
  · apply h.parent hmem halive hlink
    rcases hp with ⟨-, rfl⟩ | ⟨-, -, hp⟩
    · exact .inl rfl
    · exact .inr hp
  · intro q href hq
    apply h.holder_eq hmem hnew hclosed hn hbelow hlink _ href hq
    rcases hp with hp | ⟨hp, -⟩
    · exact .inl hp
    · exact .inr hp

theorem lineage_of_below (hn : n.index < w.cells.size) (halive : w.alive n = true)
    (hbelow : w'.Below child m) :
    ∃ closer above, w'.lineage m = closer ++ n :: above ∧ ∀ q ∈ closer, w'.Below child q := by
  obtain ⟨-, hrange, -⟩ := h.link hmem hnew hbelow
  obtain ⟨closer, above, hchain, hcloser⟩ := h.ancestors hmem hnew hn halive hbelow hrange
    fun x hx => Nat.le_of_eq (congrArg NodeId.index (List.mem_singleton.mp hx).symm)
  refine ⟨m :: closer, above, ?_, ?_⟩
  · rw [lineage, hchain]
    rfl
  · intro q hq
    rcases List.mem_cons.mp hq with rfl | hq
    · exact hbelow
    · exact hcloser q hq

end Joined

end World

namespace NodeId

variable (lang : Language) {n : NodeId} {text : String} {w w' : World}

/-- A name that a node of the lineage holds, and no node before it, is read from that node. -/
theorem resolve_of_lineage {m : NodeId} {name : String} {closer above : List NodeId}
    (hlineage : w.lineage m = closer ++ n :: above) (hheld : w.containsKey n name = true)
    (hcloser : ∀ q ∈ closer, w.containsKey q name = false) :
    m.resolve lang name w = Action.holding [n] (n.get lang name) w := by
  have hholder : w.holder? m name = some n := by
    rw [World.holder?, hlineage, List.find?_append, List.find?_eq_none.mpr]
    · exact @List.find?_cons_of_pos _ (fun x => w.containsKey x name) n above hheld
    · intro q hq
      rw [hcloser q hq]
      exact Bool.false_ne_true
  rw [resolve, Action.inspect_bind_apply, hholder]

/-- A literal without instructions is appended, and an entry is there that was not. When it is a
node, that node and each one below it has the one node that holds it for a parent. Its parents lead
up to the receiver, from which the names that no node on the way holds are read. When the entry is
not a node, the nodes in it have no parent. -/
theorem appendJson_links (hclosed : w.Closed) (hn : n.index < w.cells.size)
    (halive : w.alive n = true)
    (hbare : ∀ json, Json.readLenient? text = some json → json.uninstructed = true)
    (hdone : n.appendJson (introspect lang) text w = (.done (), w')) {key : String} {value : Value}
    (hmem : (key, value) ∈ (w'.cell n).entries) (hnew : (key, value) ∉ (w.cell n).entries) :
    (∀ child m, value = .node child → w'.Below child m →
      (∃ p, w'.parent? m = some p ∧ m ∈ World.references (w'.cell p) ∧
        ∀ q, m ∈ World.references (w'.cell q) → w'.alive q = true → q = p) ∧
      ∃ closer above, w'.lineage m = closer ++ n :: above ∧
        (∀ q ∈ closer, w'.Below child q) ∧
        ∀ name, w'.containsKey n name = true →
          (∀ q ∈ closer, w'.containsKey q name = false) →
          m.resolve lang name w' = Action.holding [n] (n.get lang name) w') ∧
    ∀ m ∈ value.nodes, value ≠ .node m → w'.parent? m = none := by
  obtain ⟨item, a, hchild, hmerge⟩ := Action.bind_eq_done hdone
  obtain ⟨-, rfl⟩ := Prod.mk.inj hmerge
  obtain ⟨hlinked, hc, hitem⟩ := newChild_linked lang hn hbare hchild
  have hjoined := hlinked.joined hc hclosed hn hitem
  constructor
  · rintro child m rfl hbelow
    refine ⟨hjoined.parent_of_below hmem hnew hclosed hn halive hbelow, ?_⟩
    obtain ⟨closer, above, hlineage, hcloser⟩ :=
      hjoined.lineage_of_below hmem hnew hn halive hbelow
    refine ⟨closer, above, hlineage, hcloser, ?_⟩
    intro name hheld hfree
    exact resolve_of_lineage lang hlineage hheld hfree
  · intro m hm hvalue
    have hlink := hjoined.listed key value hmem hnew m hm hvalue
    rw [World.parent?, hlink, Option.filter_some, hjoined.dead_item hclosed]
    rfl

end NodeId

/-- A world with a node that a caller holds, and without files. -/
def World.lone : World :=
  ((World.initial ⟨false, false, 0⟩ ⟨.directory [], []⟩).create true).2.hold [⟨1⟩]

theorem World.closed_lone : World.lone.Closed := by
  have h := (World.closed_initial ⟨false, false, 0⟩ ⟨.directory [], []⟩).create true
  refine ⟨h.references, h.parents, ?_⟩
  decide

/-- The node that is stored under a key. -/
def World.child? (w : World) (n : NodeId) (key : String) : Option NodeId :=
  match w.getRaw n key with
  | some (.node child) => some child
  | _ => none

theorem World.mem_entries_of_child? {w : World} {n child : NodeId} {key : String}
    (h : w.child? n key = some child) : (key, .node child) ∈ (w.cell n).entries := by
  unfold child? at h
  split at h
  · rename_i found hfound
    rw [← Option.some.inj h]
    exact Entries.mem_of_get?_eq_some hfound
  · cases h

/-- A node in a list of an object. -/
def NodeId.nestedText : String := "\x7bc: 7, o: \x7bl: [\x7bb: 1\x7d]\x7d\x7d"

/-- A node in a list of the literal itself. -/
def NodeId.listedText : String := "\x7bc: 7, a: [\x7bb: 1\x7d]\x7d"

namespace NodeId

/-- The node in the list has the object for a parent, and its parents lead to the receiver. -/
theorem appendJson_links_nested : ∃ w' p closer above,
    (⟨1⟩ : NodeId).appendJson (introspect (.ofFuel 0)) nestedText World.lone = (.done (), w') ∧
      w'.parent? ⟨4⟩ = some p ∧ (⟨4⟩ : NodeId) ∈ World.references (w'.cell p) ∧
      w'.lineage ⟨4⟩ = closer ++ ⟨1⟩ :: above := by
  have hbare : (Json.readLenient? nestedText).all Json.uninstructed = true := by
    decide +kernel
  have hisDone : ((⟨1⟩ : NodeId).appendJson (introspect (.ofFuel 0)) nestedText
      World.lone).1.isDone = true := by
    decide +kernel
  obtain ⟨w', hw'⟩ : ∃ w', w' = ((⟨1⟩ : NodeId).appendJson (introspect (.ofFuel 0)) nestedText
      World.lone).2 := ⟨_, rfl⟩
  have hdone := Action.eq_done_of_isDone hisDone
  rw [← hw'] at hdone
  have hentry : ("o", .node ⟨3⟩) ∈ (w'.cell ⟨1⟩).entries := by
    apply World.mem_entries_of_child?
    rw [hw']
    decide +kernel
  have hbelow : w'.Below ⟨3⟩ ⟨4⟩ := by
    apply Relation.ReflTransGen.single
    rw [hw']
    decide +kernel
  have hlinks := appendJson_links (.ofFuel 0) World.closed_lone (by decide) (by decide +kernel)
    (fun json hjson => by rw [hjson] at hbare; exact hbare) hdone hentry List.not_mem_nil
  obtain ⟨⟨p, hparent, hholds, -⟩, closer, above, hlineage, -⟩ := hlinks.1 ⟨3⟩ ⟨4⟩ rfl hbelow
  exact ⟨w', p, closer, above, hdone, hparent, hholds, hlineage⟩

/-- A node in a list of the receiver has no parent, and a name of the receiver is not found from
it. -/
theorem appendJson_orphans_listed : ∃ w',
    (⟨1⟩ : NodeId).appendJson (introspect (.ofFuel 0)) listedText World.lone = (.done (), w') ∧
      (⟨3⟩ : NodeId) ∈ World.references (w'.cell ⟨1⟩) ∧ w'.containsKey ⟨1⟩ "c" = true ∧
      w'.containsKey ⟨3⟩ "c" = false ∧ w'.parent? ⟨3⟩ = none ∧
      (⟨3⟩ : NodeId).resolve (.ofFuel 0) "c" w' = (.done none, w') := by
  have hisDone : ((⟨1⟩ : NodeId).appendJson (introspect (.ofFuel 0)) listedText
      World.lone).1.isDone = true := by
    decide +kernel
  have hholder : ((⟨1⟩ : NodeId).appendJson (introspect (.ofFuel 0)) listedText
      World.lone).2.holder? ⟨3⟩ "c" = none := by
    decide +kernel
  refine ⟨_, Action.eq_done_of_isDone hisDone, ?_, ?_, ?_, ?_, ?_⟩
  · decide +kernel
  · decide +kernel
  · decide +kernel
  · decide +kernel
  · rw [resolve, Action.inspect_bind_apply, hholder]
    rfl

end NodeId

end ScriptTree
