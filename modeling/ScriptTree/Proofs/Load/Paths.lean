import ScriptTree.Proofs.Load.Edits
import ScriptTree.Proofs.Load.Rendering
import ScriptTree.Proofs.Reading.Finding

/-!
# Paths and entries

The path of a node follows links to parents and names; finding follows entries. In a tree that has
grown from an empty root by literals with plain keys the two are inverse (`World.tended_paths`): each
node that keys lead to is linked to the node that holds it and named after its key
(`World.InStep`). The literal of a load brings nodes of this kind along (`Depicted.inStep`), and
both the merge and the insertion at its end keep the others so (`Tidy.graft`).
-/

set_option autoImplicit false

namespace ScriptTree

/-! ## Keys of literals -/

namespace Json

mutual

/-- Every key of every object of the value, however deep, passes the test. -/
def everyKey (test : String → Bool) : Json → Bool
  | .array items => allEveryKey test items
  | .object members => membersEveryKey test members
  | _ => true

/-- Every key of every object of the values passes the test. -/
def allEveryKey (test : String → Bool) : List Json → Bool
  | [] => true
  | item :: rest => item.everyKey test && allEveryKey test rest

/-- Every key of the members and of every object inside them passes the test. -/
def membersEveryKey (test : String → Bool) : List (String × Json) → Bool
  | [] => true
  | (key, member) :: rest => test key && member.everyKey test && membersEveryKey test rest

end

variable {test : String → Bool}

theorem allEveryKey_iff {items : List Json} :
    allEveryKey test items = true ↔ ∀ item ∈ items, item.everyKey test = true := by
  induction items with
  | nil => simp [allEveryKey]
  | cons item rest ih => rw [allEveryKey, Bool.and_eq_true, ih, List.forall_mem_cons]

theorem membersEveryKey_iff {members : List (String × Json)} :
    membersEveryKey test members = true ↔
      ∀ p ∈ members, test p.1 = true ∧ p.2.everyKey test = true := by
  induction members with
  | nil => simp [membersEveryKey]
  | cons p rest ih =>
      rw [membersEveryKey, Bool.and_eq_true, Bool.and_eq_true, ih, List.forall_mem_cons]

theorem hereditary_everyKey (test : String → Bool) :
    Hereditary fun json => json.everyKey test = true where
  item items h := by
    rw [everyKey] at h
    exact allEveryKey_iff.mp h
  member members h p hp := by
    rw [everyKey] at h
    exact (membersEveryKey_iff.mp h p hp).2

end Json

/-- The literal of the text, when it has one, has no instructions, and all of its keys are plain. -/
structure PlainLiteral (text : String) : Prop where
  bare : ∀ json, Json.readLenient? text = some json → json.uninstructed = true
  keys : ∀ json, Json.readLenient? text = some json →
    json.everyKey (fun key => decide (PlainKey key)) = true

namespace World

variable {w w' u : World} {root n m r item : NodeId} {key : String} {keys : List String}
  {members : List (String × Json)} {nodes : List NodeId}

/-! ## Reaching nodes -/

/-- The node that keys lead to through entries that are nodes. -/
def reach? (w : World) (n : NodeId) (keys : List String) : Option NodeId :=
  keys.foldlM w.child? n

theorem child?_eq_some_iff : w.child? n key = some r ↔ w.getRaw n key = some (.node r) := by
  unfold child?
  split
  · rename_i child hchild
    rw [hchild, Option.some.injEq, Option.some.injEq, Value.node.injEq]
  · rename_i hnone
    constructor
    · intro h
      cases h
    · intro h
      exact absurd h (hnone r)

theorem reach?_concat_eq_some_iff : w.reach? n (keys ++ [key]) = some r ↔
    ∃ m, w.reach? n keys = some m ∧ w.child? m key = some r := by
  rw [reach?, List.foldlM_append]
  simp [Option.bind_eq_some_iff, reach?]

theorem mem_references_of_child? (h : w.child? n key = some r) : r ∈ references (w.cell n) :=
  List.mem_flatMap.mpr ⟨_, mem_entries_of_child? h, List.mem_cons_self⟩

theorem below_of_reach? (h : w.reach? n keys = some r) : w.Below n r := by
  induction keys using List.reverseRecOn generalizing r with
  | nil =>
      obtain rfl := Option.some.inj h
      exact .refl
  | append_singleton keys key ih =>
      obtain ⟨m, hm, hchild⟩ := reach?_concat_eq_some_iff.mp h
      exact (ih hm).tail (mem_references_of_child? hchild)

/-- Keys are followed one by one where nothing is expanded. -/
theorem findFrom_of_reach? (lang : Language) (hinert : w.Inert) (h : w.reach? n keys = some r) :
    NodeId.findFrom lang keys (.node n) w = (.done (some (.node r)), w) := by
  induction keys using List.reverseRecOn generalizing r with
  | nil =>
      obtain rfl := Option.some.inj h
      rfl
  | append_singleton keys key ih =>
      obtain ⟨m, hm, hchild⟩ := reach?_concat_eq_some_iff.mp h
      have hinside : (w.hold [m]).Inert := hinert
      have hget := Action.holding_of_done (NodeId.get_of_inert lang hinside m key)
      have hraw : (w.hold [m]).getRaw m key = some (.node r) := child?_eq_some_iff.mp hchild
      rw [hraw] at hget
      rw [NodeId.findFrom_append, Action.bind_apply, ih hm]
      show NodeId.findFrom lang [key] (.node m) w = _
      rw [NodeId.findFrom, Action.bind_apply, hget]
      rfl

/-! ## Nodes in step with their keys -/

/-- A node under a plain key of another one is linked to it and named after the key. -/
structure InStep (w : World) (m : NodeId) (key : String) (r : NodeId) : Prop where
  plain : PlainKey key
  parent : (w.cell r).parent = some m
  name : (w.cell r).name = some key

theorem InStep.congr (h : w.InStep m key r) (hparent : (w'.cell r).parent = (w.cell r).parent)
    (hname : (w'.cell r).name = (w.cell r).name) : w'.InStep m key r :=
  ⟨h.plain, hparent.trans h.parent, hname.trans h.name⟩

/-- A root that is held and has no parent, in a world where nothing is expanded. The nodes that keys
lead to from it are in step with their keys. -/
structure Tidy (w : World) (root : NodeId) : Prop where
  closed : w.Closed
  inert : w.Inert
  held : root ∈ w.holders
  top : w.parent? root = none
  inStep : ∀ keys n, w.reach? root keys = some n → ∀ key r, w.child? n key = some r →
    w.InStep n key r

namespace Tidy

theorem lt_size (h : w.Tidy root) : root.index < w.cells.size := h.closed.holders root h.held

theorem lt_size_of_reach? (h : w.Tidy root) (hn : w.reach? root keys = some n) :
    n.index < w.cells.size := by
  cases keys using List.reverseRecOn with
  | nil =>
      obtain rfl := Option.some.inj hn
      exact h.lt_size
  | append_singleton keys key =>
      obtain ⟨m, -, hchild⟩ := reach?_concat_eq_some_iff.mp hn
      exact h.closed.references m n (mem_references_of_child? hchild)

/-- The way up from a node that keys lead to has the keys for names and ends at the root. -/
theorem exists_climb (h : w.Tidy root) (hn : w.reach? root keys = some n) :
    ∃ chain, w.Climbs n chain ∧ chain.getLast? = some root ∧
      (chain.dropLast.reverse.map fun m => (w.cell m).name.getD "") = keys ∧
      ∀ key ∈ keys, PlainKey key := by
  induction keys using List.reverseRecOn generalizing n with
  | nil =>
      obtain rfl := Option.some.inj hn
      exact ⟨[root], .top h.top, rfl, rfl, fun _ hkey => (List.not_mem_nil hkey).elim⟩
  | append_singleton keys key ih =>
      -- The last key is the first name on the way up.
      obtain ⟨m, hm, hchild⟩ := reach?_concat_eq_some_iff.mp hn
      obtain ⟨chain, hclimb, hlast, hnames, hplain⟩ := ih hm
      have hstep := h.inStep keys m hm key n hchild
      have halive : w.alive m = true :=
        alive_of_below h.closed.references (below_of_reach? hm) (alive_of_mem_holders h.held)
      obtain ⟨above, rfl⟩ := hclimb.exists_cons
      refine ⟨n :: m :: above, .step (parent?_of_parent hstep.parent halive) hclimb, hlast, ?_, ?_⟩
      · rw [List.dropLast_cons_of_ne_nil (List.cons_ne_nil m above), List.reverse_cons,
          List.map_append, hnames, List.map_singleton, hstep.name]
        rfl
      · intro k hk
        rcases List.mem_append.mp hk with hk | hk
        · exact hplain k hk
        · rw [List.mem_singleton.mp hk]
          exact hstep.plain

end Tidy

/-! ## Grafts -/

/-- From `w` to `w'` fresh nodes have come, and some of them are entries of `n`. All of them are in
step with their keys, and no other entry and no other link of a node of `w` has come. -/
structure Grafted (w w' : World) (n : NodeId) (fresh : NodeId → Prop) : Prop where
  old : ∀ m : NodeId, m.index < w.cells.size → m ≠ n → w'.cell m = w.cell m
  self : (w'.cell n).parent = (w.cell n).parent ∧ (w'.cell n).name = (w.cell n).name
  entry : ∀ key r, w'.child? n key = some r →
    w.child? n key = some r ∨ fresh r ∧ w'.InStep n key r
  inside : ∀ m, fresh m → ∀ key r, w'.child? m key = some r → fresh r ∧ w'.InStep m key r

namespace Tidy

variable {fresh : NodeId → Prop} (h : w.Tidy root) (hn : w.reach? root keys = some n)
  (hg : w.Grafted w' n fresh)

include h hn hg

/-- A node that keys lead to after a graft was there and was reached by them, or is fresh. -/
theorem reach?_of_graft {others : List String} (hm : w'.reach? root others = some m) :
    w.reach? root others = some m ∨ fresh m := by
  induction others using List.reverseRecOn generalizing m with
  | nil => exact .inl hm
  | append_singleton others key ih =>
      obtain ⟨p, hp, hchild⟩ := reach?_concat_eq_some_iff.mp hm
      rcases ih hp with hold | hfresh
      · have hbefore : w.child? p key = some m ∨ fresh m := by
          by_cases hpn : p = n
          · subst hpn
            exact (hg.entry key m hchild).imp id And.left
          · left
            rwa [child?, getRaw, hg.old p (h.lt_size_of_reach? hold) hpn] at hchild
        exact hbefore.imp (fun hbefore => reach?_concat_eq_some_iff.mpr ⟨p, hold, hbefore⟩) id
      · exact .inr (hg.inside p hfresh key m hchild).1

/-- A graft on a node that keys lead to leaves the tree tidy. -/
theorem graft (htame : w.Tame w') (hheld : root ∈ w'.holders) : w'.Tidy root := by
  -- Old nodes keep their links and names, the one that was grafted upon among them.
  have hkept : ∀ {p key r}, w.InStep p key r → r.index < w.cells.size → w'.InStep p key r := by
    intro p key r hstep hr
    by_cases hrn : r = n
    · subst hrn
      exact hstep.congr hg.self.1 hg.self.2
    · exact hstep.congr (by rw [hg.old r hr hrn]) (by rw [hg.old r hr hrn])
  refine ⟨htame.closed, htame.inert, hheld, ?_, fun others m hm key r hchild => ?_⟩
  · cases hp : w'.parent? root with
    | none => rfl
    | some p =>
        have hbefore := htame.links root p h.lt_size hp
        rw [h.top] at hbefore
        cases hbefore
  · rcases h.reach?_of_graft hn hg hm with hold | hfresh
    · have hbefore : w.child? m key = some r ∨ w'.InStep m key r := by
        by_cases hmn : m = n
        · subst hmn
          exact (hg.entry key r hchild).imp id And.right
        · left
          rwa [child?, getRaw, hg.old m (h.lt_size_of_reach? hold) hmn] at hchild
      rcases hbefore with hbefore | hstep
      · exact hkept (h.inStep others m hold key r hbefore)
          (h.closed.references m r (mem_references_of_child? hbefore))
      · exact hstep
    · exact (hg.inside m hfresh key r hchild).2

end Tidy

/-! ## Literals as grafts -/

/-- A node among the entries of a depicted object is one of the nodes. -/
theorem DepictsMembers.mem_of_entry {entries : Entries Value}
    (h : w.DepictsMembers members entries nodes) (hmem : (key, Value.node r) ∈ entries) :
    r ∈ nodes := by
  induction members generalizing entries nodes with
  | nil => cases h; cases hmem
  | cons p rest ih =>
      cases h with
      | cons hvalue _ h =>
          rcases List.mem_cons.mp hmem with heq | hmem
          · cases heq
            exact List.mem_append_left _ (hvalue.mem_of_node rfl)
          · exact List.mem_append_right _ (ih h hmem)

/-- The nodes of a literal with plain keys are in step with their keys, and are younger than the
nodes that hold them. -/
theorem Depicted.inStep (h : Depicted w u (.object members) (.node item) nodes)
    (hlinked : w.Linked u)
    (hplain : (Json.object members).everyKey (fun key => decide (PlainKey key)) = true)
    (hm : m ∈ nodes) (hentry : (key, .node r) ∈ (u.cell m).entries) :
    r ∈ nodes ∧ m.index < r.index ∧ r.index < u.cells.size ∧ u.InStep m key r := by
  obtain ⟨found, others, hmembers, hothers, hkeys⟩ :=
    h.depicts.object_of_mem (Json.hereditary_everyKey _) hplain m hm
  have href : r ∈ references (u.cell m) :=
    List.mem_flatMap.mpr ⟨_, hentry, List.mem_cons_self⟩
  obtain ⟨hafter, hlt, hparent⟩ := hlinked.references m (h.range m hm).1 r href
  refine ⟨hothers r (hmembers.mem_of_entry hentry), hafter, hlt, ?_, hparent,
    hmembers.name_eq hentry⟩
  have hkey : key ∈ Entries.keys found := by
    rw [← hmembers.keys_eq]
    exact List.mem_map_of_mem hentry
  obtain ⟨p, hp, rfl⟩ := List.mem_map.mp hkey
  rw [Json.everyKey] at hkeys
  exact of_decide_eq_true (Json.membersEveryKey_iff.mp hkeys p hp).1

theorem name_put_of_some {value : Value} {name : String} (h : (w.cell m).name = some name) :
    ((w.put n key value).cell m).name = some name := by
  have hset : ((w.put n key value).cell m).name = ((w.adopt n key value).cell m).name :=
    reading_modifyCell Cell.name rfl m
  rw [hset]
  cases value with
  | node child =>
      rw [adopt]
      split
      · exact h
      · rw [cell_modifyCell]
        split
        · rename_i hm
          rw [← hm.1, h]
          rfl
        · exact h
  | _ => exact h

/-- A node that has a name keeps it in a merge. -/
theorem name_merge_of_some {entries : List (String × Value)} {name : String}
    (h : (w.cell m).name = some name) : ((w.merge n entries).cell m).name = some name := by
  induction entries generalizing w with
  | nil => exact h
  | cons p rest ih =>
      rw [merge_cons]
      split
      · exact ih h
      · exact ih (name_put_of_some h)

namespace Depicted

variable (h : Depicted w u (.object members) (.node item) nodes) (hlinked : w.Linked u)
  (hplain : (Json.object members).everyKey (fun key => decide (PlainKey key)) = true)
  (hn : n.index < w.cells.size) (hitem : item.index = w.cells.size)

include h hlinked hplain hn hitem

/-- A merged literal is a graft of all its nodes but the outermost. -/
theorem grafted_merge :
    w.Grafted (u.merge n (u.cell item).entries) n fun m => m ∈ nodes ∧ m ≠ item := by
  have hnew : w.cells.size ≤ item.index := Nat.le_of_eq hitem.symm
  have hlt : n.index < u.cells.size := Nat.lt_of_lt_of_le hn hlinked.size
  have houter := h.depicts.mem_of_node rfl
  have hself := cell_merge_self hlt (hlinked.keys item hnew)
  constructor
  case old =>
    intro m hm hne
    rw [cell_merge_of_ne hne.symm, hlinked.old m hm]
    intro p hp heq
    have hentry : (p.1, .node m) ∈ (u.cell item).entries := heq ▸ hp
    have hafter := (h.inStep hlinked hplain houter hentry).2.1
    omega
  case self =>
    rw [hself, hlinked.old n hn]
    exact ⟨rfl, rfl⟩
  case entry =>
    intro key r hchild
    have hraw := child?_eq_some_iff.mp hchild
    rw [getRaw, hself, hlinked.old n hn] at hraw
    rw [Entries.get?_append] at hraw
    cases hheld : (w.cell n).entries.get? key with
    | some value =>
        rw [hheld] at hraw
        exact .inl (child?_eq_some_iff.mpr (hheld.trans hraw))
    | none =>
        rw [hheld, Option.none_or] at hraw
        have hadded := Entries.mem_of_get?_eq_some hraw
        obtain ⟨hr, hafter, hrange, hstep⟩ :=
          h.inStep hlinked hplain houter (List.mem_filter.mp hadded).1
        have hne : n ≠ r := by
          rintro rfl
          omega
        refine .inr ⟨⟨hr, fun heq => by rw [heq] at hafter; omega⟩, hstep.plain, ?_, ?_⟩
        · exact parent_merge_node hne hlt hrange (hlinked.keys item hnew) hadded
        · exact name_merge_of_some hstep.name
  case inside =>
    rintro m ⟨hm, hmitem⟩ key r hchild
    have hrange := (h.range m hm).1
    have hne : n ≠ m := by
      rintro rfl
      omega
    have hentry := mem_entries_of_child? hchild
    rw [entries_merge_of_ne hne] at hentry
    obtain ⟨hr, hafter, -, hstep⟩ := h.inStep hlinked hplain hm hentry
    have hcell : (u.merge n (u.cell item).entries).cell r = u.cell r := by
      refine cell_merge_of_ne (fun heq => by rw [heq] at hn; omega) fun p hp heq => ?_
      -- An entry of the outermost node is linked to that one.
      have houter' : (p.1, .node r) ∈ (u.cell item).entries := heq ▸ hp
      have hlink := (h.inStep hlinked hplain houter houter').2.2.2.parent
      exact hmitem (Option.some.inj (hstep.parent.symm.trans hlink))
    refine ⟨⟨hr, fun heq => by rw [heq] at hafter; omega⟩, hstep.congr ?_ ?_⟩
    · rw [hcell]
    · rw [hcell]

/-- A literal that is stored under a key is a graft of all its nodes. -/
theorem grafted_put (hkey : PlainKey key) :
    w.Grafted ((u.setName item key).put n key (.node item)) n fun m => m ∈ nodes := by
  have hsize := hlinked.size
  have houter := h.depicts.mem_of_node rfl
  have hrange := (h.range item houter).2
  have hne : n ≠ item := by
    rintro rfl
    omega
  have hn' : n.index < (u.setName item key).cells.size := by
    rw [World.setName, size_modifyCell]
    omega
  have hnamed : ∀ {m : NodeId}, m ≠ item → (u.setName item key).cell m = u.cell m :=
    fun hm => cell_modifyCell_of_ne u _ hm.symm
  have hcell : ∀ {m : NodeId}, n ≠ m → m ≠ item →
      ((u.setName item key).put n key (.node item)).cell m = u.cell m := by
    intro m hm hmitem
    rw [cell_put_of_ne hm fun heq => hmitem (Value.node.inj heq).symm, hnamed hmitem]
  constructor
  case old =>
    intro m hm hmn
    rw [hcell hmn.symm, hlinked.old m hm]
    rintro rfl
    omega
  case self =>
    rw [cell_put_self hn', hnamed hne, hlinked.old n hn]
    exact ⟨rfl, rfl⟩
  case entry =>
    intro other r hchild
    have hraw := child?_eq_some_iff.mp hchild
    rw [getRaw_put_self _ key other _ hn'] at hraw
    split at hraw
    · rename_i hother
      obtain rfl := eq_of_beq hother
      obtain rfl := Value.node.inj (Option.some.inj hraw)
      refine .inr ⟨houter, hkey, ?_, name_put_of_some ?_⟩
      · refine parent_put_node hne ?_
        rw [World.setName, size_modifyCell]
        exact hrange
      · rw [World.setName, cell_modifyCell_self u _ hrange]
    · rw [getRaw, hnamed hne, hlinked.old n hn] at hraw
      exact .inl (child?_eq_some_iff.mpr hraw)
  case inside =>
    intro m hm other r hchild
    have hmrange := (h.range m hm).1
    have hmn : n ≠ m := by
      rintro rfl
      omega
    have hentry := mem_entries_of_child? hchild
    rw [entries_put_of_ne hmn, entries_setName] at hentry
    obtain ⟨hr, hafter, -, hstep⟩ := h.inStep hlinked hplain hm hentry
    have hrcell := hcell (m := r) (fun heq => by rw [heq] at hn; omega)
      fun heq => by rw [heq] at hafter; omega
    refine ⟨hr, hstep.congr ?_ ?_⟩
    · rw [hrcell]
    · rw [hrcell]

end Depicted

/-! ## Sequences of literals -/

/-- A literal with plain keys is loaded whole, or nothing comes of it. -/
theorem newChild_plain (lang : Language) {text : String} (hclosed : w.Closed) (hinert : w.Inert)
    (hn : n.index < w.cells.size) (hplain : PlainLiteral text) :
    (∃ cause, n.newChild (NodeId.introspect lang) text w = (.failed cause, w)) ∨
      ∃ members item u nodes, n.newChild (NodeId.introspect lang) text w = (.done item, u) ∧
        Depicted w u (.object members) (.node item) nodes ∧ w.Linked u ∧ w.Continues u ∧
        w.Grows u ∧ item.index = w.cells.size ∧
        (Json.object members).everyKey (fun key => decide (PlainKey key)) = true := by
  cases hread : Json.readLenient? text with
  | none =>
      left
      rw [NodeId.newChild, hread]
      exact ⟨_, rfl⟩
  | some json =>
      cases json with
      | object members =>
          right
          obtain ⟨item, u, nodes, hdone, hdepicted, -⟩ := NodeId.newChild_depicts lang hn hread
            (hplain.bare _ hread) (Json.proper_of_readLenient hread)
          obtain ⟨hlinked, hcontinues, hitem⟩ := NodeId.newChild_linked lang hn hplain.bare hdone
          have hgrows := (NodeId.keeps_newChild_of_upholds (kept_grows w)
            (NodeId.upholds_introspect lang (kept_grows w)) (.refl hclosed hinert) hn text).1
          rw [hdone] at hgrows
          exact ⟨members, item, u, nodes, hdone, hdepicted, hlinked, hcontinues, hgrows, hitem,
            hplain.keys _ hread⟩
      | _ =>
          left
          rw [NodeId.newChild, hread]
          exact ⟨_, rfl⟩

/-- A caller has loaded a literal with plain keys into a node that keys lead to, or holds other nodes
that are alive, the root among them. -/
inductive Tended (lang : Language) (root : NodeId) (w : World) : World → Prop
  | append {keys : List String} {n : NodeId} {text : String} : w.reach? root keys = some n →
      PlainLiteral text →
      Tended lang root w (n.appendJson (NodeId.introspect lang) text w).2
  | insert {keys : List String} {n : NodeId} {key text : String} : w.reach? root keys = some n →
      PlainKey key → PlainLiteral text →
      Tended lang root w (n.insertJson (NodeId.introspect lang) key text w).2
  | keep (nodes : List NodeId) : (∀ m ∈ nodes, w.alive m = true) →
      root ∈ ({ w with held := nodes } : World).holders →
      Tended lang root w { w with held := nodes }

namespace Tidy

variable {lang : Language} (h : w.Tidy root)

include h

/-- A merged literal keeps the tree tidy. -/
theorem appendJson {text : String} (hn : w.reach? root keys = some n)
    (hplain : PlainLiteral text) :
    ((n.appendJson (NodeId.introspect lang) text w).2).Tidy root := by
  have hlt := h.lt_size_of_reach? hn
  rw [NodeId.appendJson, Action.bind_apply]
  rcases newChild_plain lang h.closed h.inert hlt hplain with
    ⟨cause, hfailed⟩ |
    ⟨members, item, u, nodes, hdone, hdepicted, hlinked, hcontinues, hgrows, hitem, hkeys⟩
  · rw [hfailed]
    exact h
  · rw [hdone]
    have hgraft := hdepicted.grafted_merge hlinked hkeys hlt hitem
    have htame := hgrows.tame_merge hcontinues hlt (Nat.le_of_eq hitem.symm)
    have hheld : root ∈ (u.merge n (u.cell item).entries).holders := by
      rw [(hcontinues.trans (continues_merge u n _)).holders_eq]
      exact h.held
    exact h.graft hn hgraft htame hheld

/-- A literal that is stored under a plain key keeps the tree tidy. -/
theorem insertJson {text : String} (hn : w.reach? root keys = some n) (hkey : PlainKey key)
    (hplain : PlainLiteral text) :
    ((n.insertJson (NodeId.introspect lang) key text w).2).Tidy root := by
  have hlt := h.lt_size_of_reach? hn
  rw [NodeId.insertJson, Action.bind_apply]
  rcases newChild_plain lang h.closed h.inert hlt hplain with
    ⟨cause, hfailed⟩ |
    ⟨members, item, u, nodes, hdone, hdepicted, hlinked, hcontinues, hgrows, hitem, hkeys⟩
  · rw [hfailed]
    exact h
  · rw [hdone]
    have hrange := hdepicted.range item (hdepicted.depicts.mem_of_node rfl)
    have hgraft := hdepicted.grafted_put hlinked hkeys hlt hitem hkey
    have htame := hgrows.tame_put hcontinues hlt hrange.1 hrange.2 key
    have hheld : root ∈ ((u.setName item key).put n key (.node item)).holders := by
      have hnamed := hcontinues.trans (continues_setName u item key)
      rw [(hnamed.trans (continues_put (u.setName item key) n key _)).holders_eq]
      exact h.held
    exact h.graft hn hgraft htame hheld

theorem tended (htended : Tended lang root w w') : w'.Tidy root := by
  cases htended with
  | append hn hplain => exact h.appendJson hn hplain
  | insert hn hkey hplain => exact h.insertJson hn hkey hplain
  | keep nodes halive hheld =>
      have htame := tame_keep h.closed h.inert halive
      refine ⟨htame.closed, htame.inert, hheld, ?_, fun keys n hn key r hchild =>
        (h.inStep keys n hn key r hchild).congr rfl rfl⟩
      cases hp : ({ w with held := nodes } : World).parent? root with
      | none => rfl
      | some p => exact nomatch h.top.symm.trans (htame.links root p h.lt_size hp)

/-- Any sequence of loads of literals with plain keys keeps the tree tidy. -/
theorem tended_run (hrun : Relation.ReflTransGen (Tended lang root) w w') : w'.Tidy root := by
  induction hrun with
  | refl => exact h
  | tail _ htended ih => exact ih.tended htended

end Tidy

/-- An empty root is tidy. -/
theorem tidy_of_empty (hclosed : w.Closed) (hinert : w.Inert) (hheld : root ∈ w.holders)
    (hroot : w.parent? root = none) (hempty : (w.cell root).entries = []) : w.Tidy root := by
  have hnone : ∀ key r, w.child? root key ≠ some r := by
    intro key r hchild
    have hentry := mem_entries_of_child? hchild
    rw [hempty] at hentry
    cases hentry
  have honly : ∀ keys n, w.reach? root keys = some n → n = root := by
    intro keys n hn
    induction keys using List.reverseRecOn generalizing n with
    | nil => exact (Option.some.inj hn).symm
    | append_singleton keys key ih =>
        obtain ⟨m, hm, hchild⟩ := reach?_concat_eq_some_iff.mp hn
        obtain rfl := ih m hm
        exact absurd hchild (hnone key n)
  refine ⟨hclosed, hinert, hheld, hroot, fun keys n hn key r hchild => ?_⟩
  obtain rfl := honly keys n hn
  exact absurd hchild (hnone key r)

/-- In a tree that has grown from an empty root by literals with plain keys, which were merged into
nodes that keys lead to or stored under plain keys of them, the path of such a node consists of the
keys, the path leads back to the node, and the root is the root of the node. Where a path leads to a
node, a path that goes on from there is found from that node. -/
theorem tended_paths (lang : Language) (hclosed : w.Closed) (hinert : w.Inert)
    (hheld : root ∈ w.holders) (hroot : w.parent? root = none)
    (hempty : (w.cell root).entries = [])
    (hrun : Relation.ReflTransGen (Tended lang root) w w') :
    (∀ keys n, w'.reach? root keys = some n →
      w'.path n = ".".intercalate keys ∧
        root.find lang (w'.path n) w' = (.done (some (.node n)), w') ∧ w'.root n = root) ∧
      ∀ p q n, (root.find lang p w').1 = .done (some (.node n)) →
        root.find lang (p ++ "." ++ q) w' = n.find lang q w' := by
  have h := (tidy_of_empty hclosed hinert hheld hroot hempty).tended_run hrun
  refine ⟨fun keys n hn => ?_, fun p q n hp => NodeId.find_append lang h.inert hp q⟩
  obtain ⟨chain, hclimb, hlast, hnames, hplain⟩ := h.exists_climb hn
  have hpath : w'.path n = ".".intercalate keys := by
    rw [hclimb.path_eq h.closed, hnames]
  refine ⟨hpath, ?_, Option.some.inj ((hclimb.getLast?_eq h.closed).symm.trans hlast)⟩
  rw [hpath, NodeId.find, NodeId.pathNames_intercalate hplain]
  exact findFrom_of_reach? lang h.inert hn

/-- A literal with an object in an object. -/
def branchText : String := "\x7ba: \x7bb: \x7b\x7d\x7d\x7d"

theorem plainLiteral_branchText : PlainLiteral branchText := by
  have hbare : (Json.readLenient? branchText).all Json.uninstructed = true := by
    decide +kernel
  have hkeys : (Json.readLenient? branchText).all
      (fun json => json.everyKey fun key => decide (PlainKey key)) = true := by
    decide +kernel
  constructor
  · intro json hjson
    rw [hjson] at hbare
    exact hbare
  · intro json hjson
    rw [hjson] at hkeys
    exact hkeys

/-- The literal is merged into the only node that a caller holds. -/
def branched : World :=
  ((⟨1⟩ : NodeId).appendJson (NodeId.introspect (.ofFuel 0)) branchText lone).2

/-- The literal is then stored in the node that it brought. -/
def rebranched : World :=
  ((⟨3⟩ : NodeId).insertJson (NodeId.introspect (.ofFuel 0)) "c" branchText branched).2

theorem tended_paths_rebranched : Relation.ReflTransGen (Tended (.ofFuel 0) ⟨1⟩) lone rebranched ∧
    rebranched.reach? ⟨1⟩ ["a", "c", "a", "b"] = some ⟨7⟩ ∧
    rebranched.path ⟨7⟩ = "a.c.a.b" ∧
    (⟨1⟩ : NodeId).find (.ofFuel 0) (rebranched.path ⟨7⟩) rebranched =
      (.done (some (.node ⟨7⟩)), rebranched) ∧
    rebranched.root ⟨7⟩ = ⟨1⟩ := by
  have hroot : lone.reach? ⟨1⟩ [] = some ⟨1⟩ := rfl
  have happend : Tended (.ofFuel 0) ⟨1⟩ lone branched := .append hroot plainLiteral_branchText
  have hnode : branched.reach? ⟨1⟩ ["a"] = some ⟨3⟩ := by
    decide +kernel
  have hinsert : Tended (.ofFuel 0) ⟨1⟩ branched rebranched :=
    .insert hnode (by decide +kernel) plainLiteral_branchText
  have hrun := (Relation.ReflTransGen.single happend).tail hinsert
  have hreach : rebranched.reach? ⟨1⟩ ["a", "c", "a", "b"] = some ⟨7⟩ := by
    decide +kernel
  obtain ⟨hpaths, -⟩ := tended_paths (.ofFuel 0) closed_lone (inert_of_engine rfl rfl) (by decide)
    (by decide +kernel) (by decide +kernel) hrun
  obtain ⟨hpath, hfind, htop⟩ := hpaths _ _ hreach
  exact ⟨hrun, hreach, hpath, hfind, htop⟩

end World

end ScriptTree
