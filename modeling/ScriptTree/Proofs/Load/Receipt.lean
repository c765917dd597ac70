import ScriptTree.Proofs.Load.Paths
import ScriptTree.Proofs.World.Likeness

/-!
# Nodes that receive a mapping

A mapping has plain leaves and further mappings under distinct keys that are no instructions
(`Json.Nested`). However it was loaded, it is received when the entries of the node that are new
depict the members that the node did not hold, and each new node has the node that holds it for a
parent (`World.Receives`). Two nodes with the same tree that receive the same mapping hold the same
tree afterwards (`World.Receives.sameTree`).
-/

set_option autoImplicit false

namespace ScriptTree

/-! ## Mappings -/

namespace Json

mutual

/-- The value may stand in a nested mapping: null, a truth value, a signed 64-bit integer, a text
without blanks at its ends, or a mapping. -/
def Nested : Json → Prop
  | .null | .bool _ => True
  | .number n => n.signed?.isSome = true
  | .text s => Text.trimmed s = s
  | .array _ => False
  | .object members => (Entries.keys members).Nodup ∧ MembersNested members

/-- The members are those of a nested mapping: their keys have no blanks at their ends and are no
instructions. -/
def MembersNested : List (String × Json) → Prop
  | [] => True
  | (key, member) :: rest =>
      Text.trimmed key = key ∧ NodeId.isDirectiveKey key = false ∧ member.Nested ∧
        MembersNested rest

end

mutual

theorem Nested.proper : ∀ {json : Json}, json.Nested → json.Proper
  | .object members, h => by
      rw [Nested] at h
      rw [Proper]
      exact ⟨h.1, h.2.membersProper⟩
  | .null, _ | .bool _, _ | .number _, _ | .text _, _ => by simp only [Proper]
  | .array _, h => by
      rw [Nested] at h
      exact h.elim

theorem MembersNested.membersProper : ∀ {members : List (String × Json)}, MembersNested members →
    MembersProper members
  | [], _ => trivial
  | (_, _) :: _, h => by
      rw [MembersNested] at h
      rw [MembersProper]
      exact ⟨h.2.2.1.proper, h.2.2.2.membersProper⟩

end

theorem isDirectiveKey_of_mem_instructionKeys {key : String} (h : key ∈ NodeId.instructionKeys) :
    NodeId.isDirectiveKey key = true := by
  have hall : NodeId.instructionKeys.all NodeId.isDirectiveKey = true := by decide
  exact List.all_eq_true.mp hall key h

theorem MembersNested.cons {key : String} {member : Json} {rest : List (String × Json)}
    (h : MembersNested ((key, member) :: rest)) :
    Text.trimmed key = key ∧ key ∉ NodeId.instructionKeys ∧ member.Nested ∧
      MembersNested rest := by
  rw [MembersNested] at h
  obtain ⟨htrimmed, hkey, hmember, hrest⟩ := h
  refine ⟨htrimmed, fun hmem => ?_, hmember, hrest⟩
  rw [isDirectiveKey_of_mem_instructionKeys hmem] at hkey
  cases hkey

mutual

/-- A mapping has no instructions. -/
theorem Nested.uninstructed : ∀ {json : Json}, json.Nested → json.uninstructed = true
  | .object members, h => by
      rw [Nested] at h
      rw [Json.uninstructed]
      exact h.2.membersUninstructed
  | .null, _ | .bool _, _ | .number _, _ | .text _, _ => by simp only [Json.uninstructed]
  | .array _, h => by
      rw [Nested] at h
      exact h.elim

theorem MembersNested.membersUninstructed : ∀ {members : List (String × Json)},
    MembersNested members → Json.membersUninstructed members = true
  | [], _ => rfl
  | (_, _) :: _, h => by
      obtain ⟨-, hbare, hmember, hrest⟩ := h.cons
      rw [Json.membersUninstructed, List.contains_eq_mem, decide_eq_false hbare,
        hmember.uninstructed, hrest.membersUninstructed]
      rfl

end

theorem MembersNested.of_mem {members : List (String × Json)} (h : MembersNested members)
    {p : String × Json} (hp : p ∈ members) :
    NodeId.isDirectiveKey p.1 = false ∧ p.2.Nested := by
  induction members with
  | nil => cases hp
  | cons q rest ih =>
      rw [MembersNested] at h
      obtain ⟨-, hkey, hmember, hrest⟩ := h
      rcases List.mem_cons.mp hp with rfl | hp
      · exact ⟨hkey, hmember⟩
      · exact ih hrest hp

theorem MembersNested.filter {members : List (String × Json)} (h : MembersNested members)
    (keep : String × Json → Bool) : MembersNested (members.filter keep) := by
  induction members with
  | nil => exact h
  | cons p rest ih =>
      rw [MembersNested] at h
      obtain ⟨htrimmed, hkey, hmember, hrest⟩ := h
      rw [List.filter_cons]
      split
      · rw [MembersNested]
        exact ⟨htrimmed, hkey, hmember, ih hrest⟩
      · exact ih hrest

end Json

namespace World

variable {v w v' w' : World} {R : NodeId → NodeId → Prop}

/-! ## Two depictions of one mapping -/

/-- A value of a mapping that is no mapping has one form as a value, without nodes. -/
theorem Depicts.leaf_eq {json : Json} {value value' : Value} {nodes nodes' : List NodeId}
    (hnested : json.Nested) (hleaf : ∀ members, json ≠ .object members)
    (h : v.Depicts json value nodes) (h' : w.Depicts json value' nodes') :
    nodes = [] ∧ nodes' = [] ∧ value = value' ∧ value.nodes = [] := by
  cases h with
  | array _ =>
      rw [Json.Nested] at hnested
      exact hnested.elim
  | object _ => exact absurd rfl (hleaf _)
  | _ =>
      cases h'
      exact ⟨rfl, rfl, rfl, rfl⟩

/-- Two depictions of one mapping agree: they have as many nodes, and under every relation that
pairs these in order the entries are alike, those of the pairs are, and the pairs have the same
names. -/
def Agree (v w : World) (entries entries' : Entries Value) (nodes nodes' : List NodeId) : Prop :=
  nodes.length = nodes'.length ∧ ∀ {R : NodeId → NodeId → Prop},
    (∀ p ∈ nodes.zip nodes', R p.1 p.2) → Entries.Like R entries entries' ∧
      ∀ p ∈ nodes.zip nodes', Entries.Like R (v.cell p.1).entries (w.cell p.2).entries ∧
        (v.cell p.1).name = (w.cell p.2).name

namespace Agree

variable {entries entries' inner inner' : Entries Value} {nodes nodes' others others' : List NodeId}
  {key : String}

theorem nil : Agree v w [] [] [] [] :=
  ⟨rfl, fun _ => ⟨.nil, fun _ hp => (List.not_mem_nil hp).elim⟩⟩

/-- The same value without nodes comes before. -/
theorem leaf (h : Agree v w entries entries' nodes nodes') {value : Value}
    (hvalue : value.nodes = []) :
    Agree v w ((key, value) :: entries) ((key, value) :: entries') nodes nodes' := by
  refine ⟨h.1, fun hR => ?_⟩
  obtain ⟨hentries, hpairs⟩ := h.2 hR
  refine ⟨.cons ⟨rfl, .refl fun x hx => ?_⟩ hentries, hpairs⟩
  rw [hvalue] at hx
  cases hx

/-- Nodes with the same name come before, whose entries agree. -/
theorem node (h : Agree v w inner inner' nodes nodes')
    (h' : Agree v w entries entries' others others') {r r' : NodeId}
    (hr : (v.cell r).entries = inner) (hr' : (w.cell r').entries = inner')
    (hname : (v.cell r).name = (w.cell r').name) :
    Agree v w ((key, .node r) :: entries) ((key, .node r') :: entries') (r :: nodes ++ others)
      (r' :: nodes' ++ others') := by
  have hlength : (r :: nodes).length = (r' :: nodes').length := congrArg Nat.succ h.1
  refine ⟨?_, fun {R} hR => ?_⟩
  · rw [List.length_append, List.length_append, hlength, h'.1]
  · rw [List.zip_append hlength, List.zip_cons_cons] at hR ⊢
    have hfirst : R r r' := hR (r, r') List.mem_cons_self
    obtain ⟨hentries, hpairs⟩ := h.2 (R := R) fun p hp =>
      hR p (List.mem_cons_of_mem _ (List.mem_append_left _ hp))
    obtain ⟨hentries', hpairs'⟩ := h'.2 (R := R) fun p hp => hR p (List.mem_append_right _ hp)
    refine ⟨.cons ⟨rfl, .node hfirst⟩ hentries', fun p hp => ?_⟩
    rcases List.mem_append.mp hp with hp | hp
    · rcases List.mem_cons.mp hp with rfl | hp
      · rw [hr, hr']
        exact ⟨hentries, hname⟩
      · exact hpairs p hp
    · exact hpairs' p hp

end Agree

/-- All depictions of a mapping agree. -/
theorem DepictsMembers.agree {members : List (String × Json)} {entries entries' : Entries Value}
    {nodes nodes' : List NodeId} (hnested : Json.MembersNested members)
    (h : v.DepictsMembers members entries nodes) (h' : w.DepictsMembers members entries' nodes') :
    Agree v w entries entries' nodes nodes' := by
  cases h with
  | nil =>
      cases h'
      exact .nil
  | @cons key member rest _ _ _ _ hvalue hname hrest =>
      rw [Json.MembersNested] at hnested
      obtain ⟨-, -, hmember, hothers⟩ := hnested
      cases h' with
      | cons hvalue' hname' hrest' =>
          have hagree := agree hothers hrest hrest'
          by_cases hobject : ∃ inner, member = .object inner
          · obtain ⟨inner, rfl⟩ := hobject
            rw [Json.Nested] at hmember
            cases hvalue with
            | @object _ r _ hinner =>
                cases hvalue' with
                | @object _ r' _ hinner' =>
                    exact (agree hmember.2 hinner hinner').node hagree rfl rfl
                      ((hname r rfl).trans (hname' r' rfl).symm)
          · obtain ⟨rfl, rfl, rfl, hnodes⟩ :=
              hvalue.leaf_eq hmember (fun inner heq => hobject ⟨inner, heq⟩) hvalue'
            exact hagree.leaf hnodes
  termination_by members

mutual

/-- Each of the nodes is one that the value refers to, or another of the nodes holds it. -/
theorem Depicts.held : ∀ {json : Json} {value : Value} {nodes : List NodeId},
    w.Depicts json value nodes → ∀ x ∈ nodes,
    x ∈ value.nodes ∨ ∃ y ∈ nodes, x ∈ references (w.cell y)
  | _, _, _, .null, _, hx | _, _, _, .bool _, _, hx | _, _, _, .number _, _, hx
  | _, _, _, .text _, _, hx => (List.not_mem_nil hx).elim
  | _, _, _, .array h, x, hx => h.held x hx
  | _, .node n, _, .object h, x, hx => by
      rcases List.mem_cons.mp hx with rfl | hx
      · exact .inl List.mem_cons_self
      · rcases h.held x hx with href | ⟨y, hy, href⟩
        · exact .inr ⟨n, List.mem_cons_self, href⟩
        · exact .inr ⟨y, List.mem_cons_of_mem n hy, href⟩

theorem DepictsAll.held : ∀ {items : List Json} {values : List Value} {nodes : List NodeId},
    w.DepictsAll items values nodes → ∀ x ∈ nodes,
    x ∈ Value.allNodes values ∨ ∃ y ∈ nodes, x ∈ references (w.cell y)
  | _, _, _, .nil, _, hx => (List.not_mem_nil hx).elim
  | _, _, _, .cons h h', x, hx => by
      rcases List.mem_append.mp hx with hx | hx
      · exact (h.held x hx).imp (List.mem_append_left _) fun ⟨y, hy, href⟩ =>
          ⟨y, List.mem_append_left _ hy, href⟩
      · exact (h'.held x hx).imp (List.mem_append_right _) fun ⟨y, hy, href⟩ =>
          ⟨y, List.mem_append_right _ hy, href⟩

theorem DepictsMembers.held : ∀ {members : List (String × Json)} {entries : Entries Value}
    {nodes : List NodeId}, w.DepictsMembers members entries nodes → ∀ x ∈ nodes,
    (x ∈ entries.flatMap fun p => p.2.nodes) ∨ ∃ y ∈ nodes, x ∈ references (w.cell y)
  | _, _, _, .nil, _, hx => (List.not_mem_nil hx).elim
  | _, _, _, .cons h _ h', x, hx => by
      rw [List.flatMap_cons]
      rcases List.mem_append.mp hx with hx | hx
      · exact (h.held x hx).imp (List.mem_append_left _) fun ⟨y, hy, href⟩ =>
          ⟨y, List.mem_append_left _ hy, href⟩
      · exact (h'.held x hx).imp (List.mem_append_right _) fun ⟨y, hy, href⟩ =>
          ⟨y, List.mem_append_right _ hy, href⟩

end

/-! ## Received mappings -/

/-- Adding entries does not name a node that was there. -/
theorem Adds.name {n x : NodeId} {entries : Entries Value} {nodes : List NodeId}
    (h : Adds v v' n entries nodes) (hx : x.index < v.cells.size) :
    (v'.cell x).name = (v.cell x).name := by
  by_cases hxn : x = n
  · rw [hxn, h.cell]
  · rw [h.frame x hx hxn]

/-- From `v` to `v'` a node has received the members of a mapping: their entries were added to it,
and a new node has the node that holds it for a parent. The parents of the old nodes stay. -/
structure Receives (v v' : World) (n : NodeId) (members : List (String × Json))
    (fresh : Entries Value) (nodes : List NodeId) : Prop where
  adds : Adds v v' n fresh nodes
  depicts : v'.DepictsMembers members fresh nodes
  kept : ∀ x : NodeId, x.index < v.cells.size → v'.parent? x = v.parent? x
  entry : ∀ x ∈ fresh.flatMap fun p => p.2.nodes, v'.parent? x = some n
  inside : ∀ y ∈ nodes, ∀ x ∈ references (v'.cell y), v'.parent? x = some y

theorem mem_zip_iff_eq {nodes nodes' : List NodeId} (hnodes : nodes.Nodup) (hnodes' : nodes'.Nodup)
    {x y x' y' : NodeId} (h : (x, y) ∈ nodes.zip nodes') (h' : (x', y') ∈ nodes.zip nodes') :
    x = x' ↔ y = y' := by
  obtain ⟨i, hi, heq⟩ := List.mem_iff_getElem.mp h
  obtain ⟨j, hj, heq'⟩ := List.mem_iff_getElem.mp h'
  rw [List.getElem_zip, Prod.mk.injEq] at heq heq'
  obtain ⟨rfl, rfl⟩ := heq
  obtain ⟨rfl, rfl⟩ := heq'
  rw [hnodes.getElem_inj_iff, hnodes'.getElem_inj_iff]

theorem exists_mem_zip {nodes nodes' : List NodeId} (hlength : nodes.length = nodes'.length)
    {x : NodeId} (hx : x ∈ nodes) : ∃ y, (x, y) ∈ nodes.zip nodes' := by
  obtain ⟨i, hi, rfl⟩ := List.mem_iff_getElem.mp hx
  have hlt : i < (nodes.zip nodes').length := by
    rw [List.length_zip]
    omega
  refine ⟨nodes'[i], List.mem_iff_getElem.mpr ⟨i, hlt, List.getElem_zip⟩⟩

section Receiving

variable {n m : NodeId} {members : List (String × Json)} {fresh fresh' : Entries Value}
  {nodes nodes' : List NodeId}

/-- The pairs of old nodes, and those of the new ones in order. -/
def Extended (R : NodeId → NodeId → Prop) (nodes nodes' : List NodeId) (x y : NodeId) : Prop :=
  R x y ∨ (x, y) ∈ nodes.zip nodes'

variable (h : Receives v v' n members fresh nodes) (h' : Receives w w' m members fresh' nodes')
  (hagree : Agree v' w' fresh fresh' nodes nodes') (halike : v.Alike w R) (hreceivers : R n m)

include h h' halike in
/-- New nodes are paired with new ones only. -/
theorem Extended.unique {x y x' y' : NodeId} (hxy : Extended R nodes nodes' x y)
    (hxy' : Extended R nodes nodes' x' y') : x = x' ↔ y = y' := by
  have hold : ∀ {x y}, R x y → x.index < v.cells.size ∧ y.index < w.cells.size := halike.range
  have hnew : ∀ {x y}, (x, y) ∈ nodes.zip nodes' →
      v.cells.size ≤ x.index ∧ w.cells.size ≤ y.index := fun hp =>
    ⟨(h.adds.range _ (List.of_mem_zip hp).1).1, (h'.adds.range _ (List.of_mem_zip hp).2).1⟩
  rcases hxy with hxy | hxy <;> rcases hxy' with hxy' | hxy'
  · exact halike.unique hxy hxy'
  · have hlt := hold hxy
    have hle := hnew hxy'
    constructor <;> rintro rfl <;> omega
  · have hle := hnew hxy
    have hlt := hold hxy'
    constructor <;> rintro rfl <;> omega
  · exact mem_zip_iff_eq h.adds.distinct h'.adds.distinct hxy hxy'

include h h' hagree halike hreceivers in
theorem Extended.entries {x y : NodeId} (hxy : Extended R nodes nodes' x y) :
    Entries.Like (Extended R nodes nodes') (v'.cell x).entries (w'.cell y).entries := by
  obtain ⟨hfresh, hpairs⟩ := hagree.2 (R := Extended R nodes nodes') fun p hp => .inr hp
  rcases hxy with hxy | hxy
  · have hlike : Entries.Like (Extended R nodes nodes') (v.cell x).entries (w.cell y).entries :=
      (halike.entries hxy).mono fun _ _ => .inl
    obtain ⟨hx, hy⟩ := halike.range hxy
    by_cases hreceiver : x = n
    · obtain rfl := (halike.unique hxy hreceivers).mp hreceiver
      rw [hreceiver, h.adds.cell, h'.adds.cell]
      rw [hreceiver] at hlike
      exact hlike.append hfresh
    · have hother : y ≠ m := fun heq => hreceiver ((halike.unique hxy hreceivers).mpr heq)
      rwa [h.adds.frame x hx hreceiver, h'.adds.frame y hy hother]
  · exact (hpairs _ hxy).1

include h h' hagree halike hreceivers in
/-- The parents of a pair of new nodes are a pair. -/
theorem Extended.exists_parents {x y : NodeId} (hxy : (x, y) ∈ nodes.zip nodes') :
    ∃ p q, Extended R nodes nodes' p q ∧ v'.parent? x = some p ∧ w'.parent? y = some q := by
  -- What holds the first node of the pair is paired with a node that holds the second one.
  have hunique : ∀ {y'}, Extended R nodes nodes' x y' → y' = y := fun hxy' =>
    (Extended.unique h h' halike hxy' (.inr hxy)).mp rfl
  rcases h.depicts.held x (List.of_mem_zip hxy).1 with hx | ⟨p, hp, hx⟩
  · obtain ⟨hfresh, -⟩ := hagree.2 (R := Extended R nodes nodes') fun p hp => .inr hp
    obtain ⟨y', hy', hxy'⟩ := hfresh.exists_right hx
    rw [hunique hxy'] at hy'
    exact ⟨n, m, .inl hreceivers, h.entry x hx, h'.entry y hy'⟩
  · obtain ⟨q, hpq⟩ := exists_mem_zip hagree.1 hp
    have hlike := Extended.entries h h' hagree halike hreceivers (.inr hpq)
    obtain ⟨y', hy', hxy'⟩ := hlike.exists_right hx
    rw [hunique hxy'] at hy'
    exact ⟨p, q, .inr hpq, h.inside p hp x hx, h'.inside q (List.of_mem_zip hpq).2 y hy'⟩

end Receiving

/-- Nodes that hold the same tree and receive the same mapping hold the same tree afterwards. -/
theorem Receives.sameTree {n m : NodeId} {members : List (String × Json)}
    {fresh fresh' : Entries Value} {nodes nodes' : List NodeId} (hv : v.Closed) (hw : w.Closed)
    (hnested : Json.MembersNested members) (h : Receives v v' n members fresh nodes)
    (h' : Receives w w' m members fresh' nodes') (hsame : v.SameTree n w m) :
    v'.SameTree n w' m := by
  obtain ⟨R, halike, hreceivers⟩ := hsame
  have hagree := h.depicts.agree hnested h'.depicts
  refine ⟨Extended R nodes nodes', ⟨?range, Extended.unique h h' halike,
    Extended.entries h h' hagree halike hreceivers, ?name, ?parent⟩, .inl hreceivers⟩
  case range =>
    rintro x y (hxy | hxy)
    · obtain ⟨hx, hy⟩ := halike.range hxy
      exact ⟨Nat.lt_of_lt_of_le hx h.adds.size, Nat.lt_of_lt_of_le hy h'.adds.size⟩
    · exact ⟨(h.adds.range x (List.of_mem_zip hxy).1).2,
        (h'.adds.range y (List.of_mem_zip hxy).2).2⟩
  case name =>
    rintro x y (hxy | hxy)
    · obtain ⟨hx, hy⟩ := halike.range hxy
      rw [h.adds.name hx, h'.adds.name hy]
      exact halike.name hxy
    · obtain ⟨-, hpairs⟩ := hagree.2 (R := Extended R nodes nodes') fun p hp => .inr hp
      exact (hpairs _ hxy).2
  case parent =>
    rintro x y x' y' (hxy | hxy) hxy'
    · obtain ⟨hx, hy⟩ := halike.range hxy
      rw [h.kept x hx, h'.kept y hy]
      rcases hxy' with hxy' | hxy'
      · exact halike.parent hxy hxy'
      · -- The parents of old nodes are old.
        have hnew := (h.adds.range x' (List.of_mem_zip hxy').1).1
        have hnew' := (h'.adds.range y' (List.of_mem_zip hxy').2).1
        constructor
        · intro hparent
          have hlt := hv.parents x x' (parent_of_parent? hparent).1
          omega
        · intro hparent
          have hlt := hw.parents y y' (parent_of_parent? hparent).1
          omega
    · obtain ⟨p, q, hpq, hp, hq⟩ := Extended.exists_parents h h' hagree halike hreceivers hxy
      rw [hp, hq, Option.some.injEq, Option.some.injEq]
      exact Extended.unique h h' halike hpq hxy'

/-! ## Mappings that are merged -/

mutual

/-- Only the entries and the names of the nodes count. -/
theorem Depicts.transfer : ∀ {json : Json} {value : Value} {nodes : List NodeId},
    w.Depicts json value nodes →
    (∀ m ∈ nodes, (w'.cell m).entries = (w.cell m).entries ∧
      (w'.cell m).name = (w.cell m).name) → w'.Depicts json value nodes
  | _, _, _, .null, _ => .null
  | _, _, _, .bool b, _ => .bool b
  | _, _, _, .number n, _ => .number n
  | _, _, _, .text s, _ => .text s
  | _, _, _, .array h, hsame => .array (h.transfer hsame)
  | _, .node n, _, .object h, hsame => by
      refine .object ?_
      rw [(hsame n List.mem_cons_self).1]
      exact h.transfer fun m hm => hsame m (List.mem_cons_of_mem n hm)

theorem DepictsAll.transfer : ∀ {items : List Json} {values : List Value} {nodes : List NodeId},
    w.DepictsAll items values nodes →
    (∀ m ∈ nodes, (w'.cell m).entries = (w.cell m).entries ∧
      (w'.cell m).name = (w.cell m).name) → w'.DepictsAll items values nodes
  | _, _, _, .nil, _ => .nil
  | _, _, _, .cons h h', hsame =>
      .cons (h.transfer fun m hm => hsame m (List.mem_append_left _ hm))
        (h'.transfer fun m hm => hsame m (List.mem_append_right _ hm))

theorem DepictsMembers.transfer : ∀ {members : List (String × Json)} {entries : Entries Value}
    {nodes : List NodeId}, w.DepictsMembers members entries nodes →
    (∀ m ∈ nodes, (w'.cell m).entries = (w.cell m).entries ∧
      (w'.cell m).name = (w.cell m).name) → w'.DepictsMembers members entries nodes
  | _, _, _, .nil, _ => .nil
  | _, _, _, .cons h hname h', hsame => by
      refine .cons (h.transfer fun m hm => hsame m (List.mem_append_left _ hm)) ?_
        (h'.transfer fun m hm => hsame m (List.mem_append_right _ hm))
      intro r hr
      rw [(hsame r (List.mem_append_left _ (h.mem_of_node hr))).2]
      exact hname r hr

end

/-- Some members are depicted by the entries under their keys. -/
theorem DepictsMembers.filter {members : List (String × Json)} {entries : Entries Value}
    {nodes : List NodeId} (h : w.DepictsMembers members entries nodes) (keep : String → Bool) :
    ∃ kept, w.DepictsMembers (members.filter fun p => keep p.1) (entries.filter fun p => keep p.1)
      kept ∧ kept.Sublist nodes := by
  induction members generalizing entries nodes with
  | nil =>
      cases h
      exact ⟨[], .nil, .slnil⟩
  | cons p rest ih =>
      cases h with
      | @cons key _ _ _ _ first _ hvalue hname hrest =>
          obtain ⟨kept, hdepicts, hsub⟩ := ih hrest
          rw [List.filter_cons, List.filter_cons]
          by_cases hkey : keep key = true
          · rw [if_pos hkey, if_pos hkey]
            exact ⟨first ++ kept, .cons hvalue hname hdepicts, .append (.refl _) hsub⟩
          · rw [if_neg hkey, if_neg hkey]
            exact ⟨kept, hdepicts, .trans hsub (List.sublist_append_right first _)⟩

section Merging

variable {u : World} {n item : NodeId} {members : List (String × Json)} {nodes : List NodeId}

/-- What is merged into a node leaves the other old nodes alone. -/
theorem Linked.cell_merge_old (h : w.Linked u) (hitem : item.index = w.cells.size) {m : NodeId}
    (hm : m.index < w.cells.size) (hmn : m ≠ n) :
    (u.merge n (u.cell item).entries).cell m = w.cell m := by
  rw [cell_merge_of_ne hmn.symm, h.old m hm]
  intro p hp heq
  have href : m ∈ World.references (u.cell item) :=
    List.mem_flatMap.mpr ⟨p, hp, by rw [heq]; exact List.mem_cons_self⟩
  have hafter := (h.references item (Nat.le_of_eq hitem.symm) m href).1
  omega

/-- The merge of a mapping that was loaded adds entries that refer to new nodes only. -/
theorem Linked.extends_merge (h : w.Linked u) (hc : w.Continues u) (hn : n.index < w.cells.size)
    (hclosed : w.Closed) (hitem : item.index = w.cells.size) :
    w.Extends (u.merge n (u.cell item).entries) := by
  have hjoined := h.joined hc hclosed hn hitem
  have hmerged := hc.trans (continues_merge u n (u.cell item).entries)
  have hnew : w.cells.size ≤ item.index := Nat.le_of_eq hitem.symm
  refine ⟨hjoined.size, fun m hm => ?_, fun m hm r hr => ?_, hmerged.engine, hmerged.files,
    hmerged.loading, hmerged.static, hmerged.frames, hmerged.held⟩
  · by_cases hmn : m = n
    · subst hmn
      refine ⟨u.added m (u.cell item).entries, ?_, fun p hp => ?_⟩
      · rw [cell_merge_self (Nat.lt_of_lt_of_le hn h.size) (h.keys item hnew), h.old m hn]
      · obtain ⟨hp, hkeep⟩ := List.mem_filter.mp hp
        rw [Bool.and_eq_true, Bool.not_eq_true'] at hkeep
        refine ⟨hkeep.1, fun r hr => ?_⟩
        obtain ⟨hafter, hrange, -⟩ :=
          h.references item hnew r (List.mem_flatMap.mpr ⟨p, hp, hr⟩)
        rw [size_merge]
        omega
    · refine ⟨[], ?_, fun p hp => (List.not_mem_nil hp).elim⟩
      rw [List.append_nil, h.cell_merge_old hitem hm hmn]
  · obtain ⟨hafter, hrange, -⟩ := hjoined.new m hm r hr
    omega

/-- The only node that a value of a mapping refers to is the value itself. -/
theorem DepictsMembers.node_of_mem {entries : Entries Value} (hnested : Json.MembersNested members)
    (h : w.DepictsMembers members entries nodes) {p : String × Value} (hp : p ∈ entries)
    {x : NodeId} (hx : x ∈ p.2.nodes) : p.2 = .node x := by
  induction members generalizing entries nodes with
  | nil =>
      cases h
      cases hp
  | cons q rest ih =>
      rw [Json.MembersNested] at hnested
      obtain ⟨-, -, hmember, hothers⟩ := hnested
      cases h with
      | cons hvalue _ hrest =>
          rcases List.mem_cons.mp hp with rfl | hp
          · cases hvalue with
            | array _ =>
                rw [Json.Nested] at hmember
                exact hmember.elim
            | object _ => exact congrArg Value.node (List.mem_singleton.mp hx).symm
            | _ => cases hx
          · exact ih hothers hrest hp

/-- A loaded mapping that is merged into a node is received by the node, without the members under
keys that the node holds. -/
theorem Depicted.receives (h : Depicted w u (.object members) (.node item) nodes)
    (hlinked : w.Linked u) (hc : w.Continues u) (hclosed : w.Closed) (halive : w.alive n = true)
    (hitem : item.index = w.cells.size) (hnested : Json.MembersNested members) :
    ∃ fresh kept, Receives w (u.merge n (u.cell item).entries) n
      (members.filter fun p => !w.containsKey n p.1) fresh kept := by
  have hn := lt_size_of_alive hclosed halive
  have hjoined := hlinked.joined hc hclosed hn hitem
  have hnew : w.cells.size ≤ item.index := Nat.le_of_eq hitem.symm
  have hself := cell_merge_self (Nat.lt_of_lt_of_le hn hlinked.size) (hlinked.keys item hnew)
  rw [hlinked.old n hn] at hself
  have hlive := alive_mono hjoined.holders hjoined.size hjoined.kept halive
  have hdepicts := h.depicts
  cases hdepicts with
  | @object _ _ inner hmembers =>
      -- No key is an instruction, so only those that the node holds are passed over.
      have hadded : u.added n (u.cell item).entries =
          (u.cell item).entries.filter fun p => !w.containsKey n p.1 := by
        refine List.filter_congr fun p hp => ?_
        have hkey : p.1 ∈ Entries.keys members := by
          rw [← hmembers.keys_eq]
          exact List.mem_map_of_mem hp
        obtain ⟨q, hq, hpq⟩ := List.mem_map.mp hkey
        rw [← hpq, (hnested.of_mem hq).1, containsKey, hlinked.old n hn]
        rfl
      obtain ⟨kept, hkept, hsub⟩ := hmembers.filter fun key => !w.containsKey n key
      rw [← hadded] at hkept
      have hne : ∀ m ∈ inner, n ≠ m := fun m hm => h.ne hn (List.mem_cons_of_mem item hm)
      have hsame : ∀ m ∈ inner,
          ((u.merge n (u.cell item).entries).cell m).entries = (u.cell m).entries ∧
            ((u.merge n (u.cell item).entries).cell m).name = (u.cell m).name := by
        intro m hm
        refine ⟨entries_merge_of_ne (hne m hm) _, ?_⟩
        by_cases hentry : ∃ key, (key, .node m) ∈ (u.cell item).entries
        · obtain ⟨key, hentry⟩ := hentry
          have hname := hmembers.name_eq hentry
          rw [name_merge_of_some hname, hname]
        · rw [cell_merge_of_ne (hne m hm)]
          intro p hp heq
          exact hentry ⟨p.1, heq ▸ hp⟩
      have hreceived := hkept.transfer fun m hm => hsame m (hsub.subset hm)
      have hrange : ∀ m ∈ kept, m ∈ item :: inner := fun m hm =>
        List.mem_cons_of_mem item (hsub.subset hm)
      refine ⟨_, kept, ⟨hself, ?distinct, ?range, ?size, ?frame⟩, hreceived, ?old, ?entry, ?inside⟩
      case distinct => exact (List.nodup_cons.mp h.distinct).2.sublist hsub
      case range =>
        rw [size_merge]
        exact fun m hm => h.range m (hrange m hm)
      case size => exact hjoined.size
      case frame => exact fun m hm hmn => hlinked.cell_merge_old hitem hm hmn
      case old =>
        exact fun x hx => (hlinked.extends_merge hc hn hclosed hitem).parent?_eq hclosed hx
      case entry =>
        intro x hx
        obtain ⟨p, hp, hx⟩ := List.mem_flatMap.mp hx
        obtain ⟨hin, hfree⟩ := List.mem_filter.mp hp
        have hvalue := hmembers.node_of_mem hnested hin hx
        have hold : (p.1, .node x) ∉ (w.cell n).entries := by
          intro hmem
          have hheld : w.containsKey n p.1 = true :=
            (Entries.contains_iff_mem_keys _ _).mpr (List.mem_map.mpr ⟨_, hmem, rfl⟩)
          rw [containsKey, hlinked.old n hn, ← containsKey, hheld, Bool.not_true,
            Bool.and_false] at hfree
          cases hfree
        have hmem : (p.1, .node x) ∈
            ((u.merge n (u.cell item).entries).cell n).entries := by
          rw [hself, ← hvalue]
          exact List.mem_append_right _ hp
        exact parent?_of_parent (hjoined.entry p.1 x hmem hold).2.2 hlive
      case inside =>
        intro y hy x hx
        have hitem' : y ≠ item := by
          rintro rfl
          exact (List.nodup_cons.mp h.distinct).1 (hsub.subset hy)
        obtain ⟨r, hr, hbelow⟩ := hreceived.below_of_mem y hy
        have href : r ∈ references ((u.merge n (u.cell item).entries).cell n) := by
          rw [references, hself, List.flatMap_append]
          exact List.mem_append_right _ hr
        have hylive := alive_of_below hjoined.range (.head href hbelow) hlive
        exact parent?_of_parent
          ((hjoined.new y (h.range y (hrange y hy)).1 x hx).2.2 hitem') hylive

end Merging

end World

end ScriptTree
