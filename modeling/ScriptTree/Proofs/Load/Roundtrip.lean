import ScriptTree.Proofs.Json.Equality
import ScriptTree.Proofs.Load.Receipt
import ScriptTree.Proofs.World.Snapshot

/-!
# Snapshots that are loaded again

The snapshot of a plain node is the text of a form without null, empty texts and empty lists for
members. A fresh node loads it, and its own snapshot is the same text exactly when no member of the
form is an empty object (`NodeId.reload_snapshot`): an entry is left out for what is stored in it,
and a node whose entries are all left out is stored as a node with entries.
-/

set_option autoImplicit false

namespace ScriptTree

namespace Json

/-! ## Forms that are loaded -/

mutual

theorem Legible.proper : ∀ {json : Json}, json.Legible → json.Proper
  | .array _, h => by
      rw [Legible] at h
      rw [Proper]
      exact AllLegible.allProper h
  | .object _, h => by
      rw [Legible] at h
      rw [Proper]
      exact ⟨h.1, MembersLegible.membersProper h.2⟩
  | .null, _ | .bool _, _ | .number _, _ | .text _, _ => by simp only [Proper]

theorem AllLegible.allProper : ∀ {items : List Json}, AllLegible items → AllProper items
  | [], _ => trivial
  | _ :: _, h => by
      rw [AllLegible] at h
      rw [AllProper]
      exact ⟨h.1.proper, AllLegible.allProper h.2⟩

theorem MembersLegible.membersProper : ∀ {members : List (String × Json)},
    MembersLegible members → MembersProper members
  | [], _ => trivial
  | (_, _) :: _, h => by
      rw [MembersLegible] at h
      rw [MembersProper]
      exact ⟨h.2.1.proper, MembersLegible.membersProper h.2.2⟩

end

mutual

theorem Bare.uninstructed : ∀ {json : Json}, json.Bare → json.uninstructed = true
  | .array _, h => by
      rw [Bare] at h
      rw [Json.uninstructed]
      exact AllBare.allUninstructed h
  | .object _, h => by
      rw [Bare] at h
      rw [Json.uninstructed]
      exact MembersBare.membersUninstructed h
  | .null, _ | .bool _, _ | .number _, _ | .text _, _ => by simp only [Json.uninstructed]

theorem AllBare.allUninstructed : ∀ {items : List Json}, AllBare items →
    Json.allUninstructed items = true
  | [], _ => rfl
  | _ :: _, h => by
      rw [AllBare] at h
      rw [Json.allUninstructed, h.1.uninstructed, AllBare.allUninstructed h.2]
      rfl

theorem MembersBare.membersUninstructed : ∀ {members : List (String × Json)},
    MembersBare members → Json.membersUninstructed members = true
  | [], _ => rfl
  | (key, _) :: _, h => by
      rw [MembersBare] at h
      have hkey : key ∉ NodeId.instructionKeys := fun hmem =>
        Bool.false_ne_true (h.1.symm.trans (isDirectiveKey_of_mem_instructionKeys hmem))
      rw [Json.membersUninstructed, List.contains_eq_mem, decide_eq_false hkey,
        h.2.1.uninstructed, MembersBare.membersUninstructed h.2.2]
      rfl

end

mutual

theorem Bare.pruned : ∀ {json : Json}, json.Bare → json.pruned.Bare
  | .array _, h => by
      rw [Bare] at h
      rw [Json.pruned, Bare]
      exact AllBare.pruned h
  | .object _, h => by
      rw [Bare] at h
      rw [Json.pruned, Bare]
      exact MembersBare.pruned h
  | .null, h | .bool _, h | .number _, h | .text _, h => by
      rw [Json.pruned]
      · exact h
      all_goals exact fun _ heq => nomatch heq

theorem AllBare.pruned : ∀ {items : List Json}, AllBare items → AllBare (prunedAll items)
  | [], h => h
  | _ :: _, h => by
      rw [AllBare] at h
      rw [prunedAll, AllBare]
      exact ⟨h.1.pruned, AllBare.pruned h.2⟩

theorem MembersBare.pruned : ∀ {members : List (String × Json)}, MembersBare members →
    MembersBare (prunedMembers members)
  | [], h => h
  | (_, _) :: _, h => by
      rw [MembersBare] at h
      rw [prunedMembers_cons]
      split
      · exact MembersBare.pruned h.2.2
      · rw [MembersBare]
        exact ⟨h.1, h.2.1.pruned, MembersBare.pruned h.2.2⟩

end

theorem MembersBare.of_mem {members : List (String × Json)} (h : MembersBare members)
    {p : String × Json} (hp : p ∈ members) : NodeId.isDirectiveKey p.1 = false := by
  induction members with
  | nil => cases hp
  | cons q rest ih =>
      rw [MembersBare] at h
      rcases List.mem_cons.mp hp with rfl | hp
      · exact h.1
      · exact ih h.2.2 hp

end Json

namespace World

variable {w w' : World}

/-! ## Depictions as forms -/

mutual

/-- What depicts a JSON value has it for a form where the nodes have the same entries. -/
theorem Depicts.shows : ∀ {json : Json} {value : Value} {nodes : List NodeId},
    w.Depicts json value nodes → (∀ m ∈ nodes, (w'.cell m).entries = (w.cell m).entries) →
    w'.Shows value json
  | _, _, _, .null, _ => .null
  | _, _, _, .bool b, _ => .bool b
  | _, _, _, .number n, _ => .number n
  | _, _, _, .text s, _ => .text s
  | _, _, _, .array h, hsame => .list (h.shows hsame)
  | _, .node n, _, .object h, hsame => by
      refine .node ?_
      rw [hsame n List.mem_cons_self]
      exact h.shows fun m hm => hsame m (List.mem_cons_of_mem n hm)

theorem DepictsAll.shows : ∀ {items : List Json} {values : List Value} {nodes : List NodeId},
    w.DepictsAll items values nodes →
    (∀ m ∈ nodes, (w'.cell m).entries = (w.cell m).entries) → w'.ShowsAll values items
  | _, _, _, .nil, _ => .nil
  | _, _, _, .cons h hrest, hsame =>
      .cons (h.shows fun m hm => hsame m (List.mem_append_left _ hm))
        (hrest.shows fun m hm => hsame m (List.mem_append_right _ hm))

theorem DepictsMembers.shows : ∀ {members : List (String × Json)} {entries : Entries Value}
    {nodes : List NodeId}, w.DepictsMembers members entries nodes →
    (∀ m ∈ nodes, (w'.cell m).entries = (w.cell m).entries) → w'.ShowsMembers entries members
  | _, _, _, .nil, _ => .nil
  | _, _, _, .cons h _ hrest, hsame =>
      .cons (h.shows fun m hm => hsame m (List.mem_append_left _ hm))
        (hrest.shows fun m hm => hsame m (List.mem_append_right _ hm))

end

end World

namespace NodeId

variable (lang : Language) {w u : World} {n m : NodeId}

/-! ## Loading into a fresh node -/

/-- A fresh node that a literal without instructions is loaded into has the literal for its form. -/
theorem appendJson_shows {text : String} {members : List (String × Json)}
    (hm : m.index < u.cells.size) (hfresh : (u.cell m).entries = [])
    (hread : Json.readLenient? text = some (.object members)) (hbare : Json.MembersBare members)
    (hproper : (Json.object members).Proper) :
    ∃ u', m.appendJson (introspect lang) text u = (.done (), u') ∧
      u'.Shows (.node m) (.object members) := by
  have huninstructed : (Json.object members).uninstructed = true := by
    rw [Json.uninstructed]
    exact hbare.membersUninstructed
  obtain ⟨item, u₁, nodes, hrun, hdepicted, -⟩ :=
    newChild_depicts lang hm hread huninstructed hproper
  refine ⟨u₁.merge m (u₁.cell item).entries, ?_, .node ?_⟩
  · rw [appendJson, Action.bind_apply, hrun]
    rfl
  obtain ⟨hdepicts, -, hrange, hsize, hframe, -⟩ := hdepicted
  cases hdepicts with
  | @object _ _ nodes hmembers =>
      rw [Json.Proper] at hproper
      have hkeys : (u₁.cell item).entries.keys = Entries.keys members := hmembers.keys_eq
      have hempty : (u₁.cell m).entries = [] := by rw [hframe m hm, hfresh]
      -- No entry is passed over, and the node had none.
      have hall : u₁.added m (u₁.cell item).entries = (u₁.cell item).entries := by
        refine List.filter_eq_self.mpr fun p hp => ?_
        have hkey : p.1 ∈ Entries.keys members := by
          rw [← hkeys]
          exact List.mem_map_of_mem hp
        obtain ⟨q, hq, hsame⟩ := List.mem_map.mp hkey
        rw [World.containsKey, hempty, ← hsame, hbare.of_mem hq]
        rfl
      have hdistinct : (u₁.cell item).entries.keys.Nodup := by
        rw [hkeys]
        exact hproper.1
      rw [World.cell_merge_self (Nat.lt_of_lt_of_le hm hsize) hdistinct, hempty, hall]
      refine hmembers.shows fun x hx => World.entries_merge_of_ne ?_ _
      -- The nodes of the literal are new.
      rintro rfl
      exact absurd (hrange _ (List.mem_cons_of_mem item hx)).1 (Nat.not_le.mpr hm)

/-- The snapshot of a plain node is the text of a form without members that are null, an empty text
or an empty list. A member is an empty object exactly when the node is hollow. A fresh node loads the
text, and has the same text for its snapshot exactly when the node is not hollow. -/
theorem reload_snapshot (hclosed : w.Closed) (hplain : w.PlainBelow n)
    (hm : m.index < u.cells.size) (hfresh : (u.cell m).entries = []) : ∃ json u',
      w.snapshotText n = json.pretty ∧ Json.readLenient? (w.snapshotText n) = some json ∧
      (¬ json.HasMember fun member => member = .null ∨ member = .text "" ∨ member = .array []) ∧
      (json.HasMember (fun member => member = .object []) ↔ w.Hollow n) ∧
      m.appendJson (introspect lang) (w.snapshotText n) u = (.done (), u') ∧
      (u'.snapshotText m = w.snapshotText n ↔ ¬ w.Hollow n) := by
  obtain ⟨form, hshows, hlegible, hbare⟩ := World.presents_of_plainBelow hclosed hplain
  have htext : w.snapshotText n = form.pruned.pretty := by
    rw [World.snapshotText, hshows.snapshot_eq]
  have hread : Json.readLenient? (w.snapshotText n) = some form.pruned := by
    rw [htext]
    exact Json.readLenient?_pretty hlegible.pruned
  obtain ⟨members, hmembers⟩ : ∃ members, form.pruned = .object members := by
    cases hshows
    rw [Json.pruned]
    exact ⟨_, rfl⟩
  have hkeys : Json.MembersBare members := by
    have h := hbare.pruned
    rwa [hmembers, Json.Bare] at h
  obtain ⟨u', hrun, hloaded⟩ := appendJson_shows lang hm hfresh (hmembers ▸ hread) hkeys
    (hmembers ▸ hlegible.pruned.proper)
  refine ⟨form.pruned, u', htext, hread, Json.not_hasMember_pruned form, ?_, hrun, ?_⟩
  · rw [Json.hasMember_pruned_empty, hshows.hasMember_hollow_iff]
  · have hagain : u'.snapshotText m = form.pruned.pruned.pretty := by
      rw [World.snapshotText, hloaded.snapshot_eq, hmembers]
    rw [← hshows.hasMember_hollow_iff, ← Json.pruned_pruned_iff, hagain, htext]
    exact ⟨Json.eq_of_pretty_eq hlegible.pruned.pruned hlegible.pruned, congrArg Json.pretty⟩

end NodeId

/-! ## A node around a node with one entry -/

namespace World

/-- A node with a list and a node that has one entry, empty or not, and a fresh node. -/
def wrapped (full : Bool) : World :=
  let w := ((lone.create true).2.create true).2
  let w := (w.put ⟨1⟩ "l" (.list [.null])).put ⟨1⟩ "d" (.node ⟨3⟩)
  w.put ⟨3⟩ "e" (if full then .number (Number.ofNat 1) else .null)

theorem closed_wrapped (full : Bool) : (wrapped full).Closed := by
  have hnodes := (closed_lone.create true).create true
  have hlist := @Closed.put _ hnodes ⟨1⟩ (by decide) "l" (.list [.null]) (by decide)
  have hinner := @Closed.put _ hlist ⟨1⟩ (by decide) "d" (.node ⟨3⟩) (by decide)
  have hentry := @Closed.put _ hinner ⟨3⟩ (by decide) "e"
    (if full then .number (Number.ofNat 1) else .null)
  cases full
  · exact hentry (by decide)
  · exact hentry (by decide)

theorem entries_wrapped (full : Bool) :
    ((wrapped full).cell ⟨1⟩).entries = [("l", .list [.null]), ("d", .node ⟨3⟩)] ∧
      ((wrapped full).cell ⟨3⟩).entries =
        [("e", if full then .number (Number.ofNat 1) else .null)] := by
  cases full <;> exact ⟨rfl, rfl⟩

theorem under_wrapped {full : Bool} {x y : NodeId} (h : (wrapped full).Under x y)
    (hx : x = ⟨1⟩ ∨ x = ⟨3⟩) : x = ⟨1⟩ ∧ y = ⟨3⟩ := by
  have hedge : ∀ {x y}, x = ⟨1⟩ ∨ x = ⟨3⟩ → y ∈ references ((wrapped full).cell x) →
      x = ⟨1⟩ ∧ y = ⟨3⟩ := by
    rintro x y (rfl | rfl) hy
    · rw [references, (entries_wrapped full).1] at hy
      exact ⟨rfl, List.mem_singleton.mp hy⟩
    · rw [references, (entries_wrapped full).2] at hy
      cases full <;> cases hy
  induction h with
  | single hy => exact hedge hx hy
  | tail _ hz ih =>
      obtain ⟨hfirst, rfl⟩ := ih
      exact ⟨hfirst, (hedge (.inr rfl) hz).2⟩

theorem below_wrapped {full : Bool} {x : NodeId} (h : (wrapped full).Below ⟨1⟩ x) :
    x = ⟨1⟩ ∨ x = ⟨3⟩ := by
  rcases Relation.reflTransGen_iff_eq_or_transGen.mp h with heq | hunder
  · exact .inl heq
  · exact .inr (under_wrapped hunder (.inl rfl)).2

theorem plainBelow_wrapped (full : Bool) : (wrapped full).PlainBelow ⟨1⟩ := by
  obtain ⟨houter, hinner⟩ := entries_wrapped full
  refine ⟨fun x hx p hp => ?_, fun x hx => ?_, fun x hx hback => ?_⟩
  · rcases below_wrapped hx with rfl | rfl
    · rw [houter] at hp
      rcases List.mem_pair.mp hp with rfl | rfl
      · exact ⟨trivial, trivial⟩
      · trivial
    · rw [hinner] at hp
      rw [List.mem_singleton.mp hp]
      cases full
      · trivial
      · show Json.readLenient? _ = _
        decide +kernel
  · rcases below_wrapped hx with rfl | rfl
    · rw [houter]
      refine ⟨by decide, ?_⟩
      show ∀ p ∈ _, _ ∧ Json.readLenient? _ = _
      decide +kernel
    · rw [hinner]
      refine ⟨List.nodup_singleton "e", fun p hp => ?_⟩
      rw [List.mem_singleton.mp hp]
      show NodeId.isDirectiveKey "e" = false ∧
        Json.readLenient? (Json.text "e").compact = some (.text "e")
      decide +kernel
  · obtain ⟨rfl, hlast⟩ := under_wrapped hback (below_wrapped hx)
    exact absurd hlast (by decide)

theorem not_hollow_wrapped : ¬ (wrapped true).Hollow ⟨1⟩ := by
  rintro ⟨x, key, m, hx, hmem, -, hempty⟩
  obtain ⟨houter, hinner⟩ := entries_wrapped true
  rcases below_wrapped hx with rfl | rfl
  · rw [houter] at hmem
    have hm : m = ⟨3⟩ := by
      rcases List.mem_pair.mp hmem with h | h <;> cases h
      rfl
    rw [hm, hinner] at hempty
    exact absurd (hempty _ List.mem_cons_self) (by decide)
  · rw [hinner] at hmem
    cases List.mem_singleton.mp hmem

end World

theorem NodeId.reload_snapshot_wrapped : ∃ u',
    (⟨2⟩ : NodeId).appendJson (introspect (.ofFuel 0))
        "\x7b\n  \"l\": [\n    null\n  ],\n  \"d\": \x7b\n    \"e\": 1\n  \x7d\n\x7d"
        (World.wrapped true) = (.done (), u') ∧
      u'.snapshotText ⟨2⟩ = (World.wrapped true).snapshotText ⟨1⟩ := by
  obtain ⟨json, u', -, -, -, -, hrun, hagain⟩ := NodeId.reload_snapshot (.ofFuel 0)
    (World.closed_wrapped true) (World.plainBelow_wrapped true) (u := World.wrapped true)
    (m := ⟨2⟩) (by decide) (by decide)
  have htext : (World.wrapped true).snapshotText ⟨1⟩ =
      "\x7b\n  \"l\": [\n    null\n  ],\n  \"d\": \x7b\n    \"e\": 1\n  \x7d\n\x7d" := by
    decide +kernel
  rw [htext] at hrun
  exact ⟨u', hrun, hagain.mpr World.not_hollow_wrapped⟩

/-- A node with a node that holds null has an empty object in its snapshot. Loaded again, the member
is gone. -/
theorem NodeId.reload_snapshot_differs : (World.wrapped false).PlainBelow ⟨1⟩ ∧
    (World.wrapped false).snapshotText ⟨1⟩ =
      "\x7b\n  \"l\": [\n    null\n  ],\n  \"d\": \x7b\x7d\n\x7d" ∧
    ∃ u', (⟨2⟩ : NodeId).appendJson (introspect (.ofFuel 0))
        ((World.wrapped false).snapshotText ⟨1⟩) (World.wrapped false) = (.done (), u') ∧
      u'.snapshotText ⟨2⟩ = "\x7b\n  \"l\": [\n    null\n  ]\n\x7d" := by
  refine ⟨World.plainBelow_wrapped false, by decide +kernel, _,
    Action.eq_done_of_isDone (by decide +kernel), by decide +kernel⟩

end ScriptTree
