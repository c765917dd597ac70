import ScriptTree.Proofs.Load.Depiction
import ScriptTree.Proofs.World.Forest

/-!
# Literals and their rendering

The lenient reader gives values whose objects have distinct keys (`Json.proper_of_readLenient`), so
a literal without instructions is rendered from the node that it was loaded into as it was read,
with a node of its own, linked and named, for each object (`NodeId.newChild_renders`).
-/

set_option autoImplicit false

namespace ScriptTree

/-! ## What the reader gives -/

namespace Json

theorem membersProper_iff {members : List (String × Json)} :
    MembersProper members ↔ ∀ p ∈ members, p.2.Proper := by
  induction members with
  | nil => simp [MembersProper]
  | cons p rest ih => rw [MembersProper, ih, List.forall_mem_cons]

/-- Members that are inserted one by one make up a proper object. -/
theorem proper_ofPairs {members : List (String × Json)} (h : MembersProper members) :
    (Json.object (Entries.ofPairs members)).Proper := by
  suffices hall : ∀ entries : Entries Json, entries.keys.Nodup → MembersProper entries →
      (Entries.keys (members.foldl (fun e p => Entries.insert e p.1 p.2) entries)).Nodup ∧
        MembersProper (members.foldl (fun e p => Entries.insert e p.1 p.2) entries) from
    hall [] List.nodup_nil trivial
  rw [membersProper_iff] at h
  induction members with
  | nil => exact fun entries hkeys hproper => ⟨hkeys, hproper⟩
  | cons p rest ih =>
      intro entries hkeys hproper
      refine ih (fun q hq => h q (List.mem_cons_of_mem p hq)) _
        (Entries.nodup_keys_insert hkeys p.1 p.2) ?_
      rw [membersProper_iff] at hproper ⊢
      intro q hq
      rcases Entries.mem_insert hq with rfl | hold
      · exact h p List.mem_cons_self
      · exact hproper q hold

namespace Lenient

theorem number_of_decimalValue {sign written : List Char} {json : Json}
    (h : decimalValue sign written = some json) : ∃ n, json = .number n := by
  unfold decimalValue at h
  split at h
  · obtain ⟨x, -, h⟩ := Option.bind_eq_some_iff.mp h
    obtain ⟨n, -, rfl⟩ := Option.map_eq_some_iff.mp h
    exact ⟨n, rfl⟩
  · split at h
    · obtain ⟨n, -, rfl⟩ := Option.map_eq_some_iff.mp h
      exact ⟨n, rfl⟩
    · cases h

theorem proper_of_readNumber {s rest : List Char} {json : Json}
    (h : readNumber s = some (json, rest)) : json.Proper := by
  unfold readNumber at h
  split at h
  split at h
  · split at h
    · cases h
    · cases h
      trivial
  · split at h
    · cases h
    · cases h
      trivial
  · dsimp only at h
    rcases ite_eq_iff.mp h with ⟨-, h⟩ | ⟨-, h⟩
    · obtain ⟨⟨written, rest'⟩, -, h⟩ := Option.bind_eq_some_iff.mp h
      obtain ⟨value, hvalue, h⟩ := Option.bind_eq_some_iff.mp h
      obtain ⟨n, rfl⟩ := number_of_decimalValue hvalue
      cases h
      trivial
    · obtain ⟨n, -, h⟩ := Option.bind_eq_some_iff.mp h
      rcases ite_eq_iff.mp h with ⟨-, h⟩ | ⟨-, h⟩
      · obtain ⟨number, -, h⟩ := Option.map_eq_some_iff.mp h
        cases h
        trivial
      · cases h

/-- What the reader gives with that much fuel is proper. -/
structure Reads (fuel : Nat) : Prop where
  value : ∀ {s rest : List Char} {json : Json}, readValue fuel s = some (json, rest) → json.Proper
  items : ∀ {s rest : List Char} {items : List Json}, readItems fuel s = some (items, rest) →
    AllProper items
  members : ∀ {s rest : List Char} {members : List (String × Json)},
    readMembers fuel s = some (members, rest) → MembersProper members

theorem reads (fuel : Nat) : Reads fuel := by
  induction fuel with
  | zero =>
      constructor
      all_goals
        intro _ _ _ h
        cases h
  | succ fuel ih =>
      constructor
      case value =>
        intro s rest json h
        rw [readValue] at h
        obtain ⟨s', -, h⟩ := Option.bind_eq_some_iff.mp h
        split at h
        · obtain ⟨⟨items, rest'⟩, hitems, h⟩ := Option.bind_eq_some_iff.mp h
          cases h
          exact ih.items hitems
        · obtain ⟨⟨members, rest'⟩, hmembers, h⟩ := Option.bind_eq_some_iff.mp h
          cases h
          exact proper_ofPairs (ih.members hmembers)
        · split at h
          · obtain ⟨⟨cs, rest'⟩, -, h⟩ := Option.bind_eq_some_iff.mp h
            cases h
            trivial
          · split at h
            · cases h; trivial
            · cases h; trivial
            · cases h; trivial
            · exact proper_of_readNumber h
        · cases h
      case items =>
        intro s rest items h
        rw [readItems] at h
        obtain ⟨s', -, h⟩ := Option.bind_eq_some_iff.mp h
        split at h
        · cases h
          trivial
        · obtain ⟨⟨item, rest'⟩, hitem, h⟩ := Option.bind_eq_some_iff.mp h
          obtain ⟨s'', -, h⟩ := Option.bind_eq_some_iff.mp h
          split at h
          · obtain ⟨⟨others, rest''⟩, hothers, h⟩ := Option.bind_eq_some_iff.mp h
            cases h
            exact ⟨ih.value hitem, ih.items hothers⟩
          · cases h
            exact ⟨ih.value hitem, trivial⟩
          · cases h
      case members =>
        intro s rest members h
        rw [readMembers] at h
        obtain ⟨s', -, h⟩ := Option.bind_eq_some_iff.mp h
        split at h
        · cases h
          trivial
        · obtain ⟨⟨key, rest'⟩, -, h⟩ := Option.bind_eq_some_iff.mp h
          obtain ⟨s'', -, h⟩ := Option.bind_eq_some_iff.mp h
          split at h
          · obtain ⟨⟨value, rest'⟩, hvalue, h⟩ := Option.bind_eq_some_iff.mp h
            obtain ⟨s'', -, h⟩ := Option.bind_eq_some_iff.mp h
            split at h
            · obtain ⟨⟨others, rest''⟩, hothers, h⟩ := Option.bind_eq_some_iff.mp h
              cases h
              exact ⟨ih.value hvalue, ih.members hothers⟩
            · cases h
              exact ⟨ih.value hvalue, trivial⟩
            · cases h
          · cases h

end Lenient

/-- The keys of every object that the reader gives are distinct. -/
theorem proper_of_readLenient {text : String} {json : Json}
    (h : readLenient? text = some json) : json.Proper := by
  obtain ⟨⟨value, rest⟩, hvalue, h⟩ := Option.bind_eq_some_iff.mp h
  obtain ⟨s, -, h⟩ := Option.bind_eq_some_iff.mp h
  split at h
  · cases h
    exact (Lenient.reads _).value hvalue
  · cases h

end Json

/-! ## Links of what is depicted -/

/-- The property passes on from a value to its parts. -/
structure Json.Hereditary (Q : Json → Prop) : Prop where
  item : ∀ items, Q (.array items) → ∀ item ∈ items, Q item
  member : ∀ members, Q (.object members) → ∀ p ∈ members, Q p.2

theorem Json.hereditary_true : Json.Hereditary fun _ => True :=
  ⟨fun _ _ _ _ => trivial, fun _ _ _ _ => trivial⟩

namespace World

variable {w : World}

mutual

/-- The nodes of a value lie below the ones that the value refers to. -/
theorem Depicts.below_of_mem : ∀ {json : Json} {value : Value} {nodes : List NodeId},
    w.Depicts json value nodes → ∀ m ∈ nodes, ∃ r ∈ value.nodes, w.Below r m
  | _, _, _, .null, _, hm | _, _, _, .bool _, _, hm | _, _, _, .number _, _, hm
  | _, _, _, .text _, _, hm => (List.not_mem_nil hm).elim
  | _, _, _, .array h, m, hm => h.below_of_mem m hm
  | _, .node n, _, .object h, m, hm => by
      refine ⟨n, List.mem_cons_self, ?_⟩
      rcases List.mem_cons.mp hm with rfl | hm
      · exact .refl
      · obtain ⟨r, hr, hbelow⟩ := h.below_of_mem m hm
        exact .head hr hbelow

theorem DepictsAll.below_of_mem : ∀ {items : List Json} {values : List Value} {nodes : List NodeId},
    w.DepictsAll items values nodes → ∀ m ∈ nodes, ∃ r ∈ Value.allNodes values, w.Below r m
  | _, _, _, .nil, _, hm => (List.not_mem_nil hm).elim
  | _, _, _, .cons h h', m, hm => by
      rcases List.mem_append.mp hm with hm | hm
      · obtain ⟨r, hr, hbelow⟩ := h.below_of_mem m hm
        exact ⟨r, List.mem_append_left _ hr, hbelow⟩
      · obtain ⟨r, hr, hbelow⟩ := h'.below_of_mem m hm
        exact ⟨r, List.mem_append_right _ hr, hbelow⟩

theorem DepictsMembers.below_of_mem : ∀ {members : List (String × Json)} {entries : Entries Value}
    {nodes : List NodeId}, w.DepictsMembers members entries nodes →
    ∀ m ∈ nodes, ∃ r ∈ entries.flatMap (fun p => p.2.nodes), w.Below r m
  | _, _, _, .nil, _, hm => (List.not_mem_nil hm).elim
  | _, _, _, .cons h _ h', m, hm => by
      rw [List.flatMap_cons]
      rcases List.mem_append.mp hm with hm | hm
      · obtain ⟨r, hr, hbelow⟩ := h.below_of_mem m hm
        exact ⟨r, List.mem_append_left _ hr, hbelow⟩
      · obtain ⟨r, hr, hbelow⟩ := h'.below_of_mem m hm
        exact ⟨r, List.mem_append_right _ hr, hbelow⟩

end

/-- A node among the entries of a depicted object is named after its key. -/
theorem DepictsMembers.name_eq {members : List (String × Json)} {entries : Entries Value}
    {nodes : List NodeId} (h : w.DepictsMembers members entries nodes) {key : String} {r : NodeId}
    (hmem : (key, Value.node r) ∈ entries) : (w.cell r).name = some key := by
  induction members generalizing entries nodes with
  | nil => cases h; cases hmem
  | cons p rest ih =>
      cases h with
      | cons _ hname h =>
          rcases List.mem_cons.mp hmem with heq | hmem
          · cases heq
            exact hname r rfl
          · exact ih h hmem

mutual

/-- Each of the nodes has entries that depict an object, and what the value passes on to its parts
holds of the object. -/
theorem Depicts.object_of_mem {Q : Json → Prop} (hQ : Json.Hereditary Q) : ∀ {json : Json}
    {value : Value} {nodes : List NodeId}, w.Depicts json value nodes → Q json → ∀ m ∈ nodes,
    ∃ members others, w.DepictsMembers members (w.cell m).entries others ∧
      (∀ x ∈ others, x ∈ nodes) ∧ Q (.object members)
  | _, _, _, .null, _, _, hm | _, _, _, .bool _, _, _, hm | _, _, _, .number _, _, _, hm
  | _, _, _, .text _, _, _, hm => (List.not_mem_nil hm).elim
  | _, _, _, .array h, hjson, m, hm => h.object_of_mem hQ (hQ.item _ hjson) m hm
  | _, .node n, _, .object h, hjson, m, hm => by
      rcases List.mem_cons.mp hm with rfl | hm
      · exact ⟨_, _, h, fun x hx => List.mem_cons_of_mem m hx, hjson⟩
      · obtain ⟨members, others, hmembers, hothers, hobject⟩ :=
          h.object_of_mem hQ (hQ.member _ hjson) m hm
        exact ⟨members, others, hmembers, fun x hx => List.mem_cons_of_mem n (hothers x hx), hobject⟩

theorem DepictsAll.object_of_mem {Q : Json → Prop} (hQ : Json.Hereditary Q) :
    ∀ {items : List Json} {values : List Value} {nodes : List NodeId},
    w.DepictsAll items values nodes → (∀ item ∈ items, Q item) → ∀ m ∈ nodes,
    ∃ members others, w.DepictsMembers members (w.cell m).entries others ∧
      (∀ x ∈ others, x ∈ nodes) ∧ Q (.object members)
  | _, _, _, .nil, _, _, hm => (List.not_mem_nil hm).elim
  | _, _, _, .cons h h', hitems, m, hm => by
      obtain ⟨hitem, hrest⟩ := List.forall_mem_cons.mp hitems
      rcases List.mem_append.mp hm with hm | hm
      · obtain ⟨members, others, hmembers, hothers, hobject⟩ := h.object_of_mem hQ hitem m hm
        exact ⟨members, others, hmembers, fun x hx => List.mem_append_left _ (hothers x hx), hobject⟩
      · obtain ⟨members, others, hmembers, hothers, hobject⟩ := h'.object_of_mem hQ hrest m hm
        exact ⟨members, others, hmembers, fun x hx => List.mem_append_right _ (hothers x hx), hobject⟩

theorem DepictsMembers.object_of_mem {Q : Json → Prop} (hQ : Json.Hereditary Q) :
    ∀ {members : List (String × Json)} {entries : Entries Value} {nodes : List NodeId},
    w.DepictsMembers members entries nodes → (∀ p ∈ members, Q p.2) → ∀ m ∈ nodes,
    ∃ members others, w.DepictsMembers members (w.cell m).entries others ∧
      (∀ x ∈ others, x ∈ nodes) ∧ Q (.object members)
  | _, _, _, .nil, _, _, hm => (List.not_mem_nil hm).elim
  | _, _, _, .cons h _ h', hmembers, m, hm => by
      obtain ⟨hmember, hrest⟩ := List.forall_mem_cons.mp hmembers
      rcases List.mem_append.mp hm with hm | hm
      · obtain ⟨members, others, hmembers, hothers, hobject⟩ := h.object_of_mem hQ hmember m hm
        exact ⟨members, others, hmembers, fun x hx => List.mem_append_left _ (hothers x hx), hobject⟩
      · obtain ⟨members, others, hmembers, hothers, hobject⟩ := h'.object_of_mem hQ hrest m hm
        exact ⟨members, others, hmembers, fun x hx => List.mem_append_right _ (hothers x hx), hobject⟩

end

/-- What is alive stays alive when more is held. -/
theorem alive_hold_of_alive {n : NodeId} (halive : w.alive n = true) (nodes : List NodeId) :
    (w.hold nodes).alive n = true := by
  obtain ⟨some, hn, hsupports⟩ := alive_iff.mp halive
  refine alive_iff.mpr ⟨some, hn, fun x hx => (hsupports x hx).imp_left fun hheld => ?_⟩
  simp only [holders, hold, List.mem_cons, List.mem_append] at hheld ⊢
  tauto

end World

namespace World

variable {w u : World} {n item : NodeId} {members : List (String × Json)} {nodes : List NodeId}

/-- After a load that linked what it built, all references stay in the world. -/
theorem Linked.references_lt (h : w.Linked u) (hclosed : w.Closed) (x y : NodeId)
    (hy : y ∈ World.references (u.cell x)) : y.index < u.cells.size := by
  by_cases hx : x.index < w.cells.size
  · rw [h.old x hx] at hy
    exact Nat.lt_of_lt_of_le (hclosed.references x y hy) h.size
  · exact (h.references x (Nat.not_lt.mp hx) y hy).2.1

/-- What was alive before a load is alive after it. -/
theorem Linked.alive (h : w.Linked u) (hc : w.Continues u) {m : NodeId}
    (halive : w.alive m = true) : u.alive m = true := by
  refine alive_mono hc.holders_eq h.size (fun x y hy => ?_) halive
  rwa [h.old x (lt_size_of_mem_references hy)]

/-- While the outermost node is held, the nodes of a depiction are alive. -/
theorem Depicted.alive_hold (h : Depicted w u (.object members) (.node item) nodes)
    (hlinked : w.Linked u) (hclosed : w.Closed) {m : NodeId} (hm : m ∈ nodes) :
    (u.hold [item]).alive m = true := by
  obtain ⟨r, hr, hbelow⟩ := h.depicts.below_of_mem m hm
  obtain rfl := List.mem_singleton.mp hr
  have hitem : r ∈ (u.hold [r]).holders :=
    List.mem_cons_of_mem _ (List.mem_append_right _ List.mem_cons_self)
  exact alive_of_below (w := u.hold [r]) (hlinked.references_lt hclosed) hbelow
    (alive_of_mem_holders hitem)

/-- While the outermost node is held, the nodes that an entry of a depiction refers to have the node
of the entry as their parent, and the node that is the entry has its key for a name. -/
theorem Depicted.links (h : Depicted w u (.object members) (.node item) nodes)
    (hlinked : w.Linked u) (hclosed : w.Closed) {m : NodeId} (hm : m ∈ nodes) {key : String}
    {value : Value} (hentry : (key, value) ∈ (u.cell m).entries) {r : NodeId}
    (hr : r ∈ value.nodes) :
    (u.hold [item]).parent? r = some m ∧ (value = .node r → (u.cell r).name = some key) := by
  constructor
  · have href : r ∈ references (u.cell m) := List.mem_flatMap.mpr ⟨(key, value), hentry, hr⟩
    have hparent : ((u.hold [item]).cell r).parent = some m :=
      (hlinked.references m (h.range m hm).1 r href).2.2
    rw [parent?, hparent, Option.filter_some, if_pos (h.alive_hold hlinked hclosed hm)]
  · rintro rfl
    obtain ⟨_, _, hmembers, -⟩ := h.depicts.object_of_mem Json.hereditary_true trivial m hm
    exact hmembers.name_eq hentry

end World

namespace NodeId

/-- A literal without instructions is loaded into a new node for each of its objects. The outermost
one is rendered as the literal, with the same keys in the same order at every depth. While it is
held, each node that an entry of a new node refers to, directly or in lists, has the new node as its
parent, and its key for a name when it is the entry; the outermost one has the receiver. The plain
value of any JSON value is rendered as that value. -/
theorem newChild_renders (lang : Language) {w : World} (hclosed : w.Closed) {n : NodeId}
    (halive : w.alive n = true) :
    (∀ text members, Json.readLenient? text = some (.object members) →
      (Json.object members).uninstructed = true →
      ∃ item u nodes, n.newChild (introspect lang) text w = (.done item, u) ∧
        u.object item = .object members ∧
        u.Depicts (.object members) (.node item) nodes ∧ nodes.Nodup ∧
        (u.hold [item]).parent? item = some n ∧
        ∀ m ∈ nodes, w.cells.size ≤ m.index ∧
          ∀ key value, (key, value) ∈ (u.cell m).entries → ∀ r ∈ value.nodes,
            (u.hold [item]).parent? r = some m ∧
              (value = .node r → (u.cell r).name = some key)) ∧
    ∀ json : Json, json.Proper → (w.build none json).2.json (w.build none json).1 = json := by
  have hn := World.lt_size_of_alive hclosed halive
  refine ⟨fun text members hread hbare => ?_, fun json hproper =>
    World.json_build hproper none w⟩
  obtain ⟨item, u, nodes, hdone, hbuilt, hparent⟩ := newChild_depicts lang hn hread hbare
    (Json.proper_of_readLenient hread)
  have hbare' : ∀ json, Json.readLenient? text = some json → json.uninstructed = true := by
    rintro json hjson
    obtain rfl := Option.some.inj (hread.symm.trans hjson)
    exact hbare
  obtain ⟨hlinked, hcontinues, -⟩ := newChild_linked lang hn hbare' hdone
  refine ⟨item, u, nodes, hdone, ?_, hbuilt.depicts, hbuilt.distinct, ?_, fun m hm => ?_⟩
  · exact hbuilt.depicts.json_eq hbuilt.distinct fun m hm => (hbuilt.range m hm).2
  · have hlink : ((u.hold [item]).cell item).parent = some n := hparent
    have hheld := World.alive_hold_of_alive (hlinked.alive hcontinues halive) [item]
    rw [World.parent?, hlink, Option.filter_some, if_pos hheld]
  · exact ⟨(hbuilt.range m hm).1, fun key value hentry r hr =>
      hbuilt.links hlinked hclosed hm hentry hr⟩

/-- A literal with an object in an object and one in a list. -/
def renderedText : String := "\x7ba: \x7bc: 1\x7d, b: [\x7b\x7d]\x7d"

/-- The value is an object without instructions that has these keys. -/
def holdsKeys (keys : List String) : Json → Bool
  | .object members => Entries.keys members == keys && (Json.object members).uninstructed
  | _ => false

/-- The literal is loaded for the static node of an empty world. -/
theorem newChild_renders_nested : ∃ item u members,
    (⟨0⟩ : NodeId).newChild (introspect (.ofFuel 0)) renderedText
        (World.initial ⟨false, false, 0⟩ ⟨.directory [], []⟩) = (.done item, u) ∧
      u.object item = .object members ∧ Entries.keys members = ["a", "b"] ∧
      (u.hold [item]).parent? item = some ⟨0⟩ := by
  have hread : (Json.readLenient? renderedText).any (holdsKeys ["a", "b"]) = true := by
    decide +kernel
  obtain ⟨json, htext, hkeys⟩ := (Option.any_eq_true _ _).mp hread
  cases json with
  | object members =>
      rw [holdsKeys, Bool.and_eq_true, beq_iff_eq] at hkeys
      obtain ⟨hloaded, -⟩ := newChild_renders (.ofFuel 0) (n := ⟨0⟩)
        (World.closed_initial ⟨false, false, 0⟩ ⟨.directory [], []⟩) (by decide +kernel)
      obtain ⟨item, u, -, hdone, hobject, -, -, hparent, -⟩ :=
        hloaded renderedText members htext hkeys.2
      exact ⟨item, u, members, hdone, hobject, hkeys.1, hparent⟩
  | _ => exact absurd hkeys Bool.false_ne_true

end NodeId

end ScriptTree
