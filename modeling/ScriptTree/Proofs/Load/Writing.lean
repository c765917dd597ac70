import ScriptTree.Proofs.Json.Equality
import ScriptTree.Proofs.Load.Leaves
import ScriptTree.Proofs.Load.Passage

/-!
# Documents that write a mapping

A document writes a mapping when its elements are those of the members in order: a leaf is an element
of its kind with the text that stands for it, a mapping is a model (`Document.Writes`). Reading such a
document goes event by event and puts each child before it is filled; the node of the document depicts
the mapping all the same (`Document.build_depicts`). So a mapping may be loaded from its document or
from its literal: receivers that hold the same tree hold the same tree afterwards
(`Document.append_sameTree`).
-/

set_option autoImplicit false

namespace ScriptTree

/-! ## The form of a document -/

namespace Document

/-- A tag with a key and no other attribute. -/
def keyed (name key : String) : Xml.Tag := ⟨name, [⟨"key", some key⟩], true⟩

/-- The texts of the events, one after another, are the given one. -/
inductive Spells : String → List Xml.Event → Prop
  | nil : Spells "" []
  | text (content : String) {rest : String} {events : List Xml.Event} :
      Spells rest events → Spells (content ++ rest) (.text (some content) :: events)
  | data (content : String) {rest : String} {events : List Xml.Event} :
      Spells rest events → Spells (content ++ rest) (.data content :: events)
  | aside {rest : String} {events : List Xml.Event} :
      Spells rest events → Spells rest (.aside :: events)

/-- The events are those of the members of a mapping in order. An element without content may be a
single tag. -/
inductive Writes : List (String × Json) → List Xml.Event → Prop
  | nil : Writes [] []
  | aside {members : List (String × Json)} {events : List Xml.Event} :
      Writes members events → Writes members (.aside :: events)
  | leaf {kind : EntryKind} {text key : String} {json : Json} {rest : List (String × Json)}
      {content events : List Xml.Event} :
      EntryKind.Stands kind text json → Spells text content → Writes rest events →
      Writes ((key, json) :: rest)
        (.start (keyed kind.tag key) :: content ++ .stop kind.tag :: events)
  | blank {kind : EntryKind} {key : String} {json : Json} {rest : List (String × Json)}
      {events : List Xml.Event} :
      EntryKind.Stands kind "" json → Writes rest events →
      Writes ((key, json) :: rest) (.empty (keyed kind.tag key) :: events)
  | model {key : String} {members rest : List (String × Json)} {inside events : List Xml.Event} :
      Writes members inside → Writes rest events →
      Writes ((key, .object members) :: rest)
        (.start (keyed "model" key) :: inside ++ .stop "model" :: events)
  | hollow {key : String} {rest : List (String × Json)} {events : List Xml.Event} :
      Writes rest events →
      Writes ((key, .object []) :: rest) (.empty (keyed "model" key) :: events)

/-- A tag for the outermost element: any name, and no attribute but a key. -/
structure Outermost (tag : Xml.Tag) : Prop where
  sound : tag.sound = true
  attributes : ∀ a ∈ tag.attributes, a.key = "key" ∧ a.value.isSome = true

/-- The events are those of a document of a mapping: one element around those of the members. -/
inductive Form : List (String × Json) → List Xml.Event → Prop
  | element {members : List (String × Json)} {root : Xml.Tag} {body : List Xml.Event} :
      Outermost root → Writes members body →
      Form members (.start root :: body ++ [.stop root.name])
  | empty {root : Xml.Tag} : Outermost root → Form [] [.empty root]
  | before {members : List (String × Json)} {events : List Xml.Event} :
      Form members events → Form members (.aside :: events)
  | after {members : List (String × Json)} {events : List Xml.Event} :
      Form members events → Form members (events ++ [.aside])

end Document

namespace World

/-! ## Filled nodes -/

variable {w a b u : World} {p : NodeId} {key : String} {json : Json} {value : Value}
  {members rest : List (String × Json)} {entries more : Entries Value} {nodes others : List NodeId}

theorem DepictsMembers.append (h : w.DepictsMembers members entries nodes)
    (h' : w.DepictsMembers rest more others) :
    w.DepictsMembers (members ++ rest) (entries ++ more) (nodes ++ others) := by
  induction members generalizing entries nodes with
  | nil =>
      cases h
      exact h'
  | cons q members ih =>
      cases h with
      | cons hvalue hname hrest =>
          rw [List.append_assoc]
          exact .cons hvalue hname (ih hrest)

/-- From `a` to `u` a node that is new since `w` has been filled with the members of a mapping. -/
structure Fills (w a u : World) (p : NodeId) (members : List (String × Json))
    (entries : Entries Value) (nodes : List NodeId) : Prop where
  adds : Adds a u p entries nodes
  depicts : u.DepictsMembers members entries nodes
  linked : w.Linked u
  continues : a.Continues u

namespace Fills

theorem refl (h : w.Linked a) (p : NodeId) : Fills w a a p [] [] [] :=
  ⟨.refl a p, .nil, h, .refl a⟩

theorem trans (h : Fills w a b p members entries nodes) (hp : p.index < a.cells.size)
    (h' : Fills w b u p rest more others) :
    Fills w a u p (members ++ rest) (entries ++ more) (nodes ++ others) := by
  refine ⟨h.adds.trans h'.adds, .append (h.depicts.congr fun m hm => ?_) h'.depicts, h'.linked,
    h.continues.trans h'.continues⟩
  obtain ⟨hnew, hlt⟩ := h.adds.range m hm
  exact h'.adds.frame_of_new hlt (Nat.lt_of_lt_of_le hp hnew)

/-- What the run holds in between does not count. -/
theorem held {holding : List NodeId} (h : Fills w (a.hold holding) u p members entries nodes) :
    Fills w a { u with held := a.held } p members entries nodes :=
  ⟨h.adds.held a.held a.held, h.depicts.congr fun _ _ => rfl, h.linked.held _,
    h.continues.held_restored⟩

/-- A leaf is stored. -/
theorem leaf (h : w.Linked a) (hp : w.cells.size ≤ p.index) (hlt : p.index < a.cells.size)
    (hkey : key ∉ (a.cell p).entries.keys) (hbare : key ∉ NodeId.instructionKeys)
    (hvalue : a.Depicts json value []) (hnodes : value.nodes = []) :
    Fills w a (a.put p key value) p [(key, json)] [(key, value)] [] := by
  have hnode : ∀ r, value ≠ .node r := fun r hr => List.not_mem_nil (hvalue.mem_of_node hr)
  have hplaces : Linked.Places w a p value.nodes a := by
    rw [hnodes]
    exact ⟨h, Nat.le_refl _, fun _ _ => rfl, List.nodup_nil,
      fun r hr => (List.not_mem_nil hr).elim⟩
  exact ⟨(Depicted.leaf hvalue).put hlt hkey,
    .cons (hvalue.congr fun m hm => (List.not_mem_nil hm).elim) (fun r hr => absurd hr (hnode r))
      .nil,
    (h.put_placed hp hlt hbare hplaces).1, continues_put a p key value⟩

theorem continues_createChild (a : World) (p : NodeId) (key : String) :
    a.Continues (a.createChild p key).2 :=
  (continues_create a (a.cell p).engined).trans
    ((continues_setName _ _ key).trans (continues_put _ p key _))

theorem put_hold (a : World) (p : NodeId) (key : String) (value : Value) (nodes : List NodeId) :
    (a.hold nodes).put p key value = (a.put p key value).hold nodes := by
  cases value with
  | node child =>
      rw [World.put, World.put, adopt, adopt]
      split <;> rfl
  | _ => rfl

/-- A child is created in the same way whatever is held. -/
theorem createChild_hold (a : World) (p : NodeId) (key : String) (nodes : List NodeId) :
    (a.hold nodes).createChild p key =
      ((a.createChild p key).1, (a.createChild p key).2.hold nodes) := by
  have hput := put_hold ((a.create (a.cell p).engined).2.setName
    (a.create (a.cell p).engined).1 key) p key (.node (a.create (a.cell p).engined).1) nodes
  exact congrArg (Prod.mk (a.create (a.cell p).engined).1) hput

/-- A child is created and filled. -/
theorem child (hp : p.index < a.cells.size) (hkey : key ∉ (a.cell p).entries.keys)
    (h : Fills w (a.createChild p key).2 u (a.createChild p key).1 members entries nodes) :
    Fills w a u p [(key, .object members)] [(key, .node (a.createChild p key).1)]
      ((a.createChild p key).1 :: nodes) := by
  obtain ⟨hadds, hempty, hname⟩ := adds_createChild hp hkey
  obtain ⟨hindex, hsize⟩ := index_createChild a p key
  have hgrown := h.adds.size
  have hne : p ≠ (a.createChild p key).1 := by
    intro heq
    rw [← heq] at hindex
    omega
  -- What is filled was created since, so nothing that was there has changed.
  have hframe : ∀ m : NodeId, m.index < a.cells.size →
      u.cell m = (a.createChild p key).2.cell m := by
    intro m hm
    refine h.adds.frame m (by omega) fun heq => ?_
    rw [heq] at hm
    omega
  refine ⟨⟨?cell, ?distinct, ?range, by omega, fun m hm hmp => ?frame⟩, ?depicts, h.linked,
    (continues_createChild a p key).trans h.continues⟩
  case cell => rw [hframe p hp, hadds.cell]
  case distinct =>
    refine List.nodup_cons.mpr ⟨fun hmem => ?_, h.adds.distinct⟩
    have hnew := (h.adds.range _ hmem).1
    omega
  case range =>
    intro m hm
    rcases List.mem_cons.mp hm with rfl | hm
    · omega
    · have hrange := h.adds.range m hm
      omega
  case frame => rw [hframe m hm, hadds.frame m hm hmp]
  case depicts =>
    rw [← List.append_nil ((a.createChild p key).1 :: nodes)]
    refine .cons (.object ?_) ?_ .nil
    · rw [h.adds.cell, hempty]
      exact h.depicts
    · rintro r ⟨⟩
      rw [h.adds.cell]
      exact hname

end Fills

end World

namespace Document

/-! ## Reading a document -/

variable {s : Setting} {w a u : World} {p : NodeId} {stack outer : List Element} {key : String}

theorem trimmed_key : Text.trimmed "key" = "key" := rfl

theorem attributes_keyed (name : String) (hkey : Text.trimmed key = key) :
    Setting.attributes? (keyed name key) = some [("key", key)] := by
  show some [(Text.trimmed "key", Text.trimmed key)] = _
  rw [trimmed_key, hkey]

/-- The tag of a leaf opens an entry. -/
theorem openTag_leaf (s : Setting) (p : NodeId) (outer : List Element) (hkey : Text.trimmed key = key) (kind : EntryKind) :
    s.openTag (.model p :: outer) (keyed kind.tag key) a =
      (.done (.entry kind key p "" :: .model p :: outer), a) := by
  rw [Setting.openTag, attributes_keyed _ hkey]
  cases kind <;> rfl

/-- The tag of a model creates a child. -/
theorem openTag_model (s : Setting) (p : NodeId) (outer : List Element) (hkey : Text.trimmed key = key) :
    s.openTag (.model p :: outer) (keyed "model" key) a =
      (.done (.model (a.createChild p key).1 :: .model p :: outer), (a.createChild p key).2) := by
  rw [Setting.openTag, attributes_keyed _ hkey]
  rfl

theorem attributes_outermost {tag : Xml.Tag} (h : Outermost tag) :
    ∃ found, Setting.attributes? tag = some found ∧ ∀ a ∈ found, a.1 = "key" := by
  rw [Setting.attributes?, if_pos h.sound]
  have hattributes := h.attributes
  generalize tag.attributes = attributes at hattributes
  induction attributes with
  | nil => exact ⟨[], rfl, fun _ ha => (List.not_mem_nil ha).elim⟩
  | cons first rest ih =>
      obtain ⟨⟨hkey, hvalue⟩, hrest⟩ := List.forall_mem_cons.mp hattributes
      obtain ⟨found, hfound, hkeys⟩ := ih hrest
      obtain ⟨value, hvalue⟩ := Option.isSome_iff_exists.mp hvalue
      refine ⟨("key", Text.trimmed value) :: found, ?_, List.forall_mem_cons.mpr ⟨rfl, hkeys⟩⟩
      rw [List.mapM_cons, hfound, hvalue, hkey]
      rfl

/-- The outermost tag stands for the node of the document and leaves nothing in it. -/
theorem openTag_outermost {tag : Xml.Tag} (h : Outermost tag) :
    s.openTag [] tag a = (.done [.model s.root], a) := by
  obtain ⟨found, hfound, hkeys⟩ := attributes_outermost h
  have hnone : found.filter (fun a => a.1 != "key") = [] := by
    rw [List.filter_eq_nil_iff]
    intro pair hpair
    rw [hkeys pair hpair, bne_self_eq_false]
    exact Bool.false_ne_true
  rw [Setting.openTag, hfound]
  show (Setting.putDirectives s.root found >>= _) a = _
  rw [Action.bind_apply, Setting.putDirectives, hnone]
  rfl

theorem steps_cons {event : Xml.Event} {next : List Element}
    (h : s.step stack event (a.hold (stack.map Element.node)) = (.done next, u))
    (more : List Xml.Event) :
    s.steps stack (event :: more) a = s.steps next more { u with held := a.held } := by
  rw [Setting.steps, Action.bind_apply, Action.holding_of_done h]

theorem steps_start {tag : Xml.Tag} {next : List Element}
    (h : s.openTag stack tag (a.hold (stack.map Element.node)) = (.done next, u))
    (more : List Xml.Event) :
    s.steps stack (.start tag :: more) a = s.steps next more { u with held := a.held } :=
  steps_cons (show s.step stack (.start tag) _ = _ from h) more

theorem steps_stop (name : String) {next : List Element}
    (h : s.close stack (a.hold (stack.map Element.node)) = (.done next, u))
    (more : List Xml.Event) :
    s.steps stack (.stop name :: more) a = s.steps next more { u with held := a.held } :=
  steps_cons (show s.step stack (.stop name) _ = _ from h) more

/-- An event that leaves the world alone, whatever is held. -/
theorem steps_cons_same {event : Xml.Event} {next : List Element}
    (h : ∀ b, s.step stack event b = (.done next, b)) (more : List Xml.Event) :
    s.steps stack (event :: more) a = s.steps next more a :=
  steps_cons (h _) more

/-- The texts inside an entry are added to it. -/
theorem steps_spells {kind : EntryKind} {text before : String} {content : List Xml.Event}
    (h : Spells text content) (more : List Xml.Event) :
    s.steps (.entry kind key p before :: outer) (content ++ more) a =
      s.steps (.entry kind key p (before ++ text) :: outer) more a := by
  induction h generalizing before with
  | nil => rw [String.append_empty, List.nil_append]
  | text part _ ih | data part _ ih =>
      rw [List.cons_append, steps_cons_same fun _ => rfl]
      show s.steps (.entry kind key p (before ++ part) :: outer) _ a = _
      rw [ih, String.append_assoc]
  | aside _ ih => rw [List.cons_append, steps_cons_same fun _ => rfl, ih]

/-- The end of an entry stores the leaf that the entry stands for. -/
theorem close_entry (s : Setting) (p : NodeId) (key : String) (outer : List Element)
    {kind : EntryKind} {text : String} {json : Json} (h : EntryKind.Stands kind text json) (hnested : json.Nested) (b : World) :
    ∃ value, s.close (.entry kind key p text :: outer) b = (.done outer, b.put p key value) ∧
      ∀ v : World, v.Depicts json value [] := by
  obtain ⟨value, hread, hdepicts⟩ := h.read hnested s.lang p b
  refine ⟨value, ?_, hdepicts⟩
  rw [Setting.close, Action.bind_apply, hread]
  rfl

/-- Nodes without instructions are introspected to no effect. -/
def Setting.Idle (s : Setting) : Prop := ∀ n b,
  (∀ key ∈ NodeId.instructionKeys, b.getRaw n key = none) → s.introspect n b = (.done (), b)

theorem close_model (outer : List Element) (hidle : s.Idle) {b : World} (hb : w.Linked b) (hp : w.cells.size ≤ p.index) :
    s.close (.model p :: outer) b = (.done outer, b) := by
  rw [Setting.close, Action.bind_apply, hidle p b (hb.bare p hp)]
  rfl

/-- A leaf or a model of a mapping has been read: the run has come to `u` and goes on in the same
node. -/
def Passes (s : Setting) (w a : World) (p : NodeId) (outer : List Element)
    (members : List (String × Json)) (events : List Xml.Event) : Prop :=
  ∃ u entries nodes, World.Fills w a u p members entries nodes ∧ ∀ more,
    s.steps (.model p :: outer) (events ++ more) a = s.steps (.model p :: outer) more u

section Reading

variable {members rest : List (String × Json)} {events : List Xml.Event} {json : Json}
  (ha : w.Linked a) (hp : w.cells.size ≤ p.index) (hlt : p.index < a.cells.size)
  (hkey : key ∉ (a.cell p).entries.keys)

/-- The events of the other members follow. -/
theorem Passes.trans {member : String × Json} {first : List Xml.Event}
    (h : Passes s w a p outer [member] first) (hlt : p.index < a.cells.size)
    (hkeys : ((a.cell p).entries.keys ++ Entries.keys (member :: rest)).Nodup)
    (hrest : ∀ {b : World}, w.Linked b → p.index < b.cells.size →
      ((b.cell p).entries.keys ++ Entries.keys rest).Nodup → Passes s w b p outer rest events) :
    Passes s w a p outer (member :: rest) (first ++ events) := by
  obtain ⟨b, entries, nodes, hfills, hrun⟩ := h
  have hfirst : entries.keys = [member.1] := hfills.depicts.keys_eq
  obtain ⟨u, more, others, hfills', hrun'⟩ := hrest hfills.linked
    (Nat.lt_of_lt_of_le hlt hfills.adds.size) (hfills.adds.nodup_keys (by rw [hfirst]; exact hkeys))
  refine ⟨u, entries ++ more, nodes ++ others, hfills.trans hlt hfills', fun after => ?_⟩
  rw [List.append_assoc, hrun, hrun']

include ha hp hlt hkey

theorem passes_leaf {kind : EntryKind} {text : String} {content : List Xml.Event}
    (htrimmed : Text.trimmed key = key) (hbare : key ∉ NodeId.instructionKeys)
    (hnested : json.Nested) (hstands : EntryKind.Stands kind text json)
    (hspells : Spells text content) :
    Passes s w a p outer [(key, json)]
      (.start (keyed kind.tag key) :: content ++ [.stop kind.tag]) := by
  let opened : List Element := .entry kind key p text :: .model p :: outer
  obtain ⟨value, hclose, hdepicts⟩ := close_entry s p key (.model p :: outer)
    hstands hnested (a.hold (opened.map Element.node))
  have hfills := World.Fills.leaf (a := a.hold (opened.map Element.node)) (ha.held _) hp hlt hkey
    hbare (hdepicts _) (hstands.nodes_eq_nil hnested (hdepicts w))
  refine ⟨_, _, _, hfills.held, fun more => ?_⟩
  have hopen := openTag_leaf s p outer
    (a := a.hold ((Element.model p :: outer).map Element.node)) htrimmed kind
  rw [List.cons_append, List.cons_append, List.append_assoc, steps_start hopen]
  refine (steps_spells hspells _).trans ?_
  rw [String.empty_append]
  exact steps_stop kind.tag hclose more

theorem passes_blank {kind : EntryKind} (htrimmed : Text.trimmed key = key)
    (hbare : key ∉ NodeId.instructionKeys) (hnested : json.Nested)
    (hstands : EntryKind.Stands kind "" json) :
    Passes s w a p outer [(key, json)] [.empty (keyed kind.tag key)] := by
  let opened : List Element := .entry kind key p "" :: .model p :: outer
  let b := a.hold ((Element.model p :: outer).map Element.node)
  obtain ⟨value, hclose, hdepicts⟩ := close_entry s p key (.model p :: outer)
    hstands hnested (b.hold (opened.map Element.node))
  have hfills := World.Fills.leaf (a := b.hold (opened.map Element.node)) ((ha.held _).held _) hp
    hlt hkey hbare (hdepicts _) (hstands.nodes_eq_nil hnested (hdepicts w))
  refine ⟨_, _, _, World.Fills.held (a := a) hfills.held, fun more => steps_cons ?_ more⟩
  rw [Setting.step, Action.bind_apply, openTag_leaf s p outer htrimmed kind]
  exact Action.holding_of_done hclose

omit hp in
theorem passes_model (hidle : s.Idle) (htrimmed : Text.trimmed key = key)
    (hinside : Passes s w (a.createChild p key).2 (a.createChild p key).1 (.model p :: outer)
      members events) :
    Passes s w a p outer [(key, .object members)]
      (.start (keyed "model" key) :: events ++ [.stop "model"]) := by
  obtain ⟨u, entries, nodes, hfills, hrun⟩ := hinside
  obtain ⟨hindex, hsize⟩ := World.index_createChild a p key
  have hheld := (World.Fills.continues_createChild a p key).held
  refine ⟨_, _, _, World.Fills.child hlt hkey hfills, fun more => ?_⟩
  have hopen := openTag_model s p outer
    (a := a.hold ((Element.model p :: outer).map Element.node)) htrimmed
  rw [World.Fills.createChild_hold] at hopen
  rw [List.cons_append, List.cons_append, List.append_assoc, steps_start hopen, ← hheld]
  let opened : List Element := .model (a.createChild p key).1 :: .model p :: outer
  have hclose := close_model (.model p :: outer) hidle
    (hfills.linked.held (opened.map Element.node ++ u.held)) (p := (a.createChild p key).1)
    (by rw [hindex]; exact ha.size)
  exact (hrun _).trans (steps_stop "model" hclose more)

theorem passes_hollow (hidle : s.Idle) (htrimmed : Text.trimmed key = key)
    (hbare : key ∉ NodeId.instructionKeys) :
    Passes s w a p outer [(key, .object [])] [.empty (keyed "model" key)] := by
  let b := a.hold ((Element.model p :: outer).map Element.node)
  let opened : List Element := .model (b.createChild p key).1 :: .model p :: outer
  obtain ⟨hindex, hsize⟩ := World.index_createChild b p key
  have hb : w.Linked (b.createChild p key).2 :=
    World.Linked.createChild (a := b) (ha.held _) hp hlt hbare
  have hfills := World.Fills.child (a := b) hlt hkey (.refl hb _)
  have hclose := close_model (.model p :: outer) hidle
    (hb.held (opened.map Element.node ++ (b.createChild p key).2.held))
    (p := (b.createChild p key).1) (by rw [hindex]; exact ha.size)
  refine ⟨_, _, _, World.Fills.held (a := a) hfills, fun more => steps_cons ?_ more⟩
  rw [Setting.step, Action.bind_apply, openTag_model s p outer htrimmed]
  exact Action.holding_of_done hclose

end Reading

/-- The events of the members of a mapping fill the node that is open. -/
theorem passes_of_writes (hidle : s.Idle) {members : List (String × Json)}
    {events : List Xml.Event} (h : Writes members events) :
    ∀ {a : World} {p : NodeId} (outer : List Element), w.Linked a → w.cells.size ≤ p.index →
    p.index < a.cells.size → Json.MembersNested members →
    ((a.cell p).entries.keys ++ Entries.keys members).Nodup →
    Passes s w a p outer members events := by
  induction h with
  | nil => exact fun {a p} _ ha _ _ _ _ => ⟨a, [], [], .refl ha p, fun _ => rfl⟩
  | aside _ ih =>
      intro a p outer ha hp hlt hnested hkeys
      obtain ⟨u, entries, nodes, hfills, hrun⟩ := ih outer ha hp hlt hnested hkeys
      refine ⟨u, entries, nodes, hfills, fun more => ?_⟩
      rw [List.cons_append, steps_cons_same fun _ => rfl, hrun]
  | @leaf kind text key json rest content events hstands hspells _ ih =>
      intro a p outer ha hp hlt hnested hkeys
      obtain ⟨htrimmed, hbare, hmember, hrest⟩ := hnested.cons
      have hfirst : Passes s w a p outer _ _ := passes_leaf ha hp hlt
        (World.key_notMem hkeys) htrimmed hbare hmember hstands hspells
      have hpasses := hfirst.trans hlt hkeys fun hb hlt' hkeys' => ih outer hb hp hlt' hrest hkeys'
      rwa [List.append_assoc] at hpasses
  | @blank kind key json rest events hstands _ ih =>
      intro a p outer ha hp hlt hnested hkeys
      obtain ⟨htrimmed, hbare, hmember, hrest⟩ := hnested.cons
      exact (passes_blank ha hp hlt (World.key_notMem hkeys) htrimmed hbare hmember
        hstands).trans hlt hkeys fun hb hlt' hkeys' => ih outer hb hp hlt' hrest hkeys'
  | @model key members rest inside events _ _ ih ih' =>
      intro a p outer ha hp hlt hnested hkeys
      obtain ⟨htrimmed, hbare, hmember, hrest⟩ := hnested.cons
      rw [Json.Nested] at hmember
      obtain ⟨hindex, hsize⟩ := World.index_createChild a p key
      obtain ⟨-, hempty, -⟩ := World.adds_createChild hlt (World.key_notMem hkeys)
      have hsizes := ha.size
      have hinside := ih (p := (a.createChild p key).1) (.model p :: outer)
        (ha.createChild hp hlt hbare) (by omega) (by omega) hmember.2 (by rw [hempty]; exact hmember.1)
      have hpasses := (passes_model ha hlt (World.key_notMem hkeys) hidle htrimmed
        hinside).trans hlt hkeys fun hb hlt' hkeys' => ih' outer hb hp hlt' hrest hkeys'
      rwa [List.append_assoc] at hpasses
  | @hollow key rest events _ ih =>
      intro a p outer ha hp hlt hnested hkeys
      obtain ⟨htrimmed, hbare, -, hrest⟩ := hnested.cons
      exact (passes_hollow ha hp hlt (World.key_notMem hkeys) hidle htrimmed hbare).trans hlt hkeys
        fun hb hlt' hkeys' => ih outer hb hp hlt' hrest hkeys'

/-- Asides and the outermost element around the members. -/
theorem steps_form (hidle : s.Idle) {members : List (String × Json)} {events : List Xml.Event}
    (h : Form members events) (ha : w.Linked a) (hp : w.cells.size ≤ s.root.index)
    (hlt : s.root.index < a.cells.size) (hempty : (a.cell s.root).entries = [])
    (hkeys : (Entries.keys members).Nodup) (hnested : Json.MembersNested members) :
    ∃ u entries nodes, World.Fills w a u s.root members entries nodes ∧
      ∀ more, s.steps [] (events ++ more) a = s.steps [] more u := by
  induction h with
  | @element members root body hroot hbody =>
      obtain ⟨u, entries, nodes, hfills, hrun⟩ := passes_of_writes hidle hbody [] ha hp
        hlt hnested (by rw [hempty]; exact hkeys)
      refine ⟨u, entries, nodes, hfills, fun more => ?_⟩
      have hclose := close_model [] hidle (hfills.linked.held ([s.root] ++ u.held)) hp
      rw [List.cons_append, List.cons_append, List.append_assoc,
        steps_start (openTag_outermost hroot)]
      exact (hrun _).trans (steps_stop root.name hclose more)
  | @empty root hroot =>
      refine ⟨a, [], [], .refl ha s.root, fun more => ?_⟩
      have hclose := close_model [] hidle (ha.held ([s.root] ++ a.held)) hp
      show s.steps [] (.empty root :: more) a = _
      refine steps_cons ?_ more
      rw [Setting.step, Action.bind_apply, openTag_outermost hroot]
      have hdone := Action.holding_of_done (a := a.hold []) hclose
      exact hdone
  | before _ ih =>
      obtain ⟨u, entries, nodes, hfills, hrun⟩ := ih hkeys hnested
      refine ⟨u, entries, nodes, hfills, fun more => ?_⟩
      rw [List.cons_append, steps_cons_same fun _ => rfl, hrun]
  | after _ ih =>
      obtain ⟨u, entries, nodes, hfills, hrun⟩ := ih hkeys hnested
      refine ⟨u, entries, nodes, hfills, fun more => ?_⟩
      rw [List.append_assoc, hrun, List.singleton_append, steps_cons_same fun _ => rfl]

variable (lang : Language) {n : NodeId} {members : List (String × Json)} {text : String}
  {events : List Xml.Event}

/-- The node of a document that writes a mapping depicts the mapping. It is the first that was
built. -/
theorem build_depicts (hn : n.index < w.cells.size) (hread : Xml.read text = ⟨events, true⟩)
    (hform : Form members events) (hkeys : (Entries.keys members).Nodup)
    (hnested : Json.MembersNested members) (source : String) : ∃ item u nodes,
      build (NodeId.introspect lang) lang n source text w = (.done item, u) ∧
        World.Depicted w u (.object members) (.node item) nodes ∧ w.Linked u ∧ w.Continues u ∧
        item.index = w.cells.size := by
  obtain ⟨hindex, hsize⟩ := World.index_createUnder w n
  obtain ⟨-, -, -, hempty, -⟩ := World.createUnder_frame w (some n)
  have hcreated := (World.Linked.refl w).createUnder hn
  let item := (w.createUnder (some n)).1
  let s : Setting := ⟨NodeId.introspect lang, lang, source, item⟩
  have hlast : item.index < w.cells.size + 1 := Nat.lt_succ_of_le (Nat.le_of_eq hindex)
  have hidle : s.Idle := fun m b hbare => NodeId.introspect_of_bare lang hbare
  obtain ⟨u, entries, nodes, hfills, hrun⟩ := steps_form (s := s)
    (a := (w.createUnder (some n)).2.hold [item]) hidle hform (hcreated.linked.held _)
    (Nat.le_of_eq hindex.symm) (Nat.lt_of_lt_of_eq hlast hsize.symm) hempty hkeys hnested
  have hdone : s.read text ((w.createUnder (some n)).2.hold [item]) = (.done (), u) := by
    have hsteps := hrun []
    rw [List.append_nil] at hsteps
    rw [Setting.read, hread, Action.bind_apply, hsteps]
    rfl
  refine ⟨item, { u with held := (w.createUnder (some n)).2.held }, _, ?_,
    World.Depicted.object hfills.held.adds hfills.held.depicts, hfills.held.linked,
    (World.continues_createUnder w (some n)).trans hfills.held.continues, hindex⟩
  rw [build]
  show (Action.holding [item] (s.read text) >>= fun _ => pure item) (w.createUnder (some n)).2 = _
  rw [Action.bind_apply, Action.holding_of_done hdone]
  rfl

/-! ## Documents and literals -/

theorem spells_single (text : String) : Spells text [.text (some text)] := by
  have hspells := Spells.text text .nil
  rwa [String.append_empty] at hspells

/-- Every mapping is written by some events. -/
theorem exists_writes : ∀ {members : List (String × Json)}, Json.MembersNested members →
    ∃ events, Writes members events
  | (key, member) :: rest, h => by
      obtain ⟨-, -, hmember, hrest⟩ := h.cons
      obtain ⟨events, hevents⟩ := exists_writes hrest
      cases member with
      | null => exact ⟨_, .leaf .null (spells_single _) hevents⟩
      | bool b => exact ⟨_, .leaf (.boolean b) (spells_single _) hevents⟩
      | number number =>
          rw [Json.Nested] at hmember
          obtain ⟨i, hi⟩ := Number.exists_ofInt?_of_signed? hmember
          exact ⟨_, .leaf (.long hi) (spells_single _) hevents⟩
      | text s => exact ⟨_, .leaf (.text s) (spells_single _) hevents⟩
      | array items =>
          rw [Json.Nested] at hmember
          exact hmember.elim
      | object members =>
          rw [Json.Nested] at hmember
          obtain ⟨inside, hinside⟩ := exists_writes hmember.2
          exact ⟨_, .model hinside hevents⟩
  | [], _ => ⟨[], .nil⟩
  termination_by members => members

/-- A tag without a key is one for the outermost element. -/
theorem outermost_model : Outermost ⟨"model", [], true⟩ :=
  ⟨rfl, fun _ ha => (List.not_mem_nil ha).elim⟩

/-- Every mapping has a document. -/
theorem exists_form (h : Json.MembersNested members) : ∃ events, Form members events := by
  obtain ⟨body, hbody⟩ := exists_writes h
  exact ⟨_, .element outermost_model hbody⟩

/-- A mapping that is loaded from a document into one node and from a literal into another is loaded
by both, and nodes that held the same tree hold the same tree afterwards: the same keys in the same
order, equal values, and nested nodes with the same names and the same parents. -/
theorem append_sameTree {v : World} {m : NodeId} (hv : v.Closed) (hw : w.Closed)
    (hn : v.alive n = true) (hm : w.alive m = true) (hsame : v.SameTree n w m)
    (hnested : (Json.object members).Nested) (hread : Xml.read text = ⟨events, true⟩)
    (hform : Form members events) {literal : String}
    (hliteral : Json.readLenient? literal = some (.object members)) (source : String) :
    ∃ v' w', append (NodeId.introspect lang) lang n source text v = (.done (), v') ∧
      m.appendJson (NodeId.introspect lang) literal w = (.done (), w') ∧
      v'.SameTree n w' m := by
  have hbare := hnested.uninstructed
  have hproper := hnested.proper
  rw [Json.Nested] at hnested
  obtain ⟨hkeys, hmembers⟩ := hnested
  obtain ⟨item, u, nodes, hbuild, hdepicted, hlinked, hc, hitem⟩ := build_depicts lang
    (World.lt_size_of_alive hv hn) hread hform hkeys hmembers source
  obtain ⟨item', u', nodes', hchild, hdepicted', -⟩ := NodeId.newChild_depicts lang
    (World.lt_size_of_alive hw hm) hliteral hbare hproper
  obtain ⟨hlinked', hc', hitem'⟩ := NodeId.newChild_linked lang (World.lt_size_of_alive hw hm)
    (fun json hjson => by rwa [Option.some.inj (hjson.symm.trans hliteral)]) hchild
  obtain ⟨fresh, kept, hreceives⟩ := hdepicted.receives hlinked hc hv hn hitem hmembers
  obtain ⟨fresh', kept', hreceives'⟩ := hdepicted'.receives hlinked' hc' hw hm hitem' hmembers
  -- The receivers hold the same keys, so they take the same members.
  have hfilter : (members.filter fun p => !w.containsKey m p.1) =
      members.filter fun p => !v.containsKey n p.1 := by
    obtain ⟨R, halike, hreceivers⟩ := hsame
    refine List.filter_congr fun p _ => congrArg _ (Bool.eq_iff_iff.mpr ?_)
    rw [World.containsKey, World.containsKey, Entries.contains_iff_mem_keys,
      Entries.contains_iff_mem_keys, (halike.entries hreceivers).keys_eq]
  rw [hfilter] at hreceives'
  refine ⟨_, _, ?_, ?_, hreceives.sameTree hv hw (hmembers.filter _) hreceives' hsame⟩
  · rw [append_eq, Action.bind_apply, hbuild]
    rfl
  · rw [NodeId.appendJson, Action.bind_apply, hchild]
    rfl

/-- A document with a number, and a text in a model. -/
def twofoldText : String :=
  "<model><long key=\"a\">-7</long><model key=\"m\"><text key=\"t\">x</text></model></model>"

/-- The literal with the same members. -/
def twofoldLiteral : String := "\x7ba: -7, m: \x7bt: 'x'\x7d\x7d"

/-- The members of both. -/
def twofoldMembers : List (String × Json) :=
  [("a", .number (.integer (-7) (by decide))), ("m", .object [("t", .text "x")])]

theorem append_sameTree_twofold : ∃ v' w',
    append (NodeId.introspect (.ofFuel 0)) (.ofFuel 0) ⟨1⟩ "document" twofoldText World.lone =
        (.done (), v') ∧
      (⟨1⟩ : NodeId).appendJson (NodeId.introspect (.ofFuel 0)) twofoldLiteral World.lone =
        (.done (), w') ∧
      v'.SameTree ⟨1⟩ w' ⟨1⟩ := by
  have hnested : (Json.object twofoldMembers).Nested := by
    simp only [twofoldMembers, Json.Nested, Json.MembersNested]
    decide +kernel
  have hread : Xml.read twofoldText = ⟨[.start ⟨"model", [], true⟩, .start (keyed "long" "a"),
      .text (some "-7"), .stop "long", .start (keyed "model" "m"), .start (keyed "text" "t"),
      .text (some "x"), .stop "text", .stop "model", .stop "model"], true⟩ := by
    decide +kernel
  have htext : toString (-7 : Int) = "-7" := by decide +kernel
  have hspells : Spells (toString (-7 : Int)) [.text (some "-7")] := by
    rw [htext]
    exact spells_single "-7"
  have hinside : Writes [("t", .text "x")]
      [.start (keyed "text" "t"), .text (some "x"), .stop "text"] :=
    .leaf (.text "x") (spells_single "x") .nil
  have hbody : Writes twofoldMembers [.start (keyed "long" "a"), .text (some "-7"), .stop "long",
      .start (keyed "model" "m"), .start (keyed "text" "t"), .text (some "x"), .stop "text",
      .stop "model"] :=
    .leaf (.long (i := -7) rfl) hspells (.model hinside .nil)
  exact append_sameTree (.ofFuel 0) World.closed_lone World.closed_lone (by decide +kernel)
    (by decide +kernel) (.refl World.closed_lone (by decide)) hnested hread
    (.element outermost_model hbody) (by decide +kernel) "document"

end Document

end ScriptTree
