import ScriptTree.Proofs.Load.Writing
import ScriptTree.Proofs.Run.Interpreter
import ScriptTree.Proofs.Xml.Matching

/-!
# The outline of a document

A document that is appended is read by a machine with a stack of open elements. When it succeeds,
its events are nested (`Document.Inside`): every element inside the outermost one is a leaf or a
model under a key, and ends by its own name. What the machine has done is then told by the events
alone (`Document.Deed`): a child is created under its key for every model, the value of every leaf
is stored, and each node is introspected once, behind all that stands inside its element
(`Document.append_outline`). This takes a text with one outermost element. The machine does not ask
for an element before the end of its input, and takes a further element on the top level for the
outermost one again (`Document.append_unrooted`).
-/

set_option autoImplicit false

namespace ScriptTree

/-! ## Holding -/

namespace Action

variable {α β : Type}

theorem exists_run_of_holding {nodes : List NodeId} {p : Action α} {a b : World} {value : α}
    (h : holding nodes p a = (.done value, b)) :
    ∃ u, p (a.hold nodes) = (.done value, u) ∧ b = { u with held := a.held } := by
  have hout := congrArg Prod.fst h
  have hworld := congrArg Prod.snd h
  refine ⟨(p (a.hold nodes)).2, Prod.ext hout rfl, hworld.symm⟩

/-- The parts of an action hold what the action holds. -/
theorem holding_bind_eq_done {nodes : List NodeId} {p : Action α} [hp : Orderly p]
    {next : α → Action β} {a b : World} {value : β}
    (h : holding nodes (p >>= next) a = (.done value, b)) :
    ∃ first u, holding nodes p a = (.done first, u) ∧
      holding nodes (next first) u = (.done value, b) := by
  obtain ⟨v, hdone, rfl⟩ := exists_run_of_holding h
  obtain ⟨first, u, hfirst, hnext⟩ := bind_eq_done hdone
  have hheld : u.held = nodes ++ a.held := by
    have hc := (hp.continues (a.hold nodes)).held
    rwa [hfirst] at hc
  refine ⟨first, { u with held := a.held }, holding_of_done hfirst, ?_⟩
  have hagain : ({ u with held := a.held } : World).hold nodes = u := by
    rw [World.hold, ← hheld]
  exact holding_of_done (a := { u with held := a.held }) (hagain ▸ hnext)

theorem continues_of_done {p : Action α} [hp : Orderly p] {a b : World} {value : α}
    (h : p a = (.done value, b)) : a.Continues b := by
  have hc := hp.continues a
  rwa [h] at hc

/-- What is held around an action is held for it. -/
theorem holding_of_held {outer inner : List NodeId} {p : Action α} {a b : World} {value : α}
    (h : holding inner p (a.hold outer) = (.done value, b)) :
    holding (inner ++ outer) p a = (.done value, { b with held := a.held }) ∧
      b = ({ b with held := a.held } : World).hold outer := by
  obtain ⟨u, hdone, rfl⟩ := exists_run_of_holding h
  have hsame : (a.hold outer).hold inner = a.hold (inner ++ outer) := by
    simp only [World.hold, List.append_assoc]
  rw [hsame] at hdone
  exact ⟨(holding_of_done hdone :), rfl⟩

theorem holding_holding (outer inner : List NodeId) (p : Action α) :
    holding outer (holding inner p) = holding (inner ++ outer) p := by
  funext a
  simp only [holding, List.append_assoc]

end Action

namespace Document

open Setting

/-! ## Events of a document -/

/-- A tag has sound attributes with a key among them. -/
structure Keyed (tag : Xml.Tag) (attributes : List (String × String)) (key : String) : Prop where
  sound : attributes? tag = some attributes
  found : (attributes.find? fun a => a.1 == "key").map Prod.snd = some key

/-- An event that stands for nothing between elements. -/
inductive Idle : Xml.Event → Prop
  | text (content : String) : Idle (.text (some content))
  | data (content : String) : Idle (.data content)
  | aside : Idle .aside

/-- What the reading of a document does. -/
inductive Deed where
  /-- The attributes of an element but its key become instructions of its node. -/
  | describe (n : NodeId) (attributes : List (String × String))
  /-- A node is created in another, under a key. -/
  | create (parent : NodeId) (key : String) (child : NodeId)
  /-- The value of a leaf is read from its text and stored. -/
  | store (owner : NodeId) (kind : EntryKind) (key text : String)
  /-- The instructions of a node are carried out. -/
  | introspect (n : NodeId)

/-- The events inside the element of a node, and what is done for them: they are leaves and models,
each with a key and an end tag of its own name. A node is introspected behind all that is done
inside its element. -/
inductive Inside : NodeId → List Xml.Event → List Deed → Prop
  | nil {n : NodeId} : Inside n [] []
  | idle {n : NodeId} {event : Xml.Event} {events : List Xml.Event} {deeds : List Deed} :
      Idle event → Inside n events deeds → Inside n (event :: events) deeds
  | leaf {n : NodeId} {tag : Xml.Tag} {attributes : List (String × String)} {kind : EntryKind}
      {key text : String} {content events : List Xml.Event} {deeds : List Deed} :
      Keyed tag attributes key → tag.name ≠ "model" → EntryKind.ofTag? tag.name = some kind →
      Spells text content → Inside n events deeds →
      Inside n (.start tag :: content ++ .stop tag.name :: events) (.store n kind key text :: deeds)
  | blank {n : NodeId} {tag : Xml.Tag} {attributes : List (String × String)} {kind : EntryKind}
      {key : String} {events : List Xml.Event} {deeds : List Deed} :
      Keyed tag attributes key → tag.name ≠ "model" → EntryKind.ofTag? tag.name = some kind →
      Inside n events deeds → Inside n (.empty tag :: events) (.store n kind key "" :: deeds)
  | model {n child : NodeId} {tag : Xml.Tag} {attributes : List (String × String)} {key : String}
      {inside events : List Xml.Event} {inner deeds : List Deed} :
      Keyed tag attributes key → tag.name = "model" → Inside child inside inner →
      Inside n events deeds →
      Inside n (.start tag :: inside ++ .stop tag.name :: events)
        (.create n key child :: .describe child attributes :: inner ++ .introspect child :: deeds)
  | hollow {n child : NodeId} {tag : Xml.Tag} {attributes : List (String × String)} {key : String}
      {events : List Xml.Event} {deeds : List Deed} :
      Keyed tag attributes key → tag.name = "model" → Inside n events deeds →
      Inside n (.empty tag :: events)
        (.create n key child :: .describe child attributes :: .introspect child :: deeds)

/-- Any number of elements on the top level, and what is done for them: each stands for the node of
the document. -/
inductive Elements (root : NodeId) : List Xml.Event → List Deed → Prop
  | nil : Elements root [] []
  | idle {event : Xml.Event} {events : List Xml.Event} {deeds : List Deed} :
      Idle event → Elements root events deeds → Elements root (event :: events) deeds
  | element {tag : Xml.Tag} {attributes : List (String × String)} {inside events : List Xml.Event}
      {inner deeds : List Deed} :
      attributes? tag = some attributes → Inside root inside inner → Elements root events deeds →
      Elements root (.start tag :: inside ++ .stop tag.name :: events)
        (.describe root attributes :: inner ++ .introspect root :: deeds)
  | empty {tag : Xml.Tag} {attributes : List (String × String)} {events : List Xml.Event}
      {deeds : List Deed} :
      attributes? tag = some attributes → Elements root events deeds →
      Elements root (.empty tag :: events)
        (.describe root attributes :: .introspect root :: deeds)

/-- One element on the top level, and what is done for it. What stands around it counts for nothing,
as between the elements inside it. -/
inductive Outline (root : NodeId) : List Xml.Event → List Deed → Prop
  | element {tag : Xml.Tag} {attributes : List (String × String)}
      {before inside after : List Xml.Event} {inner : List Deed} :
      (∀ event ∈ before, Idle event) → (∀ event ∈ after, Idle event) →
      attributes? tag = some attributes → Inside root inside inner →
      Outline root (before ++ .start tag :: inside ++ .stop tag.name :: after)
        (.describe root attributes :: inner ++ [.introspect root])
  | empty {tag : Xml.Tag} {attributes : List (String × String)} {before after : List Xml.Event} :
      (∀ event ∈ before, Idle event) → (∀ event ∈ after, Idle event) →
      attributes? tag = some attributes →
      Outline root (before ++ .empty tag :: after) [.describe root attributes, .introspect root]

/-- The elements that stand in no other one, given how many elements are open. -/
def outermost : Nat → List Xml.Event → Nat
  | _, [] => 0
  | 0, .start _ :: rest => 1 + outermost 1 rest
  | depth + 1, .start _ :: rest => outermost (depth + 2) rest
  | 0, .empty _ :: rest => 1 + outermost 0 rest
  | depth + 1, .empty _ :: rest => outermost (depth + 1) rest
  | depth, .stop _ :: rest => outermost (depth - 1) rest
  | depth, .text _ :: rest => outermost depth rest
  | depth, .data _ :: rest => outermost depth rest
  | depth, .aside :: rest => outermost depth rest

/-- The nodes that are created, in order. -/
def created (deeds : List Deed) : List NodeId :=
  deeds.filterMap fun
    | .create _ _ child => some child
    | _ => none

/-- The nodes that are introspected, in order and with repetitions. -/
def introspected (deeds : List Deed) : List NodeId :=
  deeds.filterMap fun
    | .introspect n => some n
    | _ => none

/-! ## What is done -/

/-- A deed leads from a world to another one; the nodes of the open elements are held for it. -/
inductive Deed.Does (s : Setting) : Deed → World → World → Prop
  | describe {nodes : List NodeId} {n : NodeId} {attributes : List (String × String)}
      {a b : World} :
      Action.holding nodes (putDirectives n attributes) a = (.done (), b) →
      Does s (.describe n attributes) a b
  | create {nodes : List NodeId} {parent child : NodeId} {key : String} {a b : World} :
      Action.holding nodes (Action.update (World.createChild · parent key)) a = (.done child, b) →
      Does s (.create parent key child) a b
  | store {nodes : List NodeId} {owner : NodeId} {kind : EntryKind} {key text : String}
      {value : Value} {before : Option Value} {a b c : World} :
      Action.holding nodes (kind.read s.lang owner text) a = (.done value, b) →
      Action.holding nodes (owner.put key value) b = (.done before, c) →
      Does s (.store owner kind key text) a c
  | introspect {nodes : List NodeId} {n : NodeId} {a b : World} :
      Action.holding nodes (s.introspect n) a = (.done (), b) →
      Does s (.introspect n) a b

/-- Deeds lead from a world to another one, in order. -/
inductive DoesAll (s : Setting) : List Deed → World → World → Prop
  | nil {a : World} : DoesAll s [] a a
  | cons {deed : Deed} {deeds : List Deed} {a b c : World} :
      deed.Does s a b → DoesAll s deeds b c → DoesAll s (deed :: deeds) a c

theorem DoesAll.append {s : Setting} {deeds more : List Deed} {a b c : World}
    (h : DoesAll s deeds a b) (h' : DoesAll s more b c) : DoesAll s (deeds ++ more) a c := by
  induction h with
  | nil => exact h'
  | cons hdoes _ ih => exact .cons hdoes (ih h')

variable {s : Setting} {nodes : List NodeId} {stack next outer : List Element}
  {element : Element} {n parent : NodeId} {tag : Xml.Tag} {event : Xml.Event}
  {events : List Xml.Event} {name : String} {names : List String} {a b u : World}

theorem steps_cons_done (h : s.steps stack (event :: events) a = (.done next, u)) :
    ∃ following b, Action.holding (stack.map Element.node) (s.step stack event) a =
      (.done following, b) ∧ s.steps following events b = (.done next, u) :=
  Action.bind_eq_done h

theorem not_done_fault {α : Type} {value : α} {detail : Detail} :
    Action.holding nodes (s.fault detail : Action α) a ≠ (.done value, b) :=
  fun h => nomatch h

theorem Idle.endsMatch (h : Idle event) (hends : Xml.EndsMatch names (event :: events)) :
    Xml.EndsMatch names events := by
  cases h <;> cases names <;> exact hends

/-- Nothing happens between elements. -/
theorem Idle.step_done (hidle : Idle event) {stack : List Element}
    (hstack : stack = [] ∨ ∃ n outer, stack = .model n :: outer)
    (h : Action.holding nodes (s.step stack event) a = (.done next, b)) :
    next = stack ∧ b = a := by
  rcases hstack with rfl | ⟨n, outer, rfl⟩
  all_goals cases hidle <;> cases h <;> exact ⟨rfl, rfl⟩

theorem close_model_done [∀ n, (s.introspect n).Orderly]
    (h : Action.holding nodes (s.close (.model n :: outer)) a = (.done next, b)) :
    next = outer ∧ (Deed.introspect n).Does s a b := by
  obtain ⟨_, u, hdone, hrest⟩ := Action.holding_bind_eq_done h
  cases hrest
  exact ⟨rfl, .introspect hdone⟩

theorem close_entry_done [s.lang.Orderly] {kind : EntryKind} {key text : String}
    (h : Action.holding nodes (s.close (.entry kind key n text :: outer)) a = (.done next, b)) :
    next = outer ∧ (Deed.store n kind key text).Does s a b := by
  obtain ⟨value, u, hread, hput⟩ := Action.holding_bind_eq_done h
  obtain ⟨before, v, hstored, hrest⟩ := Action.holding_bind_eq_done hput
  cases hrest
  exact ⟨rfl, .store hread hstored⟩

/-- The element that a tag opens inside the element of a node. -/
inductive Opens (s : Setting) (parent : NodeId) (tag : Xml.Tag) : Element → World → World → Prop
  | leaf {attributes : List (String × String)} {key : String} {kind : EntryKind} {a : World} :
      Keyed tag attributes key → tag.name ≠ "model" → EntryKind.ofTag? tag.name = some kind →
      Opens s parent tag (.entry kind key parent "") a a
  | model {attributes : List (String × String)} {key : String} {child : NodeId} {a b : World} :
      Keyed tag attributes key → tag.name = "model" →
      DoesAll s [.create parent key child, .describe child attributes] a b →
      Opens s parent tag (.model child) a b

instance orderly_createChild (parent : NodeId) (key : String) :
    (Action.update (World.createChild · parent key)).Orderly :=
  ⟨fun a => World.Fills.continues_createChild a parent key⟩

theorem openTag_done [∀ n, (s.introspect n).Orderly] [s.lang.Orderly]
    (h : Action.holding nodes (s.openTag (.model parent :: outer) tag) a = (.done next, b)) :
    ∃ element, next = element :: .model parent :: outer ∧ Opens s parent tag element a b := by
  rw [openTag] at h
  split at h
  · exact (not_done_fault h).elim
  · rename_i attributes hsound
    obtain ⟨element, u, hopen, hrest⟩ := Action.holding_bind_eq_done
      (p := s.openInside parent tag.name attributes) h
    cases hrest
    refine ⟨element, rfl, ?_⟩
    rw [openInside] at hopen
    split at hopen
    · exact (not_done_fault hopen).elim
    · rename_i key hfound
      split at hopen
      · rename_i hmodel
        obtain ⟨child, v, hcreated, hinside⟩ := Action.holding_bind_eq_done
          (p := Action.update (World.createChild · parent key)) hopen
        obtain ⟨_, v', hdescribed, hinside⟩ := Action.holding_bind_eq_done hinside
        cases hinside
        exact .model ⟨hsound, hfound⟩ (eq_of_beq hmodel)
          (.cons (.create hcreated) (.cons (.describe hdescribed) .nil))
      · rename_i hmodel
        split at hopen
        · rename_i kind hkind
          cases hopen
          exact .leaf ⟨hsound, hfound⟩ (fun heq => hmodel (beq_iff_eq.mpr heq)) hkind
        · exact (not_done_fault hopen).elim

/-- The outermost element stands for the node of the document. -/
theorem openTag_outermost_done (h : Action.holding nodes (s.openTag [] tag) a = (.done next, b)) :
    ∃ attributes, attributes? tag = some attributes ∧ next = [.model s.root] ∧
      (Deed.describe s.root attributes).Does s a b := by
  rw [openTag] at h
  split at h
  · exact (not_done_fault h).elim
  · rename_i attributes hsound
    cases h
    exact ⟨attributes, hsound, rfl, @Deed.Does.describe s nodes _ _ _ _ rfl⟩

/-- The events of a leaf. -/
theorem exists_content [∀ n, (s.introspect n).Orderly] [s.lang.Orderly] {kind : EntryKind}
    {key before : String} (hends : Xml.EndsMatch (name :: names) events)
    (h : s.steps (.entry kind key n before :: outer) events a = (.done [], u)) :
    ∃ content text rest b, events = content ++ .stop name :: rest ∧ Spells text content ∧
      (Deed.store n kind key (before ++ text)).Does s a b ∧ s.steps outer rest b = (.done [], u) ∧
      Xml.EndsMatch names rest := by
  induction events generalizing before a with
  | nil => cases h
  | cons event events ih =>
      obtain ⟨following, b, hstep, hrest⟩ := steps_cons_done h
      -- No tag may start inside a leaf.
      have htag : ∀ tag next u, Action.holding
          ((Element.entry kind key n before :: outer).map Element.node)
          (s.openTag (.entry kind key n before :: outer) tag) a ≠ (.done next, u) := by
        intro tag next u hopen
        rw [openTag] at hopen
        split at hopen
        · exact not_done_fault hopen
        · exact not_done_fault hopen
      cases event with
      | start tag => exact (htag tag _ _ hstep).elim
      | empty tag =>
          obtain ⟨middle, v, hopen, -⟩ := Action.holding_bind_eq_done hstep
          exact (htag tag _ _ hopen).elim
      | stop name =>
          obtain ⟨rfl, hends⟩ := hends
          obtain ⟨rfl, hdoes⟩ := close_entry_done hstep
          exact ⟨[], "", events, b, rfl, .nil, by rwa [String.append_empty], hrest, hends⟩
      | text content =>
          cases content with
          | none => exact (not_done_fault hstep).elim
          | some content =>
              cases hstep
              obtain ⟨others, text, rest, b, rfl, hspells, hdoes, hrest⟩ := ih hends hrest
              exact ⟨_, content ++ text, rest, b, rfl, .text content hspells,
                by rwa [← String.append_assoc], hrest⟩
      | data content =>
          cases hstep
          obtain ⟨others, text, rest, b, rfl, hspells, hdoes, hrest⟩ := ih hends hrest
          exact ⟨_, content ++ text, rest, b, rfl, .data content hspells,
            by rwa [← String.append_assoc], hrest⟩
      | aside =>
          cases hstep
          obtain ⟨others, text, rest, b, rfl, hspells, hdoes, hrest⟩ := ih hends hrest
          exact ⟨_, text, rest, b, rfl, .aside hspells, hdoes, hrest⟩

/-- The events of a model: those inside its element, its end, and the others. -/
theorem exists_inside [∀ n, (s.introspect n).Orderly] [s.lang.Orderly] {n : NodeId}
    {outer : List Element} {events : List Xml.Event} {name : String} {names : List String}
    {a : World} (hends : Xml.EndsMatch (name :: names) events)
    (h : s.steps (.model n :: outer) events a = (.done [], u)) :
    ∃ inside rest deeds b, events = inside ++ .stop name :: rest ∧ Inside n inside deeds ∧
      DoesAll s (deeds ++ [.introspect n]) a b ∧ s.steps outer rest b = (.done [], u) ∧
      Xml.EndsMatch names rest := by
  match events with
  | [] => cases h
  | event :: events =>
      obtain ⟨following, b, hstep, hrest⟩ := steps_cons_done h
      by_cases hidle : Idle event
      · obtain ⟨rfl, rfl⟩ := hidle.step_done (.inr ⟨n, outer, rfl⟩) hstep
        obtain ⟨inside, rest, deeds, d, rfl, hinside, hall⟩ :=
          exists_inside (hidle.endsMatch hends) hrest
        exact ⟨_, rest, deeds, d, rfl, .idle hidle hinside, hall⟩
      · cases event with
        | start tag =>
            have hends : Xml.EndsMatch (tag.name :: name :: names) events := hends
            obtain ⟨element, rfl, hopens⟩ := openTag_done hstep
            cases hopens with
            | @leaf attributes key kind _ hkeyed hname hkind =>
                obtain ⟨content, text, others, c, rfl, hspells, hdoes, hrest, hends⟩ :=
                  exists_content hends hrest
                obtain ⟨inside, rest, deeds, d, rfl, hinside, hall, hrest⟩ :=
                  exists_inside hends hrest
                refine ⟨_, rest, _, d, ?_, .leaf hkeyed hname hkind hspells hinside,
                  .cons hdoes hall, hrest⟩
                simp
            | @model attributes key child _ _ hkeyed hname hopened =>
                -- The run is split where the inner element ends, and again where this one does.
                obtain ⟨inner, others, first, c, rfl, hinner, hfirst, hrest, hends⟩ :=
                  exists_inside hends hrest
                obtain ⟨inside, rest, deeds, d, rfl, hinside, hall, hrest⟩ :=
                  exists_inside hends hrest
                refine ⟨_, rest, _, d, ?_, .model hkeyed hname hinner hinside, ?_, hrest⟩
                · simp
                · have hboth := hopened.append (hfirst.append hall)
                  simpa using hboth
        | empty tag =>
            have hends : Xml.EndsMatch (name :: names) events := hends
            obtain ⟨middle, v, hopen, hclose⟩ := Action.holding_bind_eq_done hstep
            rw [Action.holding_holding] at hclose
            obtain ⟨element, rfl, hopens⟩ := openTag_done hopen
            cases hopens with
            | @leaf attributes key kind _ hkeyed hname hkind =>
                obtain ⟨rfl, hdoes⟩ := close_entry_done hclose
                obtain ⟨inside, rest, deeds, d, rfl, hinside, hall, hrest⟩ :=
                  exists_inside hends hrest
                exact ⟨_, rest, _, d, rfl, .blank hkeyed hname hkind hinside, .cons hdoes hall,
                  hrest⟩
            | @model attributes key child _ _ hkeyed hname hopened =>
                obtain ⟨rfl, hdoes⟩ := close_model_done hclose
                obtain ⟨inside, rest, deeds, d, rfl, hinside, hall, hrest⟩ :=
                  exists_inside hends hrest
                exact ⟨_, rest, _, d, rfl, .hollow hkeyed hname hinside,
                  hopened.append (.cons hdoes hall), hrest⟩
        | stop name =>
            obtain ⟨rfl, hends⟩ := hends
            obtain ⟨rfl, hdoes⟩ := close_model_done hstep
            exact ⟨[], events, [], b, rfl, .nil, .cons hdoes .nil, hrest, hends⟩
        | text content =>
            cases content with
            | none => exact (not_done_fault hstep).elim
            | some content => exact (hidle (.text content)).elim
        | data content => exact (hidle (.data content)).elim
        | aside => exact (hidle .aside).elim
  termination_by events.length

/-- The events of a document, element by element. -/
theorem exists_elements [∀ n, (s.introspect n).Orderly] [s.lang.Orderly] {events : List Xml.Event}
    {a : World} (hends : Xml.EndsMatch [] events) (h : s.steps [] events a = (.done [], u)) :
    ∃ deeds, Elements s.root events deeds ∧ DoesAll s deeds a u := by
  match events with
  | [] =>
      cases h
      exact ⟨[], .nil, .nil⟩
  | event :: events =>
      obtain ⟨following, b, hstep, hrest⟩ := steps_cons_done h
      by_cases hidle : Idle event
      · obtain ⟨rfl, rfl⟩ := hidle.step_done (.inl rfl) hstep
        obtain ⟨deeds, helements, hall⟩ := exists_elements (hidle.endsMatch hends) hrest
        exact ⟨deeds, .idle hidle helements, hall⟩
      · cases event with
        | start tag =>
            have hends : Xml.EndsMatch [tag.name] events := hends
            obtain ⟨attributes, hsound, rfl, hdescribed⟩ := openTag_outermost_done hstep
            obtain ⟨inside, rest, inner, c, rfl, hinside, hall, hrest, hends⟩ :=
              exists_inside hends hrest
            obtain ⟨deeds, helements, hothers⟩ := exists_elements hends hrest
            refine ⟨_, .element hsound hinside helements, .cons hdescribed ?_⟩
            have hboth := hall.append hothers
            simpa using hboth
        | empty tag =>
            have hends : Xml.EndsMatch [] events := hends
            obtain ⟨middle, v, hopen, hclose⟩ := Action.holding_bind_eq_done hstep
            rw [Action.holding_holding] at hclose
            obtain ⟨attributes, hsound, rfl, hdescribed⟩ := openTag_outermost_done hopen
            obtain ⟨rfl, hdoes⟩ := close_model_done hclose
            obtain ⟨deeds, helements, hothers⟩ := exists_elements hends hrest
            exact ⟨_, .empty hsound helements, .cons hdescribed (.cons hdoes hothers)⟩
        | stop name => exact hends.elim
        | text content =>
            cases content with
            | none => exact (not_done_fault hstep).elim
            | some content => exact (hidle (.text content)).elim
        | data content => exact (hidle (.data content)).elim
        | aside => exact (hidle .aside).elim
  termination_by events.length

/-! ## One outermost element -/

theorem outermost_idle (h : Idle event) (depth : Nat) (events : List Xml.Event) :
    outermost depth (event :: events) = outermost depth events := by
  cases h <;> cases depth <;> rfl

theorem outermost_spells {text : String} {content : List Xml.Event} (h : Spells text content)
    (depth : Nat) (more : List Xml.Event) :
    outermost depth (content ++ more) = outermost depth more := by
  induction h with
  | nil => rfl
  | text content _ ih => exact (outermost_idle (.text content) depth _).trans ih
  | data content _ ih => exact (outermost_idle (.data content) depth _).trans ih
  | aside _ ih => exact (outermost_idle .aside depth _).trans ih

/-- What stands inside an element is not on the top level. -/
theorem Inside.outermost_append {deeds : List Deed} (h : Inside n events deeds) (depth : Nat)
    (more : List Xml.Event) :
    outermost (depth + 1) (events ++ more) = outermost (depth + 1) more := by
  induction h generalizing depth more with
  | nil => rfl
  | idle hidle _ ih => exact (outermost_idle hidle _ _).trans (ih depth more)
  | @leaf n tag attributes kind key text content events deeds _ _ _ hspells _ ih =>
      rw [List.append_assoc, List.cons_append, List.cons_append]
      exact (outermost_spells hspells (depth + 2) _).trans (ih depth more)
  | blank _ _ _ _ ih => exact ih depth more
  | @model n child tag attributes key inside events inner deeds _ _ _ _ ih ih' =>
      rw [List.append_assoc, List.cons_append, List.cons_append]
      exact (ih (depth + 1) _).trans (ih' depth more)
  | hollow _ _ _ ih => exact ih depth more

theorem Elements.idle_of_outermost {root : NodeId} {deeds : List Deed}
    (h : Elements root events deeds) (hnone : outermost 0 events = 0) :
    deeds = [] ∧ ∀ event ∈ events, Idle event := by
  induction h with
  | nil => exact ⟨rfl, fun _ he => (List.not_mem_nil he).elim⟩
  | idle hidle _ ih =>
      obtain ⟨hdeeds, hrest⟩ := ih ((outermost_idle hidle 0 _).symm.trans hnone)
      exact ⟨hdeeds, List.forall_mem_cons.mpr ⟨hidle, hrest⟩⟩
  | element _ _ _ =>
      rw [List.cons_append, outermost] at hnone
      omega
  | empty _ _ =>
      rw [outermost] at hnone
      omega

theorem Outline.cons {root : NodeId} {deeds : List Deed} {event : Xml.Event} (hidle : Idle event)
    (h : Outline root events deeds) : Outline root (event :: events) deeds := by
  cases h with
  | element hbefore hafter hsound hinside =>
      have hfirst := List.forall_mem_cons.mpr ⟨hidle, hbefore⟩
      have hmore := Outline.element hfirst hafter hsound hinside
      exact hmore
  | empty hbefore hafter hsound =>
      have hfirst := List.forall_mem_cons.mpr ⟨hidle, hbefore⟩
      have hmore := @Outline.empty root _ _ _ _ hfirst hafter hsound
      exact hmore

/-- A document with one outermost element. -/
theorem Elements.outline {root : NodeId} {deeds : List Deed} (h : Elements root events deeds)
    (hone : outermost 0 events = 1) : Outline root events deeds := by
  have hfirst : ∀ event ∈ ([] : List Xml.Event), Idle event := List.forall_mem_nil _
  induction h with
  | nil => cases hone
  | @idle event events deeds hidle _ ih =>
      exact (ih ((outermost_idle hidle 0 _).symm.trans hone)).cons hidle
  | @element tag attributes inside events inner deeds hsound hinside helements _ =>
      rw [List.cons_append, outermost, hinside.outermost_append 0] at hone
      have hnone : outermost 0 events = 0 := by
        rw [outermost] at hone
        simpa using hone
      obtain ⟨rfl, hafter⟩ := helements.idle_of_outermost hnone
      have houtline := Outline.element hfirst hafter hsound hinside
      exact houtline
  | @empty tag attributes events deeds hsound helements _ =>
      have hnone : outermost 0 events = 0 := by
        rw [outermost] at hone
        omega
      obtain ⟨rfl, hafter⟩ := helements.idle_of_outermost hnone
      have houtline := @Outline.empty root _ _ _ _ hfirst hafter hsound
      exact houtline

theorem outermost_idles {before : List Xml.Event} (h : ∀ event ∈ before, Idle event)
    (events : List Xml.Event) : outermost 0 (before ++ events) = outermost 0 events := by
  induction before with
  | nil => rfl
  | cons event before ih =>
      obtain ⟨hidle, hrest⟩ := List.forall_mem_cons.mp h
      exact (outermost_idle hidle 0 _).trans (ih hrest)

/-- An outline is one of a single outermost element. -/
theorem Outline.outermost_eq {root : NodeId} {deeds : List Deed} (h : Outline root events deeds) :
    outermost 0 events = 1 := by
  have hnone : ∀ {after : List Xml.Event}, (∀ event ∈ after, Idle event) →
      outermost 0 after = 0 := by
    intro after hafter
    have hidles := outermost_idles hafter []
    rwa [List.append_nil] at hidles
  cases h with
  | element hbefore hafter _ hinside =>
      rw [List.append_assoc, outermost_idles hbefore, List.cons_append, outermost,
        hinside.outermost_append 0, outermost]
      exact congrArg (1 + ·) (hnone hafter)
  | empty hbefore hafter _ =>
      rw [outermost_idles hbefore, outermost, hnone hafter]

/-! ## Nodes that are created -/

theorem introspected_append (deeds more : List Deed) :
    introspected (deeds ++ more) = introspected deeds ++ introspected more :=
  List.filterMap_append

theorem created_append (deeds more : List Deed) :
    created (deeds ++ more) = created deeds ++ created more :=
  List.filterMap_append

/-- The nodes of the models inside an element are introspected, each of them once. -/
theorem Inside.introspected_perm {deeds : List Deed} (h : Inside n events deeds) :
    (introspected deeds).Perm (created deeds) := by
  induction h with
  | nil => exact .nil
  | idle _ _ ih => exact ih
  | leaf _ _ _ _ _ ih => exact ih
  | blank _ _ _ _ ih => exact ih
  | @model n child tag attributes key inside events inner deeds _ _ _ _ ih ih' =>
      have hdone : introspected (.create n key child :: .describe child attributes :: inner ++
          .introspect child :: deeds) = introspected inner ++ child :: introspected deeds :=
        introspected_append inner (.introspect child :: deeds)
      have hmade : created (.create n key child :: .describe child attributes :: inner ++
          .introspect child :: deeds) = child :: (created inner ++ created deeds) :=
        congrArg (List.cons child) (created_append inner (.introspect child :: deeds))
      rw [hdone, hmade]
      exact List.perm_middle.trans (.cons child (ih.append ih'))
  | hollow _ _ _ ih => exact .cons _ ih

/-- The node of the document is introspected once, and so are those of the models in it. -/
theorem Outline.introspected_perm {root : NodeId} {deeds : List Deed}
    (h : Outline root events deeds) : (introspected deeds).Perm (root :: created deeds) := by
  cases h with
  | @element tag attributes before inside after inner _ _ _ hinside =>
      have hdone : introspected (.describe root attributes :: inner ++ [.introspect root]) =
          introspected inner ++ [root] := introspected_append _ _
      have hmade : created (.describe root attributes :: inner ++ [.introspect root]) =
          created inner := (created_append _ _).trans (List.append_nil _)
      rw [hdone, hmade]
      exact List.perm_middle.trans (.cons root (by simpa using hinside.introspected_perm))
  | empty => exact .refl _

theorem Deed.Does.continues [∀ n, (s.introspect n).Orderly] [s.lang.Orderly] {deed : Deed}
    (h : deed.Does s a b) : a.Continues b := by
  cases h with
  | describe h => exact Action.continues_of_done h
  | create h => exact Action.continues_of_done h
  | store hread hput =>
      exact (Action.continues_of_done hread).trans (Action.continues_of_done hput)
  | introspect h => exact Action.continues_of_done h

/-- Created nodes are new, and different from each other. -/
theorem DoesAll.created_fresh [∀ n, (s.introspect n).Orderly] [s.lang.Orderly]
    {deeds : List Deed} (h : DoesAll s deeds a b) :
    (created deeds).Nodup ∧ ∀ m ∈ created deeds, a.cells.size ≤ m.index := by
  induction h with
  | nil => exact ⟨List.nodup_nil, fun _ hm => (List.not_mem_nil hm).elim⟩
  | @cons deed deeds a b c hdoes _ ih =>
      obtain ⟨hnodup, hfresh⟩ := ih
      have hlater : ∀ m ∈ created deeds, a.cells.size ≤ m.index := fun m hm =>
        Nat.le_trans hdoes.continues.size (hfresh m hm)
      cases hdoes with
      | describe => exact ⟨hnodup, hlater⟩
      | store => exact ⟨hnodup, hlater⟩
      | introspect => exact ⟨hnodup, hlater⟩
      | @create nodes parent child key _ _ hcreate =>
          obtain ⟨u, hcreated, rfl⟩ := Action.exists_run_of_holding hcreate
          obtain ⟨hindex, hsize⟩ := World.index_createChild (a.hold nodes) parent key
          have hchild : child.index = a.cells.size ∧ u.cells.size = a.cells.size + 1 := by
            cases hcreated
            exact ⟨hindex, hsize⟩
          refine ⟨List.nodup_cons.mpr ⟨fun hmem => ?_, hnodup⟩,
            List.forall_mem_cons.mpr ⟨Nat.le_of_eq hchild.1.symm, hlater⟩⟩
          have hafter : u.cells.size ≤ child.index := hfresh child hmem
          omega

/-! ## Documents that are appended -/

/-- The nodes held around a deed are held for it. -/
theorem Deed.Does.held {deed : Deed} (h : deed.Does s (a.hold nodes) b) :
    deed.Does s a { b with held := a.held } ∧
      b = ({ b with held := a.held } : World).hold nodes := by
  cases h with
  | describe h =>
      obtain ⟨hdone, hheld⟩ := Action.holding_of_held h
      exact ⟨.describe hdone, hheld⟩
  | create h =>
      obtain ⟨hdone, hheld⟩ := Action.holding_of_held h
      exact ⟨.create hdone, hheld⟩
  | store hread hput =>
      obtain ⟨hvalue, hheld⟩ := Action.holding_of_held hread
      rw [hheld] at hput
      obtain ⟨hstored, hheld⟩ := Action.holding_of_held hput
      exact ⟨.store hvalue hstored, hheld⟩
  | introspect h =>
      obtain ⟨hdone, hheld⟩ := Action.holding_of_held h
      exact ⟨.introspect hdone, hheld⟩

theorem DoesAll.held {deeds : List Deed} (h : DoesAll s deeds (a.hold nodes) b) :
    DoesAll s deeds a { b with held := a.held } := by
  induction deeds generalizing a with
  | nil =>
      cases h
      exact .nil
  | cons deed deeds ih =>
      cases h with
      | cons hdoes hall =>
          obtain ⟨hdone, hheld⟩ := hdoes.held
          rw [hheld] at hall
          exact .cons hdone (ih hall)

theorem read_done [∀ n, (s.introspect n).Orderly] [s.lang.Orderly] {text : String}
    (h : s.read text a = (.done (), b)) :
    (Xml.read text).complete = true ∧
      ∃ deeds, Elements s.root (Xml.read text).events deeds ∧ DoesAll s deeds a b := by
  obtain ⟨stack, u, hsteps, hend⟩ := Action.bind_eq_done h
  split at hend
  · cases hend
  · rename_i hcomplete
    split at hend
    · cases hend
    · rename_i hstack
      cases hend
      cases stack with
      | nil =>
          obtain ⟨deeds, helements, hall⟩ := exists_elements (Xml.endsMatch_read text) hsteps
          exact ⟨by simpa using hcomplete, deeds, helements, hall⟩
      | cons element stack => exact absurd rfl hstack

/-- A text with one outermost element is appended only when its events are nested, each model and
each leaf under a key. Then the nodes of its models have been created, each in the node around it
and under its key, the leaves have been stored, and each node has been introspected once, when all
inside its element was done. -/
theorem append_outline (lang : Language) [lang.Orderly] {source text : String} {w w' : World}
    (hone : outermost 0 (Xml.read text).events = 1)
    (h : append (NodeId.introspect lang) lang n source text w = (.done (), w')) :
    ∃ item made deeds filled, w.createUnder (some n) = (item, made) ∧
      (Xml.read text).complete = true ∧
      Outline item (Xml.read text).events deeds ∧
      DoesAll ⟨NodeId.introspect lang, lang, source, item⟩ deeds made filled ∧
      (introspected deeds).Perm (item :: created deeds) ∧ (item :: created deeds).Nodup ∧
      w' = filled.merge n (filled.cell item).entries := by
  obtain ⟨item, made, hmade, hbuilt⟩ := Action.bind_eq_done h
  obtain ⟨_, filled, hfilled, hmerged⟩ := Action.bind_eq_done hbuilt
  obtain ⟨u, hread, rfl⟩ := Action.exists_run_of_holding hfilled
  let s : Setting := ⟨NodeId.introspect lang, lang, source, item⟩
  have hs : ∀ n, (s.introspect n).Orderly := fun n => NodeId.orderly_introspect lang n
  have hl : s.lang.Orderly := inferInstanceAs lang.Orderly
  obtain ⟨hcomplete, deeds, helements, hall⟩ := read_done hread
  have houtline := helements.outline hone
  have hitem : item.index < made.cells.size := by
    obtain ⟨hindex, hsize⟩ := World.index_createUnder w n
    have hlt : (w.createUnder (some n)).1.index < (w.createUnder (some n)).2.cells.size := by omega
    cases hmade
    exact hlt
  obtain ⟨hnodup, hfresh⟩ := hall.created_fresh
  refine ⟨item, made, deeds, _, ?_, hcomplete, houtline, hall.held, houtline.introspected_perm,
    List.nodup_cons.mpr ⟨fun hmem => ?_, hnodup⟩, ?_⟩
  · cases hmade
    rfl
  · have hnew : made.cells.size ≤ item.index := hfresh item hmem
    omega
  · cases hmerged
    rfl

/-- A document with a leaf, a model in a model and attributes. -/
def nestedText : String :=
  "<site owner=\"fred\"> <text key=\"title\"> Home </text> <model key=\"page\" colour=\"blue\">" ++
    "<model key=\"footer\"><boolean key=\"shown\">true</boolean></model></model> </site>"

theorem append_outline_nested : outermost 0 (Xml.read nestedText).events = 1 ∧ ∃ w',
    append (NodeId.introspect (.ofFuel 0)) (.ofFuel 0) ⟨1⟩ "(inline)" nestedText World.lone =
        (.done (), w') ∧
      ∃ item made deeds filled, World.lone.createUnder (some ⟨1⟩) = (item, made) ∧
        (Xml.read nestedText).complete = true ∧
        Outline item (Xml.read nestedText).events deeds ∧
        DoesAll ⟨NodeId.introspect (.ofFuel 0), .ofFuel 0, "(inline)", item⟩ deeds made filled ∧
        (introspected deeds).Perm (item :: created deeds) ∧ (item :: created deeds).Nodup ∧
        w' = filled.merge ⟨1⟩ (filled.cell item).entries := by
  have hruns : outermost 0 (Xml.read nestedText).events = 1 ∧
      (append (NodeId.introspect (.ofFuel 0)) (.ofFuel 0) ⟨1⟩ "(inline)" nestedText
        World.lone).1.isDone = true := by decide +kernel
  have hdone := Action.eq_done_of_isDone hruns.2
  exact ⟨hruns.1, _, hdone, append_outline (.ofFuel 0) hruns.1 hdone⟩

/-- A text without any element is appended, and so is one with two elements on the top level. -/
theorem append_unrooted :
    (∃ w', append (NodeId.introspect (.ofFuel 0)) (.ofFuel 0) ⟨1⟩ "(inline)" "" World.lone =
      (.done (), w')) ∧
    (∃ w', append (NodeId.introspect (.ofFuel 0)) (.ofFuel 0) ⟨1⟩ "(inline)" "<a/><b/>" World.lone =
      (.done (), w')) ∧
    ∀ item deeds, ¬ Outline item (Xml.read "").events deeds ∧
      ¬ Outline item (Xml.read "<a/><b/>").events deeds := by
  have hnone := @Action.eq_done_of_isDone (append (NodeId.introspect (.ofFuel 0)) (.ofFuel 0) ⟨1⟩
    "(inline)" "") World.lone (by decide +kernel)
  have htwo := @Action.eq_done_of_isDone (append (NodeId.introspect (.ofFuel 0)) (.ofFuel 0) ⟨1⟩
    "(inline)" "<a/><b/>") World.lone (by decide +kernel)
  have hzero : outermost 0 (Xml.read "").events ≠ 1 := by decide +kernel
  have hmany : outermost 0 (Xml.read "<a/><b/>").events ≠ 1 := by decide +kernel
  exact ⟨⟨_, hnone⟩, ⟨_, htwo⟩, fun item deeds =>
    ⟨fun h => hzero h.outermost_eq, fun h => hmany h.outermost_eq⟩⟩

end Document

end ScriptTree
