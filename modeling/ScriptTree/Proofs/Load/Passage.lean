import ScriptTree.CommandLine
import ScriptTree.Proofs.Load.Upkeep

/-!
# The passage of a load

A load goes through introspections of the nodes that it fills, and through files that these ask for.
`NodeId.Fills` says which introspections a literal comes to, with the world at that moment,
`Document.Setting.Closes` says so of a document, and `NodeId.Requests` tells which files the
instructions of a node ask for. What the parts of a load keep, the load keeps, given that it holds
of those introspections and files (`NodeId.keeps_newChild`, `Document.keeps_build`,
`NodeId.keeps_introspectWith`); so all instructions keep it (`NodeId.upholds_introspect`).
-/

set_option autoImplicit false

namespace ScriptTree

namespace NodeId

open World (Kept Ready)
open ScriptTree.Action

/-! ## Literals -/

mutual

/-- Filling a node with a JSON value introspects a node, in the world at that moment. -/
inductive Fills (introspect : NodeId → Action Unit) : NodeId → Json → World → NodeId → World → Prop
  /-- The node itself, when its children are filled. -/
  | node {n : NodeId} {members : List (String × Json)} {a u : World} :
      materializeAll introspect (World.putMembers n members a).1 members
        (World.putMembers n members a).2 = (.done (), u) →
      Fills introspect n (.object members) a n u
  /-- A node that comes up while the children are filled. -/
  | inside {n m : NodeId} {members : List (String × Json)} {a u : World} :
      FillsAll introspect (World.putMembers n members a).1 members
        (World.putMembers n members a).2 m u →
      Fills introspect n (.object members) a m u

/-- Filling the children for the members of an object introspects a node. -/
inductive FillsAll (introspect : NodeId → Action Unit) :
    List NodeId → List (String × Json) → World → NodeId → World → Prop
  /-- While the first child is filled. -/
  | first {child m : NodeId} {others : List NodeId} {key : String} {members : List (String × Json)}
      {rest : List (String × Json)} {a u : World} :
      Fills introspect child (.object members) (a.hold (child :: others)) m u →
      FillsAll introspect (child :: others) ((key, .object members) :: rest) a m u
  /-- After the first child is filled. -/
  | later {child m : NodeId} {others : List NodeId} {key : String} {members : List (String × Json)}
      {rest : List (String × Json)} {a b u : World} :
      Action.holding (child :: others) (child.materialize introspect (.object members)) a =
        (.done (), b) →
      FillsAll introspect others rest b m u →
      FillsAll introspect (child :: others) ((key, .object members) :: rest) a m u
  /-- A member that has no child is passed over. -/
  | past {children : List NodeId} {m : NodeId} {key : String} {member : Json}
      {rest : List (String × Json)} {a u : World} :
      (children = [] ∨ ∀ members, member ≠ .object members) →
      FillsAll introspect children rest a m u →
      FillsAll introspect children ((key, member) :: rest) a m u

end

section Literals

variable {I : World → Prop} {site : NodeId → Prop} {F : Halt → Prop} (hk : Kept I site)
  {introspect : NodeId → Action Unit} {n : NodeId} {a : World}

/-- The members of an object are stored in a node, and its children are filled next. -/
theorem ready_putMembers (hk : Kept I site) {n : NodeId} (h : a.Ready I site n)
    (members : List (String × Json)) :
    I (World.putMembers n members a).2 ∧ ∀ child ∈ (World.putMembers n members a).1,
      (World.putMembers n members a).2.Ready I site child := by
  obtain ⟨hput, hrange⟩ := hk.putMembers h.site members h.holds h.lt
  refine ⟨hput, ?_⟩
  intro child hchild
  exact ⟨hput, hk.new a child h.holds (hrange child hchild).1, (hrange child hchild).2⟩

mutual

/-- A node is filled, given what the introspections do that come up on the way. -/
theorem keeps_materialize (hk : Kept I site) (n : NodeId) : ∀ (json : Json) (a : World),
    a.Ready I site n →
    (∀ m u, Fills introspect n json a m u → u.Ready I site m →
      Keeps I F (introspect m) u fun _ _ => True) →
    Keeps I F (n.materialize introspect json) a fun _ _ => True
  | .object members, a, h, hi => by
      obtain ⟨hput, hchildren⟩ := ready_putMembers hk h members
      have hc := World.continues_putMembers n members a
      rw [materialize]
      have hfill : Keeps I F (update (World.putMembers n members)) a fun children u =>
          children = (World.putMembers n members a).1 ∧ u = (World.putMembers n members a).2 :=
        keeps_update hput hc ⟨rfl, rfl⟩
      apply hfill.bind
      rintro _ _ - - - ⟨rfl, rfl⟩
      -- Children come before their parent.
      apply Keeps.bind (Q := fun _ _ => True)
      · apply keeps_materializeAll hk _ members _ hput hchildren
        intro m u hm hu
        exact hi m u (.inside hm) hu
      · intro _ u hrun hu hcu _
        exact hi n u (.node hrun) (h.later (hc.trans hcu) hu)
  | .null, _, h, _ | .bool _, _, h, _ | .number _, _, h, _ | .text _, _, h, _
  | .array _, _, h, _ => keeps_pure h.holds trivial

theorem keeps_materializeAll (hk : Kept I site) : ∀ (children : List NodeId)
    (members : List (String × Json)) (a : World), I a → (∀ c ∈ children, a.Ready I site c) →
    (∀ m u, FillsAll introspect children members a m u → u.Ready I site m →
      Keeps I F (introspect m) u fun _ _ => True) →
    Keeps I F (materializeAll introspect children members) a fun _ _ => True
  | _, [], _, ha, _, _ => keeps_pure ha trivial
  | child :: others, (_, .object members) :: rest, a, ha, hchildren, hi => by
      have hinside := (hchildren child List.mem_cons_self).hold hk (child :: others)
      apply Keeps.bind (Q := fun _ _ => True)
      · apply keeps_holding hk (Q := fun _ _ => True)
        · apply keeps_materialize hk child (.object members) _ hinside
          intro m u hm hu
          exact hi m u (.first hm) hu
        · intro _ _ _
          trivial
      · intro _ u hrun hu hc _
        apply keeps_materializeAll hk others rest u hu
        · intro c hmem
          exact (hchildren c (List.mem_cons_of_mem _ hmem)).later hc hu
        · intro m u' hm hu'
          exact hi m u' (.later hrun hm) hu'
  | [], (_, .object _) :: rest, a, ha, hchildren, hi =>
      keeps_materializeAll hk [] rest a ha hchildren fun m u hm =>
        hi m u (.past (.inl rfl) hm)
  | children, (_, .null) :: rest, a, ha, hchildren, hi
  | children, (_, .bool _) :: rest, a, ha, hchildren, hi
  | children, (_, .number _) :: rest, a, ha, hchildren, hi
  | children, (_, .text _) :: rest, a, ha, hchildren, hi
  | children, (_, .array _) :: rest, a, ha, hchildren, hi =>
      keeps_materializeAll hk children rest a ha hchildren fun m u hm =>
        hi m u (.past (.inr fun _ heq => nomatch heq) hm)

end

include hk

/-- The node of a literal is built. It is new. -/
theorem keeps_newChild (ha : I a) (hn : n.index < a.cells.size) (text : String)
    (hi : ∀ members m u, Json.readLenient? text = some (.object members) →
      Fills introspect (a.createUnder (some n)).1 (.object members)
        ((a.createUnder (some n)).2.hold [(a.createUnder (some n)).1]) m u →
      u.Ready I site m → Keeps I F (introspect m) u fun _ _ => True) :
    Keeps I F (n.newChild introspect text) a fun item u =>
      a.cells.size ≤ item.index ∧ item.index < u.cells.size := by
  rw [newChild]
  split
  · exact keeps_fault ha rfl
  · rename_i members hmembers
    obtain ⟨hindex, hsize⟩ := World.index_createUnder a n
    have hcreated := hk.createUnder a n ha hn
    have hcreate : Keeps I F (update (World.createUnder · (some n))) a fun item u =>
        item = (a.createUnder (some n)).1 ∧ u = (a.createUnder (some n)).2 :=
      keeps_update hcreated (World.continues_createUnder a (some n)) ⟨rfl, rfl⟩
    apply hcreate.bind
    rintro _ _ - - - ⟨rfl, rfl⟩
    have hready : ((a.createUnder (some n)).2.hold [(a.createUnder (some n)).1]).Ready I site
        (a.createUnder (some n)).1 := by
      refine ⟨hk.held _ _ hcreated, hk.new a _ ha (Nat.le_of_eq hindex.symm), ?_⟩
      show (a.createUnder (some n)).1.index < (a.createUnder (some n)).2.cells.size
      omega
    apply Keeps.bind (Q := fun _ _ => True)
    · apply keeps_holding hk (Q := fun _ _ => True)
      · apply keeps_materialize hk _ _ _ hready
        intro m u hm hu
        exact hi members m u hmembers hm hu
      · intro _ _ _
        trivial
    · intro _ u _ hu hc _
      apply keeps_pure hu
      have hgrown := hc.size
      omega
  · exact keeps_fault ha rfl

end Literals

end NodeId

/-! ## Documents -/

namespace EntryKind

open World (Kept Ready)
open ScriptTree.Action

/-- The value of an entry is read. Its nodes are new. -/
theorem keeps_read {I : World → Prop} {site : NodeId → Prop} {F : Halt → Prop} (lang : Language)
    (hk : Kept I site) (kind : EntryKind) {n : NodeId} {a : World} (ha : I a)
    (hn : n.index < a.cells.size) (text : String) :
    Keeps I F (kind.read lang n text) a fun value u =>
      ∀ r ∈ value.nodes, a.cells.size ≤ r.index ∧ r.index < u.cells.size := by
  unfold EntryKind.read
  dsimp only
  split
  · -- Where no script runs, an expression cannot be read.
    apply keeps_of_eq (NodeId.eval_of_inert lang (hk.inert a ha) n _) ha
    · intro x hx
      cases hx
    · intro h hh
      cases hh
  · split
    · rename_i found _
      obtain ⟨hbuilt, hnodes⟩ := hk.build n found a ha hn
      exact keeps_update hbuilt (World.continues_build (some n) found a) hnodes
    · exact keeps_fault ha rfl
  · split
    · rename_i value hvalue
      apply keeps_pure ha
      intro r hr
      rw [(plain_of_scalar hvalue).1] at hr
      cases hr
    · exact keeps_fault ha rfl

end EntryKind

namespace Document.Setting

open World (Kept Ready)
open ScriptTree.Action

/-- Reading events with the given elements open introspects a node, in the world at that moment. -/
inductive Closes (s : Setting) : List Element → List Xml.Event → World → NodeId → World → Prop
  /-- The element of the node ends. -/
  | stop {n : NodeId} {rest : List Element} {name : String} {events : List Xml.Event} {a : World} :
      Closes s (.model n :: rest) (.stop name :: events) a n
        (a.hold ((Element.model n :: rest).map Element.node))
  /-- The element of the node starts and ends. -/
  | empty {n : NodeId} {stack rest : List Element} {tag : Xml.Tag} {events : List Xml.Event}
      {a b : World} :
      s.openTag stack tag (a.hold (stack.map Element.node)) = (.done (.model n :: rest), b) →
      Closes s stack (.empty tag :: events) a n
        (b.hold ((Element.model n :: rest).map Element.node))
  /-- The node comes up in a later event. -/
  | later {m : NodeId} {stack next : List Element} {event : Xml.Event} {events : List Xml.Event}
      {a b u : World} :
      Action.holding (stack.map Element.node) (s.step stack event) a = (.done next, b) →
      Closes s next events b m u →
      Closes s stack (event :: events) a m u

variable {I : World → Prop} {site : NodeId → Prop} {F : Halt → Prop} (hk : Kept I site)
  {s : Setting} {a : World}

theorem ready_addText {stack : List Element} (hstack : ∀ e ∈ stack, a.Ready I site e.node)
    (text : String) : ∀ e ∈ addText stack text, a.Ready I site e.node := by
  cases stack with
  | nil => exact hstack
  | cons top rest =>
      cases top with
      | model n => exact hstack
      | entry kind key owner before =>
          intro e he
          rcases List.mem_cons.mp he with rfl | he
          · exact hstack (.entry kind key owner before) List.mem_cons_self
          · exact hstack e (List.mem_cons_of_mem _ he)

include hk

theorem keeps_putDirectives {n : NodeId} (h : a.Ready I site n)
    (attributes : List (String × String)) :
    Keeps I F (putDirectives n attributes) a fun _ _ => True := by
  have hput := hk.putTexts h.holds h.site
    ((attributes.filter fun a => a.1 != "key").map fun a => ("$" ++ a.1, a.2))
  rw [List.map_map] at hput
  exact keeps_change hput (World.continues_putAll a n _)

theorem keeps_openInside {parent : NodeId} (h : a.Ready I site parent) (name : String)
    (attributes : List (String × String)) :
    Keeps I F (s.openInside parent name attributes) a fun e u => u.Ready I site e.node := by
  rw [openInside]
  split
  · exact keeps_fault h.holds rfl
  · rename_i key _
    split
    · obtain ⟨hindex, hsize⟩ := World.index_createChild a parent key
      have hcreated := hk.createChild a parent key h.holds h.site h.lt
      have hcreate : Keeps I F (update (World.createChild · parent key)) a fun child u =>
          u.Ready I site child := by
        apply keeps_update (f := (World.createChild · parent key)) hcreated
        · exact ((World.continues_create a _).trans (World.continues_setName _ _ key)).trans
            (World.continues_put _ parent key _)
        · exact ⟨hcreated, hk.new a _ h.holds (Nat.le_of_eq hindex.symm), by omega⟩
      apply Keeps.bind hcreate
      intro child u _ _ _ hchild
      apply (keeps_putDirectives hk hchild attributes).bind
      intro _ u' _ hu' hc _
      exact keeps_pure hu' (hchild.later hc hu')
    · split
      · exact keeps_pure h.holds h
      · exact keeps_fault h.holds rfl

theorem keeps_openTag (hroot : a.Ready I site s.root) {stack : List Element}
    (hstack : ∀ e ∈ stack, a.Ready I site e.node) (tag : Xml.Tag) :
    Keeps I F (s.openTag stack tag) a fun stack u => ∀ e ∈ stack, u.Ready I site e.node := by
  have ha := hroot.holds
  rw [openTag]
  split
  · exact keeps_fault ha rfl
  · rename_i attributes _
    cases stack with
    | nil =>
        apply (keeps_putDirectives hk hroot attributes).bind
        intro _ u _ hu hc _
        apply keeps_pure hu
        intro e he
        rcases List.mem_singleton.mp he with rfl
        exact hroot.later hc hu
    | cons top rest =>
        cases top with
        | entry kind key owner text => exact keeps_fault ha rfl
        | model parent =>
            have hparent := hstack (.model parent) List.mem_cons_self
            apply (keeps_openInside hk hparent tag.name attributes).bind
            intro element u _ hu hc helement
            apply keeps_pure hu
            intro e he
            rcases List.mem_cons.mp he with rfl | he
            · exact helement
            · exact (hstack e he).later hc hu

/-- The end of an element, given what the introspection does when it is the element of a node. -/
theorem keeps_close (ha : I a) {stack : List Element} (hstack : ∀ e ∈ stack, a.Ready I site e.node)
    (hi : ∀ n rest, stack = .model n :: rest → Keeps I F (s.introspect n) a fun _ _ => True) :
    Keeps I F (s.close stack) a fun stack u => ∀ e ∈ stack, u.Ready I site e.node := by
  cases stack with
  | nil => exact keeps_fault ha rfl
  | cons top rest =>
      have hrest : ∀ u, a.Continues u → I u → ∀ e ∈ rest, u.Ready I site e.node := by
        intro u hc hu e he
        exact (hstack e (List.mem_cons_of_mem _ he)).later hc hu
      cases top with
      | model n =>
          apply (hi n rest rfl).bind
          intro _ u _ hu hc _
          exact keeps_pure hu (hrest u hc hu)
      | entry kind key owner text =>
          have howner : a.Ready I site owner := hstack (.entry kind key owner text)
            List.mem_cons_self
          apply (EntryKind.keeps_read s.lang hk kind ha howner.lt text).bind
          intro value u _ hu hc hvalue
          apply Keeps.bind (Q := fun _ _ => True)
          · apply keeps_update
            · apply hk.put u owner key value hu howner.site
              intro r hr
              have hrange := hvalue r hr
              exact ⟨Nat.lt_of_lt_of_le howner.lt hrange.1, hrange.2⟩
            · exact World.continues_put u owner key value
            · trivial
          · intro _ u' _ hu' hc' _
            exact keeps_pure hu' (hrest u' (hc.trans hc') hu')

theorem ready_hold {stack : List Element} (hstack : ∀ e ∈ stack, a.Ready I site e.node)
    (nodes : List NodeId) : ∀ e ∈ stack, (a.hold nodes).Ready I site e.node := by
  intro e he
  exact (hstack e he).hold hk nodes

/-- One event. -/
theorem keeps_step (hroot : a.Ready I site s.root) {stack : List Element}
    (hstack : ∀ e ∈ stack, a.Ready I site e.node) (event : Xml.Event)
    (hstop : ∀ n rest name, event = .stop name → stack = .model n :: rest →
      Keeps I F (s.introspect n) a fun _ _ => True)
    (hempty : ∀ n rest tag b, event = .empty tag →
      s.openTag stack tag a = (.done (.model n :: rest), b) →
      (b.hold ((Element.model n :: rest).map Element.node)).Ready I site n →
      Keeps I F (s.introspect n) (b.hold ((Element.model n :: rest).map Element.node))
        fun _ _ => True) :
    Keeps I F (s.step stack event) a fun stack u => ∀ e ∈ stack, u.Ready I site e.node := by
  have ha := hroot.holds
  cases event with
  | start tag => exact keeps_openTag hk hroot hstack tag
  | empty tag =>
      apply (keeps_openTag hk hroot hstack tag).bind
      intro opened u hrun hu hc hopened
      have hinside := ready_hold hk hopened (opened.map Element.node)
      apply keeps_holding hk (Q := fun stack u => ∀ e ∈ stack, u.Ready I site e.node)
      · apply keeps_close hk (hk.held u _ hu) hinside
        rintro n rest rfl
        exact hempty n rest tag u rfl hrun (hinside (.model n) List.mem_cons_self)
      · intro next u' hnext e he
        exact (hnext e he).letGo hk _
  | stop name =>
      apply keeps_close hk ha hstack
      intro n rest hnext
      exact hstop n rest name rfl hnext
  | text content =>
      cases content with
      | none => exact keeps_fault ha rfl
      | some content => exact keeps_pure ha (ready_addText hstack content)
  | data content => exact keeps_pure ha (ready_addText hstack content)
  | aside => exact keeps_pure ha hstack

/-- All events of a document, given what the introspections do that come up on the way. -/
theorem keeps_steps (events : List Xml.Event) {stack : List Element}
    (hroot : a.Ready I site s.root) (hstack : ∀ e ∈ stack, a.Ready I site e.node)
    (hi : ∀ m u, s.Closes stack events a m u → u.Ready I site m →
      Keeps I F (s.introspect m) u fun _ _ => True) :
    Keeps I F (s.steps stack events) a fun _ _ => True := by
  induction events generalizing a stack with
  | nil => exact keeps_pure hroot.holds trivial
  | cons event rest ih =>
      have hinside := ready_hold hk hstack (stack.map Element.node)
      have hroot' := hroot.hold hk (stack.map Element.node)
      apply Keeps.bind (Q := fun stack u => ∀ e ∈ stack, u.Ready I site e.node)
      · apply keeps_holding hk (Q := fun stack u => ∀ e ∈ stack, u.Ready I site e.node)
        · apply keeps_step hk hroot' hinside event
          · rintro n rest name rfl rfl
            exact hi n _ .stop (hinside (.model n) List.mem_cons_self)
          · rintro n rest tag b rfl hopen hready
            exact hi n _ (.empty hopen) hready
        · intro next u hnext e he
          exact (hnext e he).letGo hk _
      · intro next u hrun hu hc hnext
        apply ih (hroot.later hc hu) hnext
        intro m u' hm hu'
        exact hi m u' (.later hrun hm) hu'

theorem keeps_read (hroot : a.Ready I site s.root) (text : String)
    (hi : ∀ m u, s.Closes [] (Xml.read text).events a m u → u.Ready I site m →
      Keeps I F (s.introspect m) u fun _ _ => True) :
    Keeps I F (s.read text) a fun _ _ => True := by
  rw [read]
  apply Keeps.bind (Q := fun _ _ => True)
  · apply keeps_steps hk _ hroot _ hi
    intro e he
    cases he
  · intro stack u _ hu _ _
    split
    · exact keeps_fault hu rfl
    · split
      · exact keeps_fault hu rfl
      · exact keeps_pure hu trivial

end Document.Setting

namespace Document

open World (Kept Ready)
open ScriptTree.Action

variable {I : World → Prop} {site : NodeId → Prop} {F : Halt → Prop} (lang : Language)
  {introspect : NodeId → Action Unit} {n : NodeId} {a : World}

/-- The node of a document: the part of `append` before the merge. -/
def build (introspect : NodeId → Action Unit) (lang : Language) (n : NodeId)
    (source text : String) : Action NodeId := do
  let item ← Action.update (World.createUnder · (some n))
  Action.holding [item] (Setting.read ⟨introspect, lang, source, item⟩ text)
  pure item

theorem append_eq (source text : String) :
    append introspect lang n source text =
      build introspect lang n source text >>= fun item => n.mergeFrom item := by
  rw [append, build, bind_assoc]
  congr 1
  funext item
  rw [bind_assoc]
  rfl

/-- The node of a document is built. It is new. -/
theorem keeps_build (hk : Kept I site) (ha : I a) (hn : n.index < a.cells.size)
    (source text : String)
    (hi : ∀ m u, Setting.Closes ⟨introspect, lang, source, (a.createUnder (some n)).1⟩ []
        (Xml.read text).events ((a.createUnder (some n)).2.hold [(a.createUnder (some n)).1]) m u →
      u.Ready I site m → Keeps I F (introspect m) u fun _ _ => True) :
    Keeps I F (build introspect lang n source text) a fun item u =>
      a.cells.size ≤ item.index ∧ item.index < u.cells.size := by
  obtain ⟨hindex, hsize⟩ := World.index_createUnder a n
  have hcreated := hk.createUnder a n ha hn
  have hcreate : Keeps I F (update (World.createUnder · (some n))) a fun item u =>
      item = (a.createUnder (some n)).1 ∧ u = (a.createUnder (some n)).2 :=
    keeps_update hcreated (World.continues_createUnder a (some n)) ⟨rfl, rfl⟩
  rw [build]
  apply hcreate.bind
  rintro _ _ - - - ⟨rfl, rfl⟩
  have hready : ((a.createUnder (some n)).2.hold [(a.createUnder (some n)).1]).Ready I site
      (a.createUnder (some n)).1 := by
    refine ⟨hk.held _ _ hcreated, hk.new a _ ha (Nat.le_of_eq hindex.symm), ?_⟩
    show (a.createUnder (some n)).1.index < (a.createUnder (some n)).2.cells.size
    omega
  apply Keeps.bind (Q := fun _ _ => True)
  · apply keeps_holding hk (Q := fun _ _ => True)
    · exact Setting.keeps_read hk hready text hi
    · intro _ _ _
      trivial
  · intro _ u _ hu hc _
    apply keeps_pure hu
    have hgrown := hc.size
    omega

end Document

/-! ## Instructions -/

namespace NodeId

open World (Kept Ready)
open ScriptTree.Action

variable {I : World → Prop} {site : NodeId → Prop} {F : Halt → Prop} (lang : Language)
  {introspect : NodeId → Action Unit} {n item : NodeId} {a : World}

/-- A built node is merged into the node that it was built for. -/
theorem keeps_mergeFrom (hk : Kept I site) {p : Action NodeId} (h : a.Ready I site n)
    (hp : Keeps I F p a fun item u => a.cells.size ≤ item.index ∧ item.index < u.cells.size) :
    Keeps I F (p >>= fun item => n.mergeFrom item) a fun _ _ => True := by
  apply hp.bind
  intro item u _ hu hc hitem
  apply keeps_change
  · exact hk.mergeFrom u n item hu h.site (Nat.lt_of_lt_of_le h.lt hitem.1)
  · exact World.continues_merge u n _

/-- Merges a text of a format into a node. The source names the text in reports. -/
def takeText (introspect : NodeId → Action Unit) (lang : Language) (n : NodeId)
    (format : CommandLine.Format) (source text : String) : Action Unit :=
  match format with
  | .json => n.appendJson introspect text
  | .xml => Document.append introspect lang n source text

/-- Takes in a file of a format. -/
def takeFile (introspect : NodeId → Action Unit) (lang : Language) (n : NodeId)
    (format : CommandLine.Format) (path : String) : Action Unit :=
  n.loadFile lang path (n.takeText introspect lang format)

theorem load_eq_takeFile (file : String) (format : CommandLine.Format) :
    CommandLine.load lang n file format = n.takeFile (NodeId.introspect lang) lang format file := by
  cases format <;> rfl

/-- Carrying out the instructions of a node comes to taking in a file. -/
inductive Requests (introspect : NodeId → Action Unit) (lang : Language) (n : NodeId) (a : World) :
    CommandLine.Format → String → World → Prop
  | json {path : String} {u : World} :
      n.Lists lang "$json" (n.takeFile introspect lang .json) a path u →
      Requests introspect lang n a .json path u
  /-- Documents come when all files with literals are through. -/
  | xml {path : String} {b u : World} :
      n.eachFile lang "$json" (n.takeFile introspect lang .json) a = (.done (), b) →
      n.Lists lang "$xml" (n.takeFile introspect lang .xml) b path u →
      Requests introspect lang n a .xml path u

/-- The instructions of a node are carried out, given this for the files that it takes in. -/
theorem keeps_introspectWith (hk : Kept I site) (h : a.Ready I site n)
    (hfile : ∀ format path u, n.Requests introspect lang a format path u → a.Continues u →
      u.Ready I site n → Keeps I F (n.takeFile introspect lang format path) u fun _ _ => True) :
    Keeps I F (n.introspectWith introspect lang) a fun _ _ => True := by
  rw [introspectWith]
  apply Keeps.bind (Q := fun _ _ => True)
  · apply keeps_eachFile lang hk h "$json"
    intro path u hlists hc hu
    exact hfile .json path u (.json hlists) hc hu
  intro _ a₁ hrun ha₁ hc₁ _
  have h₁ := h.later hc₁ ha₁
  apply Keeps.bind (Q := fun _ _ => True)
  · apply keeps_eachFile lang hk h₁ "$xml"
    intro path u hlists hc hu
    exact hfile .xml path u (.xml hrun hlists) (hc₁.trans hc) hu
  intro _ a₂ _ ha₂ hc₂ _
  have h₂ := h₁.later hc₂ ha₂
  apply Keeps.bind (Q := fun _ _ => True)
  · apply keeps_eachFile lang hk h₂ "$properties"
    intro path u _ _ hu
    exact keeps_loadProperties hk hu _ path
  intro _ a₃ _ ha₃ hc₃ _
  have h₃ := h₂.later hc₃ ha₃
  apply Keeps.bind (Q := fun _ _ => True)
  · apply keeps_eachFile lang hk h₃ "$properties-xml"
    intro path u _ _ hu
    exact keeps_loadProperties hk hu _ path
  intro _ a₄ _ ha₄ _ _
  apply keeps_inspect
  cases a₄.getRaw n "$onload" with
  | none => exact keeps_pure ha₄ trivial
  | some steps =>
      -- Steps cannot be run here, and that is no halt.
      have hinert := hk.inert a₄ ha₄
      apply keeps_inspect
      apply keeps_after (expand_of_inert lang hinert n _)
      apply Keeps.bind (Q := fun _ _ => False)
      · apply keeps_of_eq (eval_of_inert lang hinert n _) ha₄
        · intro x hx
          cases hx
        · intro halt hh
          cases hh
      · intro _ _ _ _ _ hfalse
        exact hfalse.elim

/-! ## Whole loads -/

/-- Carrying out the instructions of a node of the kind keeps the property. -/
def Upholds (I : World → Prop) (site : NodeId → Prop) (introspect : NodeId → Action Unit) : Prop :=
  ∀ n a, a.Ready I site n → Keeps I (fun _ => True) (introspect n) a fun _ _ => True

variable (hk : Kept I site)

include hk

theorem keeps_newChild_of_upholds (hi : Upholds I site introspect) (ha : I a)
    (hn : n.index < a.cells.size) (text : String) :
    Keeps I (fun _ => True) (n.newChild introspect text) a fun item u =>
      a.cells.size ≤ item.index ∧ item.index < u.cells.size :=
  keeps_newChild hk ha hn text fun _ m u _ _ hu => hi m u hu

theorem keeps_build_of_upholds (hi : Upholds I site introspect) (ha : I a)
    (hn : n.index < a.cells.size) (source text : String) :
    Keeps I (fun _ => True) (Document.build introspect lang n source text) a fun item u =>
      a.cells.size ≤ item.index ∧ item.index < u.cells.size :=
  Document.keeps_build lang hk ha hn source text fun m u _ hu => hi m u hu

theorem keeps_takeFile_of_upholds (hi : Upholds I site introspect) (h : a.Ready I site n)
    (format : CommandLine.Format) (path : String) :
    Keeps I (fun _ => True) (n.takeFile introspect lang format path) a fun _ _ => True := by
  apply keeps_loadFile lang hk h path
  · intro _ _ _
    trivial
  · intro names _ hmarked
    apply keeps_openFile lang hk hmarked path names
    intro text u _ _ _ hu
    cases format with
    | json => exact keeps_mergeFrom hk hu (keeps_newChild_of_upholds hk hi hu.holds hu.lt text)
    | xml =>
        rw [takeText, Document.append_eq]
        exact keeps_mergeFrom hk hu (keeps_build_of_upholds lang hk hi hu.holds hu.lt _ text)

/-- All that instructions may load keeps what its parts keep, whatever the bound. -/
theorem upholds_introspectWithin (fuel : Nat) : Upholds I site (introspectWithin lang fuel) := by
  induction fuel with
  | zero =>
      intro n a h
      exact keeps_of_eq rfl h.holds (fun _ hx => nomatch hx) fun _ _ => trivial
  | succ fuel ih =>
      intro n a h
      apply keeps_introspectWith lang hk h
      intro format path u _ _ hu
      exact keeps_takeFile_of_upholds lang hk ih hu format path

theorem upholds_introspect : Upholds I site (NodeId.introspect lang) := by
  intro n a h
  exact keeps_inspect (upholds_introspectWithin lang hk _ n a h)

end NodeId

/-! ## Worlds on the way -/

/-- The same files are under way and the same ones can be loaded. -/
structure World.SameLoad (a u : World) : Prop where
  loading : u.loading = a.loading
  files : u.files = a.files

theorem World.Continues.sameLoad {a u : World} (h : a.Continues u) : a.SameLoad u :=
  ⟨h.loading, h.files⟩

theorem World.SameLoad.trans {a b u : World} (h : a.SameLoad b) (h' : b.SameLoad u) :
    a.SameLoad u :=
  ⟨h'.loading.trans h.loading, h'.files.trans h.files⟩

section Way

open World (Kept Ready)

variable {I : World → Prop} {site : NodeId → Prop} (lang : Language)
  {introspect : NodeId → Action Unit}

namespace NodeId

mutual

/-- A node that comes up while a node is filled is of the kind, and the load is the same. -/
theorem Fills.ready (hk : Kept I site) (hi : Upholds I site introspect) {n m : NodeId} {json : Json}
    {a u : World} : Fills introspect n json a m u → a.Ready I site n →
    u.Ready I site m ∧ a.SameLoad u
  | @Fills.node _ _ members _ _ hrun, h => by
      obtain ⟨hput, hchildren⟩ := ready_putMembers hk h members
      have hc := World.continues_putMembers n members a
      have hall : Action.Keeps I (fun _ => True) _ _ fun _ _ => True :=
        keeps_materializeAll hk _ members _ hput hchildren fun m u _ hu => hi m u hu
      obtain ⟨hu, hcu, -⟩ := hall.of_done hrun
      exact ⟨h.later (hc.trans hcu) hu, (hc.trans hcu).sameLoad⟩
  | @Fills.inside _ _ _ members _ _ hall, h => by
      obtain ⟨hput, hchildren⟩ := ready_putMembers hk h members
      obtain ⟨hu, hsame⟩ := FillsAll.ready hk hi hall hput hchildren
      exact ⟨hu, (World.continues_putMembers n members a).sameLoad.trans hsame⟩

theorem FillsAll.ready (hk : Kept I site) (hi : Upholds I site introspect) {children : List NodeId}
    {members : List (String × Json)} {m : NodeId} {a u : World} :
    FillsAll introspect children members a m u → I a → (∀ c ∈ children, a.Ready I site c) →
    u.Ready I site m ∧ a.SameLoad u
  | @FillsAll.first _ child _ others _ _ _ _ _ hfill, ha, hchildren => by
      have hinside := (hchildren child List.mem_cons_self).hold hk (child :: others)
      obtain ⟨hu, hsame⟩ := Fills.ready hk hi hfill hinside
      exact ⟨hu, hsame.loading, hsame.files⟩
  | @FillsAll.later _ child _ others _ members _ _ _ _ hrun hrest, ha, hchildren => by
      have hinside := (hchildren child List.mem_cons_self).hold hk (child :: others)
      have hfill : Action.Keeps I (fun _ => True) _ a fun _ _ => True :=
        Action.keeps_holding hk (Q := fun _ _ => True)
          (keeps_materialize hk child (.object members) _ hinside fun m u _ hu => hi m u hu)
          fun _ _ _ => trivial
      obtain ⟨hb, hc, -⟩ := hfill.of_done hrun
      have hothers : ∀ c ∈ others, _ :=
        fun c hmem => (hchildren c (List.mem_cons_of_mem _ hmem)).later hc hb
      obtain ⟨hu, hsame⟩ := FillsAll.ready hk hi hrest hb hothers
      exact ⟨hu, hc.sameLoad.trans hsame⟩
  | @FillsAll.past _ _ _ _ _ _ _ _ _ hrest, ha, hchildren =>
      FillsAll.ready hk hi hrest ha hchildren

end

/-- A file that instructions ask for is asked for in the same load. -/
theorem Requests.ready (hk : Kept I site) (hi : Upholds I site introspect) {n : NodeId}
    {format : CommandLine.Format} {path : String} {a u : World}
    (hrequest : n.Requests introspect lang a format path u) (h : a.Ready I site n) :
    u.Ready I site n ∧ a.SameLoad u := by
  cases hrequest with
  | json hlists =>
      obtain ⟨hu, hc⟩ := hlists.ready lang hk h fun path u hu =>
        keeps_takeFile_of_upholds lang hk hi hu .json path
      exact ⟨hu, hc.sameLoad⟩
  | xml hrun hlists =>
      have hjson : Action.Keeps I (fun _ => True) _ a fun _ _ => True :=
        keeps_eachFile lang hk h "$json" fun path u _ _ hu =>
          keeps_takeFile_of_upholds lang hk hi hu .json path
      obtain ⟨hb, hc, -⟩ := hjson.of_done hrun
      obtain ⟨hu, hc'⟩ := hlists.ready lang hk (h.later hc hb) fun path u hu =>
        keeps_takeFile_of_upholds lang hk hi hu .xml path
      exact ⟨hu, (hc.trans hc').sameLoad⟩

end NodeId

/-- A node that comes up while a document is read is of the kind, and the load is the same. -/
theorem Document.Setting.Closes.ready (hk : Kept I site) {s : Document.Setting}
    (hi : NodeId.Upholds I site s.introspect) {stack : List Document.Element}
    {events : List Xml.Event} {m : NodeId} {a u : World} (hcloses : s.Closes stack events a m u)
    (hroot : a.Ready I site s.root) (hstack : ∀ e ∈ stack, a.Ready I site e.node) :
    u.Ready I site m ∧ a.SameLoad u := by
  induction hcloses with
  | stop => exact ⟨(hstack _ List.mem_cons_self).hold hk _, rfl, rfl⟩
  | empty hopen =>
      rename_i stack _ tag _ a b
      have hroot' := hroot.hold hk (stack.map Document.Element.node)
      have hinside := Document.Setting.ready_hold hk hstack (stack.map Document.Element.node)
      have hkeeps : Action.Keeps I (fun _ => True) _ _ _ :=
        Document.Setting.keeps_openTag hk hroot' hinside tag
      obtain ⟨-, hc, hopened⟩ := hkeeps.of_done hopen
      exact ⟨(hopened _ List.mem_cons_self).hold hk _, hc.loading, hc.files⟩
  | later hrun _ ih =>
      rename_i stack next event _ a b _ _
      have hroot' := hroot.hold hk (stack.map Document.Element.node)
      have hinside := Document.Setting.ready_hold hk hstack (stack.map Document.Element.node)
      have hkeeps : Action.Keeps I (fun _ => True)
          (Action.holding (stack.map Document.Element.node) (s.step stack event)) a
          fun stack u => ∀ e ∈ stack, u.Ready I site e.node := by
        apply Action.keeps_holding hk (Q := fun stack u => ∀ e ∈ stack, u.Ready I site e.node)
        · apply Document.Setting.keeps_step hk hroot' hinside event
          · rintro n rest name rfl rfl
            exact hi n _ (hinside (.model n) List.mem_cons_self)
          · rintro n rest tag b rfl _ hready
            exact hi n _ hready
        · intro next u hnext e he
          exact (hnext e he).letGo hk _
      obtain ⟨hb, hc, hnext⟩ := hkeeps.of_done hrun
      obtain ⟨hu, hsame⟩ := ih (hroot.later hc hb) hnext
      exact ⟨hu, hc.sameLoad.trans hsame⟩

end Way

end ScriptTree
