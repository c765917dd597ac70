import ScriptTree.Proofs.Load.Replay

/-!
# Documents and instructions replayed

Reading a document steps through its events with a stack of open elements. In twin worlds the stacks
stay the same up to the numbers of their nodes (`Mirrored.Stack`), so the reading of a document
mirrors itself, and with it all that the instructions of a built node may load
(`NodeId.replays_introspect`).
-/

set_option autoImplicit false

namespace ScriptTree

open World (Twin)
open ScriptTree.Action Mirrored

variable {v w a b : World}

/-! ## Typed entries -/

/-- A value that refers to no node at all. -/
def Value.Plain (value : Value) : Prop :=
  value.nodes = [] ∧ ∀ f : NodeId → NodeId, value.rename f = value

namespace EntryKind

theorem plain_ofNumber? (x : Option Number) : (Value.ofNumber? x).Plain := by
  cases x with
  | none => exact ⟨rfl, fun _ => rfl⟩
  | some n => exact ⟨rfl, fun _ => rfl⟩

theorem plain_of_integerValue {result : Except Number.IntegerFault Int} {value : Value}
    (h : integerValue result = .ok value) : value.Plain := by
  cases result with
  | ok n =>
      obtain rfl := Except.ok.inj h
      exact plain_ofNumber? _
  | error fault => cases h

/-- The scalar kinds give no nodes. -/
theorem plain_of_scalar {kind : EntryKind} {s : List Char} {value : Value}
    (h : kind.scalar s = .ok value) : value.Plain := by
  cases kind <;> simp only [scalar] at h
  -- Integers of both widths share one helper; every other arm ends in a scalar or a fault.
  case integer => exact plain_of_integerValue h
  case long => exact plain_of_integerValue h
  all_goals
    repeat' split at h
  all_goals
    first
      | cases h
        exact ⟨rfl, fun _ => rfl⟩
      | cases h
        exact plain_ofNumber? _
      | cases h

variable (lang : Language) {n : NodeId}

/-- The value of an entry, whose nodes are new. -/
theorem mirrors_read (h : Twin v w a b) (hlt : n.index < a.cells.size) (kind : EntryKind)
    (text : String) :
    Mirrors v w a b (fun size x y => x.Moved v w a.cells.size size y) (kind.read lang n text)
      (kind.read lang (n.moved v w) text) := by
  unfold EntryKind.read
  dsimp only
  split
  · -- Where no script runs, an expression cannot be read.
    refine mirrors_of_fails fun x a' hdone => ?_
    rw [NodeId.eval_of_inert lang h.inert.1] at hdone
    cases (Prod.mk.inj hdone).1
  · split
    · rename_i found _
      obtain ⟨htwin, hvalue⟩ := Twin.build n found a b h hlt
      exact mirrors_update htwin (World.continues_build (some n) found a) hvalue
    · exact mirrors_fail _ _
  · split
    · rename_i value hvalue
      obtain ⟨hnodes, hrename⟩ := plain_of_scalar hvalue
      exact mirrors_pure h (Value.moved_self hnodes (hrename _))
    · exact mirrors_fail _ _

end EntryKind

/-! ## Documents -/

namespace Document

/-- The element of the counterpart of a node. -/
def Element.moved (v w : World) : Element → Element
  | .model n => .model (n.moved v w)
  | .entry kind key owner text => .entry kind key (owner.moved v w) text

theorem Element.node_moved (e : Element) : (e.moved v w).node = e.node.moved v w := by
  cases e <;> rfl

end Document

/-- The second run has the same element open, of the counterpart of a built node. -/
def Mirrored.Open (v w : World) (size : Nat) (x y : Document.Element) : Prop :=
  v.cells.size ≤ x.node.index ∧ x.node.index < size ∧ y = x.moved v w

/-- The second run has the same elements open, of the counterparts of built nodes. -/
def Mirrored.Stack (v w : World) (size : Nat) (xs ys : List Document.Element) : Prop :=
  (∀ x ∈ xs, v.cells.size ≤ x.node.index ∧ x.node.index < size) ∧
    ys = xs.map (Document.Element.moved v w)

namespace Document.Setting

variable {s : Setting}

/-- The setting of the counterpart of the node that is filled. -/
def moved (v w : World) (s : Setting) : Setting := { s with root := s.root.moved v w }

theorem stack_cons {size : Nat} {x : Element} {xs : List Element}
    (hx : v.cells.size ≤ x.node.index ∧ x.node.index < size)
    (hxs : ∀ x ∈ xs, v.cells.size ≤ x.node.index ∧ x.node.index < size) :
    ∀ y ∈ x :: xs, v.cells.size ≤ y.node.index ∧ y.node.index < size := by
  intro y hy
  obtain rfl | hy := List.mem_cons.mp hy
  · exact hx
  · exact hxs y hy

theorem mirrors_putDirectives (h : Twin v w a b) {n : NodeId} (hn : v.cells.size ≤ n.index)
    (attributes : List (String × String)) :
    Mirrors v w a b Same (putDirectives n attributes) (putDirectives (n.moved v w) attributes) := by
  have htwin := h.putAll hn
    ((attributes.filter fun a => a.1 != "key").map fun a => ("$" ++ a.1, a.2))
  rw [List.map_map] at htwin
  exact mirrors_change htwin (World.continues_putAll a n _)

theorem mirrors_openInside (h : Twin v w a b) {parent : NodeId}
    (hn : v.cells.size ≤ parent.index) (hlt : parent.index < a.cells.size) (name : String)
    (attributes : List (String × String)) :
    Mirrors v w a b (Mirrored.Open v w) (s.openInside parent name attributes)
      ((s.moved v w).openInside (parent.moved v w) name attributes) := by
  rw [openInside, openInside]
  split
  · exact mirrors_fail _ _
  · rename_i key _
    split
    · obtain ⟨hindex, hsize, hnew, htwin⟩ := h.createChild hn hlt key
      have hcreate : Mirrors v w a b (Mirrored.Node v w) (update (World.createChild · parent key))
          (update (World.createChild · (parent.moved v w) key)) :=
        mirrors_update htwin
          (((World.continues_create a _).trans (World.continues_setName _ _ key)).trans
            (World.continues_put _ parent key _))
          ⟨hindex ▸ h.grown, by omega, hnew⟩
      refine Mirrors.bind hcreate ?_
      rintro child _ a₁ b₁ h₁ hc₁ ⟨hbuilt, hrange, rfl⟩
      refine (mirrors_putDirectives h₁ hbuilt attributes).bind ?_
      intro _ _ a₂ b₂ h₂ hc₂ _
      exact mirrors_pure h₂ ⟨hbuilt, Nat.lt_of_lt_of_le hrange hc₂.size, rfl⟩
    · split
      · exact mirrors_pure h ⟨hn, hlt, rfl⟩
      · exact mirrors_fail _ _

theorem mirrors_openTag (h : Twin v w a b) (hroot : v.cells.size ≤ s.root.index)
    (hlt : s.root.index < a.cells.size) {stack : List Element}
    (hstack : ∀ x ∈ stack, v.cells.size ≤ x.node.index ∧ x.node.index < a.cells.size)
    (tag : Xml.Tag) :
    Mirrors v w a b (Mirrored.Stack v w) (s.openTag stack tag)
      ((s.moved v w).openTag (stack.map (Element.moved v w)) tag) := by
  rw [openTag, openTag]
  split
  · exact mirrors_fail _ _
  · rename_i attributes _
    cases stack with
    | nil =>
        -- The outermost element stands for the root.
        refine (mirrors_putDirectives h hroot attributes).bind ?_
        intro _ _ a₁ b₁ h₁ hc₁ _
        refine mirrors_pure h₁ ⟨?_, rfl⟩
        exact stack_cons ⟨hroot, Nat.lt_of_lt_of_le hlt hc₁.size⟩ fun _ hx =>
          (List.not_mem_nil hx).elim
    | cons top rest =>
        have htop := hstack top List.mem_cons_self
        cases top with
        | entry kind key owner text => exact mirrors_fail _ _
        | model parent =>
            refine (mirrors_openInside h htop.1 htop.2 tag.name attributes).bind ?_
            rintro element _ a₁ b₁ h₁ hc₁ ⟨hbuilt, hrange, rfl⟩
            refine mirrors_pure h₁ ⟨stack_cons ⟨hbuilt, hrange⟩ ?_, rfl⟩
            intro x hx
            exact ⟨(hstack x hx).1, Nat.lt_of_lt_of_le (hstack x hx).2 hc₁.size⟩

theorem addText_moved (stack : List Element) (text : String) :
    addText (stack.map (Element.moved v w)) text =
      (addText stack text).map (Element.moved v w) := by
  cases stack with
  | nil => rfl
  | cons top rest => cases top <;> rfl

theorem mem_addText {size : Nat} {stack : List Element} {text : String}
    (hstack : ∀ x ∈ stack, v.cells.size ≤ x.node.index ∧ x.node.index < size) :
    ∀ x ∈ addText stack text, v.cells.size ≤ x.node.index ∧ x.node.index < size := by
  cases stack with
  | nil => exact hstack
  | cons top rest =>
      cases top with
      | model n => exact hstack
      | entry kind key owner before =>
          have hrest := fun x hx => hstack x (List.mem_cons_of_mem _ hx)
          exact stack_cons (hstack (.entry kind key owner before) List.mem_cons_self) hrest

/-- The end of an element: its node is introspected, or its entry is stored. -/
theorem mirrors_close (hi : NodeId.Replays v w s.introspect) (h : Twin v w a b)
    {stack : List Element}
    (hstack : ∀ x ∈ stack, v.cells.size ≤ x.node.index ∧ x.node.index < a.cells.size) :
    Mirrors v w a b (Mirrored.Stack v w) (s.close stack)
      ((s.moved v w).close (stack.map (Element.moved v w))) := by
  cases stack with
  | nil => exact mirrors_fail _ _
  | cons top rest =>
      have htop := hstack top List.mem_cons_self
      have hrest : ∀ {a' : World}, a.Continues a' →
          ∀ x ∈ rest, v.cells.size ≤ x.node.index ∧ x.node.index < a'.cells.size := by
        intro a' hc x hx
        have hx := hstack x (List.mem_cons_of_mem _ hx)
        exact ⟨hx.1, Nat.lt_of_lt_of_le hx.2 hc.size⟩
      cases top with
      | model n =>
          refine Mirrors.bind (hi n a b h htop.1 htop.2) ?_
          intro _ _ a₁ b₁ h₁ hc₁ _
          exact mirrors_pure h₁ ⟨hrest hc₁, rfl⟩
      | entry kind key owner text =>
          refine Mirrors.bind (EntryKind.mirrors_read s.lang h htop.2 kind text) ?_
          intro value value' a₁ b₁ h₁ hc₁ hvalue
          -- The value is newer than all nodes at the start of the entry, so than its owner.
          have hmoved := hvalue.mono (Nat.succ_le_of_lt htop.2) (Nat.le_refl _)
          refine Mirrors.bind (NodeId.mirrors_put h₁ htop.1 key hmoved) ?_
          intro _ _ a₂ b₂ h₂ hc₂ _
          exact mirrors_pure h₂ ⟨hrest (hc₁.trans hc₂), rfl⟩

theorem nodes_moved (stack : List Element) :
    (stack.map (Element.moved v w)).map Element.node =
      (stack.map Element.node).map (NodeId.moved v w) := by
  rw [List.map_map, List.map_map]
  exact List.map_congr_left fun e _ => Element.node_moved e

/-- One event of the document. -/
theorem mirrors_step (hi : NodeId.Replays v w s.introspect) (h : Twin v w a b)
    (hroot : v.cells.size ≤ s.root.index) (hlt : s.root.index < a.cells.size)
    {stack : List Element}
    (hstack : ∀ x ∈ stack, v.cells.size ≤ x.node.index ∧ x.node.index < a.cells.size)
    (event : Xml.Event) :
    Mirrors v w a b (Mirrored.Stack v w) (s.step stack event)
      ((s.moved v w).step (stack.map (Element.moved v w)) event) := by
  cases event with
  | start tag => exact mirrors_openTag h hroot hlt hstack tag
  | empty tag =>
      refine (mirrors_openTag h hroot hlt hstack tag).bind ?_
      rintro opened _ a₁ b₁ h₁ hc₁ ⟨hopened, rfl⟩
      refine mirrors_holding h₁ (nodes_moved opened) ?_
      intro a₂ b₂ h₂ hsize
      refine mirrors_close hi h₂ ?_
      rw [hsize]
      exact hopened
  | stop name => exact mirrors_close hi h hstack
  | text content =>
      cases content with
      | none => exact mirrors_fail _ _
      | some content =>
          exact mirrors_pure h ⟨mem_addText hstack, addText_moved stack content⟩
  | data content =>
      exact mirrors_pure h ⟨mem_addText hstack, addText_moved stack content⟩
  | aside => exact mirrors_pure h ⟨hstack, rfl⟩

/-- All events of the document. -/
theorem mirrors_steps (hi : NodeId.Replays v w s.introspect) (h : Twin v w a b)
    (hroot : v.cells.size ≤ s.root.index) (hlt : s.root.index < a.cells.size)
    {stack : List Element}
    (hstack : ∀ x ∈ stack, v.cells.size ≤ x.node.index ∧ x.node.index < a.cells.size)
    (events : List Xml.Event) :
    Mirrors v w a b (Mirrored.Stack v w) (s.steps stack events)
      ((s.moved v w).steps (stack.map (Element.moved v w)) events) := by
  induction events generalizing a b stack with
  | nil => exact mirrors_pure h ⟨hstack, rfl⟩
  | cons event rest ih =>
      have hstep : Mirrors v w a b (Mirrored.Stack v w)
          (holding (stack.map Element.node) (s.step stack event))
          (holding ((stack.map (Element.moved v w)).map Element.node)
            ((s.moved v w).step (stack.map (Element.moved v w)) event)) := by
        refine mirrors_holding h (nodes_moved stack) ?_
        intro a₁ b₁ h₁ hsize
        rw [← hsize] at hlt hstack
        exact mirrors_step hi h₁ hroot hlt hstack event
      refine hstep.bind ?_
      rintro next _ a₁ b₁ h₁ hc₁ ⟨hnext, rfl⟩
      exact ih h₁ (Nat.lt_of_lt_of_le hlt hc₁.size) hnext

theorem mirrors_read (hi : NodeId.Replays v w s.introspect) (h : Twin v w a b)
    (hroot : v.cells.size ≤ s.root.index) (hlt : s.root.index < a.cells.size) (text : String) :
    Mirrors v w a b Same (s.read text) ((s.moved v w).read text) := by
  have hnone : ∀ x ∈ ([] : List Element), v.cells.size ≤ x.node.index ∧
      x.node.index < a.cells.size := fun _ hx => (List.not_mem_nil hx).elim
  refine (mirrors_steps hi h hroot hlt hnone (Xml.read text).events).bind ?_
  rintro stack _ a₁ b₁ h₁ - ⟨-, rfl⟩
  rw [List.isEmpty_map]
  split
  · exact mirrors_fail _ _
  · split
    · exact mirrors_fail _ _
    · exact mirrors_pure h₁ rfl

end Document.Setting

theorem Document.mirrors_append (lang : Language) {introspect : NodeId → Action Unit}
    (hi : NodeId.Replays v w introspect) (h : Twin v w a b) {n : NodeId}
    (hn : v.cells.size ≤ n.index) (hlt : n.index < a.cells.size) (source text : String) :
    Mirrors v w a b Same (append introspect lang n source text)
      (append introspect lang (n.moved v w) source text) := by
  rw [append, append]
  refine (NodeId.mirrors_createUnder h hlt).bind ?_
  rintro item _ a₁ b₁ h₁ hc₁ ⟨hitem, hbuilt, hrange, rfl⟩
  have hread : Mirrors v w a₁ b₁ Same
      (holding [item] (Setting.read ⟨introspect, lang, source, item⟩ text))
      (holding [item.moved v w]
        (Setting.read ⟨introspect, lang, source, item.moved v w⟩ text)) := by
    refine mirrors_holding h₁ rfl ?_
    intro a₂ b₂ h₂ hsize₂
    have hrange₂ := Nat.lt_of_lt_of_eq hrange hsize₂.symm
    exact Setting.mirrors_read (s := ⟨introspect, lang, source, item⟩) hi h₂ hbuilt hrange₂ text
  refine hread.bind ?_
  intro _ _ a₂ b₂ h₂ hc₂ _
  exact mirrors_change (h₂.mergeFrom hn (Nat.lt_of_lt_of_le hlt hitem))
    (World.continues_merge a₂ n _)

/-! ## Instructions -/

namespace NodeId

variable (lang : Language)

/-- The steps of a node that is loaded cannot be run where no script runs. -/
theorem onload_fails (ha : a.Inert) (n : NodeId) (text : World → String) (x : Unit) (a' : World) :
    (inspect text >>= fun text => n.expand lang text >>= fun script =>
      n.eval lang script >>= fun _ => pure ()) a ≠ (.done x, a') := by
  intro hdone
  rw [inspect_bind_apply] at hdone
  obtain ⟨script, a₁, hexpand, hrest⟩ := bind_eq_done hdone
  rw [expand_of_inert lang ha] at hexpand
  obtain ⟨-, rfl⟩ := Prod.mk.inj hexpand
  obtain ⟨value, a₂, heval, -⟩ := bind_eq_done hrest
  rw [eval_of_inert lang ha] at heval
  cases (Prod.mk.inj heval).1

theorem replays_introspectWith {introspect : NodeId → Action Unit}
    (hi : Replays v w introspect) :
    Replays v w (introspectWith introspect lang) := by
  intro n a b h hn hlt
  rw [introspectWith, introspectWith]
  -- The four kinds of files in turn, each with the loads inside it mirrored by assumption.
  refine Mirrors.bind (mirrors_eachFile lang h hn hlt "$json" ?_) ?_
  · intro path a₁ b₁ h₁ hle
    have hlt₁ := Nat.lt_of_lt_of_le hlt hle
    refine mirrors_loadFile lang h₁ hn hlt₁ path ?_
    intro _ text a₂ b₂ h₂ hle₂
    exact mirrors_appendJson hi h₂ hn (Nat.lt_of_lt_of_le hlt₁ hle₂) text
  intro _ _ a₁ b₁ h₁ hc₁ _
  have hlt₁ := Nat.lt_of_lt_of_le hlt hc₁.size
  refine Mirrors.bind (mirrors_eachFile lang h₁ hn hlt₁ "$xml" ?_) ?_
  · intro path a₂ b₂ h₂ hle
    have hlt₂ := Nat.lt_of_lt_of_le hlt₁ hle
    refine mirrors_loadFile lang h₂ hn hlt₂ path ?_
    intro full text a₃ b₃ h₃ hle₃
    exact Document.mirrors_append lang hi h₃ hn (Nat.lt_of_lt_of_le hlt₂ hle₃) full text
  intro _ _ a₂ b₂ h₂ hc₂ _
  have hlt₂ := Nat.lt_of_lt_of_le hlt₁ hc₂.size
  refine Mirrors.bind (mirrors_eachFile lang h₂ hn hlt₂ "$properties" ?_) ?_
  · intro path a₃ b₃ h₃ _
    exact mirrors_loadProperties h₃ hn _ path
  intro _ _ a₃ b₃ h₃ hc₃ _
  have hlt₃ := Nat.lt_of_lt_of_le hlt₂ hc₃.size
  refine Mirrors.bind (mirrors_eachFile lang h₃ hn hlt₃ "$properties-xml" ?_) ?_
  · intro path a₄ b₄ h₄ _
    exact mirrors_loadProperties h₄ hn _ path
  intro _ _ a₄ b₄ h₄ _ _
  -- A node with steps to run fails here, so a load that is done has met none.
  refine mirrors_inspect ?_
  rw [h₄.getRaw hn]
  cases a₄.getRaw n "$onload" with
  | none => exact mirrors_pure h₄ rfl
  | some steps => exact mirrors_of_fails (onload_fails lang h₄.inert.1 n (·.stepsText steps))

theorem replays_introspectWithin (fuel : Nat) : Replays v w (introspectWithin lang fuel) := by
  induction fuel with
  | zero =>
      intro n a b _ _ _
      refine mirrors_of_fails fun x a' hdone => ?_
      cases (Prod.mk.inj hdone).1
  | succ fuel ih => exact replays_introspectWith lang ih

/-- Carrying out the instructions of a built node mirrors itself, however the files that it loads
load further files. -/
theorem replays_introspect : Replays v w (introspect lang) := by
  intro n a b h hn hlt
  rw [introspect, introspect]
  refine mirrors_inspect ?_
  rw [h.files]
  exact replays_introspectWithin lang _ n a b h hn hlt

end NodeId

end ScriptTree
