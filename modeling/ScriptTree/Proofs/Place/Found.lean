import ScriptTree.Proofs.Place.Nested
import ScriptTree.Proofs.Run.Visits
import ScriptTree.Proofs.World.Below
import ScriptTree.Proofs.World.Twin

/-!
# Where paths lead

A path is a bare name with members of nodes and items under literal keys (`Expr.Path`). The value
that it leads to stands in an entry of a node, at a path of positions in the lists of that entry
(`Expr.Found`), and evaluating the path reads it from there and changes nothing (`Found.eval`,
`Path.found`). Storing a list at the path changes that entry and no other one (`Found.writeBack`).
-/

set_option autoImplicit false

namespace ScriptTree

/-! ## Nodes that are held besides -/

namespace World

variable {w : World} {nodes : List NodeId}

theorem hold_hold (w : World) (nodes more : List NodeId) :
    (w.hold nodes).hold more = w.hold (more ++ nodes) := by
  simp [hold, List.append_assoc]

/-- Nodes that are alive may be held without any other one coming to life. -/
theorem alive_hold (h : ∀ m ∈ nodes, w.alive m = true) (m : NodeId) :
    (w.hold nodes).alive m = w.alive m := by
  have hholders : ∀ x, x ∈ (w.hold nodes).holders ↔ x ∈ nodes ∨ x ∈ w.holders := by
    intro x
    simp only [holders, hold, List.mem_cons, List.mem_append]
    tauto
  rw [Bool.eq_iff_iff]
  constructor
  · intro halive
    obtain ⟨some, hm, hsupports⟩ := alive_iff.mp halive
    -- A node that only these keep alive is supported by what keeps these alive.
    refine alive_iff.mpr ⟨fun x => some x ∨ w.alive x = true, .inl hm, ?_⟩
    have hliving : ∀ x, w.alive x = true → x ∈ w.holders ∨ x.index < w.cells.size ∧
        ∃ y, (some y ∨ w.alive y = true) ∧ x ∈ references (w.cell y) := by
      intro x hx
      obtain ⟨others, hmem, hothers⟩ := alive_iff.mp hx
      rcases hothers x hmem with hheld | ⟨hlt, y, hy, href⟩
      · exact .inl hheld
      · exact .inr ⟨hlt, y, .inr (alive_iff.mpr ⟨others, hy, hothers⟩), href⟩
    rintro x (hx | hx)
    · rcases hsupports x hx with hheld | ⟨hlt, y, hy, href⟩
      · rcases (hholders x).mp hheld with hnew | hold
        · exact hliving x (h x hnew)
        · exact .inl hold
      · exact .inr ⟨hlt, y, .inl hy, href⟩
    · exact hliving x hx
  · intro halive
    obtain ⟨some, hm, hsupports⟩ := alive_iff.mp halive
    refine alive_iff.mpr ⟨some, hm, fun x hx => ?_⟩
    exact (hsupports x hx).imp_left fun hheld => (hholders x).mpr (.inr hheld)

theorem parent?_hold (h : ∀ m ∈ nodes, w.alive m = true) (m : NodeId) :
    (w.hold nodes).parent? m = w.parent? m := by
  have hsame : (w.hold nodes).alive = w.alive := funext (alive_hold h)
  show ((w.cell m).parent).filter (w.hold nodes).alive = _
  rw [hsame, parent?]

theorem lineage_hold (h : ∀ m ∈ nodes, w.alive m = true) (n : NodeId) :
    (w.hold nodes).lineage n = w.lineage n :=
  lineage_eq_of_above rfl fun m _ => parent?_hold h m

/-- What lies above a node is alive. -/
theorem alive_of_mem_lineage {n m : NodeId} (hm : m ∈ w.lineage n) (hn : w.alive n = true) :
    w.alive m = true := by
  cases above_of_mem_lineage hm with
  | refl => exact hn
  | tail _ hparent => exact (Option.filter_eq_some_iff.mp hparent).2

end World

/-- A literal as the key of an entry. -/
def Expr.Literal.asKey : Expr.Literal → String
  | .null => "null"
  | .bool b => boolText b
  | .number n => n.text
  | .text s => s

theorem World.text_ofLiteral (w : World) (key : Expr.Literal) :
    w.text (Value.ofLiteral key) = key.asKey := by
  cases key <;> simp [World.text, Value.ofLiteral, Value.show, Expr.Literal.asKey]

@[simp] theorem Value.nodes_ofLiteral (key : Expr.Literal) : (Value.ofLiteral key).nodes = [] := by
  cases key <;> rfl

theorem Action.bind_done {α β : Type} {p : Action α} {next : α → Action β} {w w' : World} {x : α}
    (h : p w = (.done x, w')) : (p >>= next) w = next x w' := by
  rw [Action.bind_apply, h]

/-- An action ends as it does where the nodes are held besides. -/
theorem Action.holding_of_hold {α : Type} {nodes : List NodeId} {p : Action α} {w w' : World}
    {outcome : Outcome α} (h : p (w.hold nodes) = (outcome, w'.hold nodes))
    (hheld : w'.held = w.held) : Action.holding nodes p w = (outcome, w') := by
  show ((p (w.hold nodes)).1, { (p (w.hold nodes)).2 with held := w.held }) = _
  rw [h, ← hheld]
  rfl

theorem Action.map_done {α β : Type} {f : α → β} {p : Action α} {w w' : World} {x : α}
    (h : p w = (.done x, w')) : (f <$> p) w = (.done (f x), w') := by
  show Action.bind p (Action.pure ∘ f) w = _
  rw [Action.bind, h]
  rfl

theorem Action.map_eq_done {α β : Type} {f : α → β} {p : Action α} {w w' : World} {y : β}
    (h : (f <$> p) w = (.done y, w')) : ∃ x, p w = (.done x, w') ∧ y = f x := by
  have hbind : (p >>= fun x => pure (f x)) w = (.done y, w') := h
  obtain ⟨x, v, hp, hpure⟩ := Action.bind_eq_done hbind
  cases hpure
  exact ⟨x, hp, rfl⟩

theorem Action.holding_eq_done {α : Type} {nodes : List NodeId} {p : Action α} {w w' : World}
    {x : α} (h : Action.holding nodes p w = (.done x, w')) :
    ∃ v, p (w.hold nodes) = (.done x, v) := by
  obtain ⟨houtcome, -⟩ := Prod.ext_iff.mp h
  exact ⟨(p (w.hold nodes)).2, Prod.ext_iff.mpr ⟨houtcome, rfl⟩⟩

theorem Action.holding_map {α β : Type} (nodes : List NodeId) (f : α → β) (p : Action α) :
    Action.holding nodes (f <$> p) = f <$> Action.holding nodes p := by
  funext w
  rw [map_eq_pure_bind, map_eq_pure_bind, Action.bind_apply, Action.holding, Action.holding,
    Action.bind_apply]
  rcases p { w with held := nodes ++ w.held } with ⟨_ | _ | _, w'⟩ <;> rfl

/-! ## Reading entries that are no texts -/

section Entries

variable {lang : Language} {w w' : World} {x : Value}

theorem NodeId.get_of_getRaw {n : NodeId} {key : String} (hx : w.getRaw n key = some x)
    (htext : x.isText = false) : n.get lang key w = (.done (some x), w) := by
  rw [NodeId.get, Action.inspect_bind_apply, hx]
  cases x <;> first | rfl | cases htext

/-- What is read under a key is there as it is, unless it is a text. -/
theorem NodeId.get_eq_done {n : NodeId} {key : String} {found : Option Value}
    (h : n.get lang key w = (.done found, w')) :
    (w.getRaw n key = none ∧ found = none) ∨
      ∃ x, found = some x ∧ (x.isText = false → w.getRaw n key = some x) := by
  rw [NodeId.get, Action.inspect_bind_apply] at h
  cases hraw : w.getRaw n key with
  | none =>
      rw [hraw] at h
      cases h
      exact .inl ⟨rfl, rfl⟩
  | some value =>
      rw [hraw] at h
      refine .inr ?_
      cases value with
      | text s =>
          -- A text is read as a text.
          obtain ⟨_, _, hread, hresult⟩ := Action.bind_eq_done h
          obtain ⟨t, _, _, hinner⟩ := Action.bind_eq_done hread
          cases hinner
          cases hresult
          exact ⟨.text t, rfl, fun htext => by cases htext⟩
      | _ =>
          cases h
          exact ⟨_, rfl, fun _ => rfl⟩

/-- The node that a name is read from, without what comes first. -/
theorem Context.holder?_eq_some {c : Context} {s : String} {n : NodeId}
    (h : c.holder? w s = some n) :
    c.binding s = none ∧ (n = c.frame ∧ w.containsKey c.frame s = true ∨
      w.containsKey c.frame s = false ∧ (w.holder? c.this s = some n ∨
        w.holder? c.this s = none ∧ n = c.static ∧ w.containsKey c.static s = true)) := by
  unfold Context.holder? at h
  split at h
  · cases h
  · rename_i hbound
    refine ⟨by simpa using hbound, ?_⟩
    split at h
    · rename_i hframe
      exact .inl ⟨(Option.some.inj h).symm, hframe⟩
    · rename_i hframe
      refine .inr ⟨by simpa using hframe, ?_⟩
      cases hholder : w.holder? c.this s with
      | some m =>
          rw [hholder] at h
          exact .inl h
      | none =>
          rw [hholder] at h
          by_cases hstatic : w.containsKey c.static s = true
          · rw [if_pos hstatic] at h
            exact .inr ⟨rfl, (Option.some.inj h).symm, hstatic⟩
          · rw [if_neg hstatic] at h
            cases h

theorem World.getRaw_eq_none {n : NodeId} {key : String} (h : w.containsKey n key = false) :
    w.getRaw n key = none :=
  Option.isSome_eq_false_iff.mp h |> Option.isNone_iff_eq_none.mp

theorem NodeId.resolve_of_holder? {n m : NodeId} {key : String} (hm : w.holder? n key = some m)
    (hx : w.getRaw m key = some x) (htext : x.isText = false) :
    n.resolve lang key w = (.done (some x), w) := by
  have hget : m.get lang key (w.hold [m]) = (.done (some x), w.hold [m]) :=
    NodeId.get_of_getRaw hx htext
  rw [NodeId.resolve, Action.inspect_bind_apply, hm]
  exact Action.holding_of_hold hget rfl

theorem Context.lookup_of_holder? {c : Context} {s : String} {n : NodeId}
    (hn : c.holder? w s = some n) (hx : w.getRaw n s = some x) (htext : x.isText = false) :
    c.lookup lang s w = (.done (some x), w) := by
  obtain ⟨hbinding, hplace⟩ := Context.holder?_eq_some hn
  rw [Context.lookup, hbinding]
  show (Action.inspect (·.getRaw c.frame s) >>= _) w = _
  rw [Action.inspect_bind_apply]
  rcases hplace with ⟨rfl, -⟩ | ⟨hframe, hlater⟩
  · rw [hx]
    rfl
  · rw [World.getRaw_eq_none hframe]
    rcases hlater with hholder | ⟨hholder, rfl, -⟩
    · show (c.this.resolve lang s >>= _) w = _
      rw [Action.bind_apply, NodeId.resolve_of_holder? hholder hx htext]
      rfl
    · have hnone : c.this.resolve lang s w = (.done none, w) := by
        rw [NodeId.resolve, Action.inspect_bind_apply, hholder]
        rfl
      show (c.this.resolve lang s >>= _) w = _
      rw [Action.bind_apply, hnone]
      show (Outcome.done (w.getRaw c.static s), w) = _
      rw [hx]

theorem NodeId.resolve_eq_done {n : NodeId} {key : String} {found : Option Value}
    (h : n.resolve lang key w = (.done found, w')) :
    (w.holder? n key = none ∧ found = none ∧ w' = w) ∨ ∃ m x, w.holder? n key = some m ∧
      found = some x ∧ (x.isText = false → w.getRaw m key = some x) := by
  rw [NodeId.resolve, Action.inspect_bind_apply] at h
  cases hm : w.holder? n key with
  | none =>
      rw [hm] at h
      cases h
      exact .inl ⟨rfl, rfl, rfl⟩
  | some m =>
      rw [hm] at h
      obtain ⟨v, hget⟩ := Action.holding_eq_done h
      rcases NodeId.get_eq_done hget with ⟨hnone, -⟩ | ⟨x, rfl, hx⟩
      · -- The node was found because it holds the key.
        have hcontains := List.find?_some (p := fun m => w.containsKey m key) hm
        change (w.getRaw m key).isSome = true at hcontains
        rw [show w.getRaw m key = none from hnone] at hcontains
        cases hcontains
      · exact .inr ⟨m, x, rfl, rfl, hx⟩

/-- What a name stands for is a node of the context or stands in an entry, unless it is a text. -/
theorem Context.lookup_eq_done {c : Context} {s : String}
    (h : c.lookup lang s w = (.done (some x), w')) (htext : x.isText = false) :
    c.binding s = some x ∨ ∃ n, c.holder? w s = some n ∧ w.getRaw n s = some x := by
  rw [Context.lookup] at h
  cases hbinding : c.binding s with
  | some value =>
      rw [hbinding] at h
      cases h
      exact .inl rfl
  | none =>
      rw [hbinding] at h
      refine .inr ?_
      have hplace : c.holder? w s = if (w.getRaw c.frame s).isSome then some c.frame
          else (w.holder? c.this s).or
            (if (w.getRaw c.static s).isSome then some c.static else none) := by
        rw [Context.holder?, hbinding]
        rfl
      rw [hplace]
      change (Action.inspect (·.getRaw c.frame s) >>= _) w = _ at h
      rw [Action.inspect_bind_apply] at h
      cases hframe : w.getRaw c.frame s with
      | some value =>
          rw [hframe] at h
          cases h
          exact ⟨c.frame, rfl, hframe⟩
      | none =>
          rw [hframe] at h
          obtain ⟨found, v, hresolve, hnext⟩ := Action.bind_eq_done h
          rcases NodeId.resolve_eq_done hresolve with ⟨hholder, rfl, hv⟩ | ⟨m, y, hholder, rfl, hy⟩
          · have hstatic : v.getRaw c.static s = some x :=
              Outcome.done.inj (Prod.ext_iff.mp hnext).1
            rw [hv] at hstatic
            rw [hholder, hstatic]
            exact ⟨c.static, rfl, hstatic⟩
          · cases hnext
            rw [hholder]
            exact ⟨m, rfl, hy htext⟩

end Entries

/-! ## Contexts that are held -/

namespace Context

/-- The nodes of the context are alive. -/
def Alive (c : Context) (w : World) : Prop := ∀ m ∈ c.nodes, w.alive m = true

variable {c : Context} {w : World} {nodes : List NodeId}

theorem holder?_hold (h : ∀ m ∈ nodes, w.alive m = true) (s : String) :
    c.holder? (w.hold nodes) s = c.holder? w s := by
  rw [holder?, holder?, World.holder?, World.holder?, World.lineage_hold h]
  rfl

/-- What a reserved name stands for is a node of the context, if it is a node. -/
theorem Alive.of_binding (h : c.Alive w) {s : String} {x : Value} (hx : c.binding s = some x) :
    ∀ m ∈ x.nodes, w.alive m = true := by
  intro m hm
  refine h m ?_
  obtain ⟨this, parent, frame, static⟩ := c
  unfold binding at hx
  repeat' split at hx
  all_goals cases hx
  · simp_all [Context.nodes, Value.nodes]
  · cases parent with
    | none => cases hm
    | some p => simp_all [Context.nodes, Value.nodes, Value.ofNode?]
  · simp_all [Context.nodes, Value.nodes]
  · simp_all [Context.nodes, Value.nodes]

theorem binding_ne_list {s : String} {items : List Value} :
    c.binding s ≠ some (.list items) := by
  obtain ⟨this, parent, frame, static⟩ := c
  unfold binding
  repeat' split
  all_goals cases parent <;> simp [Value.ofNode?]

theorem Alive.of_holder? (h : c.Alive w) {s : String} {n : NodeId}
    (hn : c.holder? w s = some n) : w.alive n = true := by
  obtain ⟨-, ⟨rfl, -⟩ | ⟨-, hholder | ⟨-, rfl, -⟩⟩⟩ := holder?_eq_some hn
  · exact h _ (List.mem_cons_of_mem _ List.mem_cons_self)
  · exact World.alive_of_mem_lineage (List.mem_of_find?_eq_some hholder) (h _ List.mem_cons_self)
  · exact h _ (List.mem_cons_of_mem _ (List.mem_cons_of_mem _ List.mem_cons_self))

end Context

theorem World.alive_of_getRaw {w : World} (hclosed : w.Closed) {n : NodeId} {key : String}
    {x : Value} (hx : w.getRaw n key = some x) (hn : w.alive n = true) :
    ∀ m ∈ x.nodes, w.alive m = true := by
  intro m hm
  refine alive_of_below hclosed.references (Relation.ReflTransGen.single ?_) hn
  exact List.mem_flatMap.mpr ⟨(key, x), Entries.mem_of_get?_eq_some hx, hm⟩

/-! ## Paths -/

namespace Expr

/-- The expression is a bare name with members of nodes and parts of nodes and lists under literal
keys. -/
inductive Path (lang : Language) (c : Context) (w : World) : Expr → Prop
  | name (s : String) : Path lang c w (.name s)
  | member {target : Expr} {n : NodeId} {w' : World} (s : String) (path : Path lang c w target)
      (node : target.eval lang c w = (.done (.node n), w')) : Path lang c w (.member target s)
  | entry {target : Expr} {n : NodeId} {w' : World} (key : Literal) (path : Path lang c w target)
      (node : target.eval lang c w = (.done (.node n), w')) :
      Path lang c w (.index target (.literal key))
  | item {target : Expr} {items : List Value} {w' : World} (key : Literal)
      (path : Path lang c w target) (list : target.eval lang c w = (.done (.list items), w')) :
      Path lang c w (.index target (.literal key))

/-- The name that a path starts with. -/
def start : Expr → String
  | .name s => s
  | .member target _ | .index target _ => target.start
  | _ => ""

/-- A path leads to the value `x`. On the way entries of nodes are read, the last one first, and in
the lists of the last one the value stands at the path of positions. -/
inductive Found (c : Context) (w : World) :
    Expr → Value → List (NodeId × String) → List Nat → Prop
  | reserved {s : String} {x : Value} (binding : c.binding s = some x) : Found c w (.name s) x [] []
  /-- The entry of the local frame, else of the node or its nearest ancestor that has one, else of
  the static node. -/
  | name {s : String} {n : NodeId} {x : Value} (holder : c.holder? w s = some n)
      (entry : w.getRaw n s = some x) : Found c w (.name s) x [(n, s)] []
  | member {target : Expr} {n : NodeId} {s : String} {x : Value} {read : List (NodeId × String)}
      {path : List Nat} (found : Found c w target (.node n) read path)
      (entry : w.getRaw n s = some x) : Found c w (.member target s) x ((n, s) :: read) []
  | entry {target : Expr} {n : NodeId} {key : Literal} {x : Value} {read : List (NodeId × String)}
      {path : List Nat} (found : Found c w target (.node n) read path)
      (entry : w.getRaw n key.asKey = some x) :
      Found c w (.index target (.literal key)) x ((n, key.asKey) :: read) []
  | item {target : Expr} {items : List Value} {key : Literal} {i : Nat} {x : Value}
      {read : List (NodeId × String)} {path : List Nat}
      (found : Found c w target (.list items) read path)
      (position : (Value.ofLiteral key).index? = some i) (item : items[i]? = some x) :
      Found c w (.index target (.literal key)) x read (path ++ [i])

variable {lang : Language} {c : Context} {w w' : World} {e : Expr} {x : Value}
  {read : List (NodeId × String)} {path : List Nat}

theorem eval_literal (key : Literal) (w : World) :
    (Expr.literal key).eval lang c w = (.done (Value.ofLiteral key), w) := by
  rw [eval]
  rfl

/-- The part of a target under a literal key. -/
theorem eval_index_literal {target : Expr} {key : Literal} {t : Value}
    (ht : target.eval lang c w = (.done t, w))
    (hx : t.part lang (Value.ofLiteral key) (w.hold t.nodes) = (.done x, w.hold t.nodes)) :
    (Expr.index target (.literal key)).eval lang c w = (.done x, w) := by
  rw [eval, Action.bind_apply, ht]
  refine Action.holding_of_hold ?_ rfl
  rw [Action.bind_apply, eval_literal]
  refine Action.holding_of_hold ?_ rfl
  rw [Value.nodes_ofLiteral]
  exact hx

theorem part_of_eval_index {target : Expr} {key : Literal} {t : Value}
    (ht : target.eval lang c w = (.done t, w))
    (hx : (Expr.index target (.literal key)).eval lang c w = (.done x, w')) :
    ∃ v, t.part lang (Value.ofLiteral key) (w.hold t.nodes) = (.done x, v) := by
  rw [eval, Action.bind_apply, ht] at hx
  obtain ⟨_, hindex⟩ := Action.holding_eq_done hx
  rw [Action.bind_apply, eval_literal] at hindex
  obtain ⟨v, hpart⟩ := Action.holding_eq_done hindex
  rw [Value.nodes_ofLiteral] at hpart
  exact ⟨v, hpart⟩

/-- Evaluating a path reads what it leads to, and changes nothing. -/
theorem Found.eval (h : Found c w e x read path) (htext : x.isText = false) :
    e.eval lang c w = (.done x, w) := by
  -- Only nodes and lists stand on the way, so no text is expanded.
  induction h with
  | reserved binding =>
      rw [Expr.eval, Context.lookup, binding]
      rfl
  | name holder entry =>
      rw [Expr.eval]
      exact Action.map_done (Context.lookup_of_holder? holder entry htext)
  | @member target n s x read path found entry ih =>
      rw [Expr.eval, Action.bind_apply, ih rfl]
      refine Action.holding_of_hold ?_ rfl
      exact Action.map_done (NodeId.get_of_getRaw (w := w.hold [n]) entry htext)
  | @entry target n key x read path found entry ih =>
      refine eval_index_literal (ih rfl) ?_
      rw [Value.part, Action.inspect_bind_apply, World.text_ofLiteral]
      exact Action.map_done (NodeId.get_of_getRaw (w := w.hold [n]) entry htext)
  | @item target items key i x read path found position item ih =>
      refine eval_index_literal (ih rfl) ?_
      rw [Value.part, position, Value.itemAt, Option.bind_some, item]
      rfl

/-- What a path evaluates to is what it leads to, unless it is a text or null. -/
theorem Path.found (h : Path lang c w e) (hx : e.eval lang c w = (.done x, w'))
    (htext : x.isText = false) (hnull : x ≠ .null) : ∃ read path, Found c w e x read path := by
  induction h generalizing x w' with
  | name s =>
      rw [Expr.eval] at hx
      obtain ⟨found, hlookup, hfound⟩ := Action.map_eq_done hx
      cases found with
      | none => exact absurd hfound hnull
      | some y =>
          obtain rfl : x = y := hfound
          rcases Context.lookup_eq_done hlookup htext with hbinding | ⟨n, hholder, hentry⟩
          · exact ⟨_, _, .reserved hbinding⟩
          · exact ⟨_, _, .name hholder hentry⟩
  | @member target n v s path node ih =>
      obtain ⟨read, positions, hfound⟩ := ih node rfl (by simp)
      rw [Expr.eval, Action.bind_apply, hfound.eval rfl] at hx
      obtain ⟨_, hmember⟩ := Action.holding_eq_done hx
      obtain ⟨found, hget, hx⟩ := Action.map_eq_done hmember
      rcases NodeId.get_eq_done hget with ⟨-, rfl⟩ | ⟨y, rfl, hentry⟩
      · exact absurd hx hnull
      · obtain rfl : x = y := hx
        exact ⟨_, _, .member hfound (hentry htext)⟩
  | @entry target n v key path node ih =>
      obtain ⟨read, positions, hfound⟩ := ih node rfl (by simp)
      obtain ⟨_, hpart⟩ := part_of_eval_index (hfound.eval rfl) hx
      rw [Value.part, Action.inspect_bind_apply, World.text_ofLiteral] at hpart
      obtain ⟨found, hget, hx⟩ := Action.map_eq_done hpart
      rcases NodeId.get_eq_done hget with ⟨-, rfl⟩ | ⟨y, rfl, hentry⟩
      · exact absurd hx hnull
      · obtain rfl : x = y := hx
        exact ⟨_, _, .entry hfound (hentry htext)⟩
  | @item target items v key path list ih =>
      obtain ⟨read, positions, hfound⟩ := ih list rfl (by simp)
      obtain ⟨_, hpart⟩ := part_of_eval_index (hfound.eval rfl) hx
      have hitem : Value.itemAt items (Value.ofLiteral key).index? = x :=
        Outcome.done.inj (Prod.ext_iff.mp hpart).1
      cases hindex : (Value.ofLiteral key).index? with
      | none =>
          rw [hindex] at hitem
          exact absurd hitem.symm hnull
      | some i =>
          rw [hindex, Value.itemAt, Option.bind_some] at hitem
          cases hi : items[i]? with
          | none =>
              rw [hi] at hitem
              exact absurd hitem.symm hnull
          | some y =>
              rw [hi] at hitem
              obtain rfl : y = x := hitem
              exact ⟨_, _, .item hfound hindex hi⟩

/-- What a path leads to is the item at the path of positions in the lists of the entry that it reads
last. -/
theorem Found.follow {n : NodeId} {key : String} (h : Found c w e x ((n, key) :: read) path) :
    ∃ outer, w.getRaw n key = some outer ∧ outer.follow path = some x := by
  generalize hread : (n, key) :: read = entries at h
  induction h with
  | reserved => cases hread
  | name _ entry | member _ entry | entry _ entry =>
      cases hread
      exact ⟨_, entry, rfl⟩
  | item _ _ item ih =>
      obtain ⟨outer, houter, hfollow⟩ := ih hread
      refine ⟨outer, houter, ?_⟩
      rw [Value.follow_concat, hfollow]
      exact item

/-- A path that reads no entry leads to no list. -/
theorem Found.ne_list (h : Found c w e x [] path) (items : List Value) : x ≠ .list items := by
  generalize hread : ([] : List (NodeId × String)) = entries at h
  induction h generalizing items with
  | reserved binding =>
      rintro rfl
      exact Context.binding_ne_list binding
  | name | member | entry => cases hread
  | item _ _ _ ih => exact absurd rfl (ih _ hread)

/-- What a path leads to is alive. -/
theorem Found.alive (h : Found c w e x read path) (hclosed : w.Closed) (hc : c.Alive w) :
    ∀ m ∈ x.nodes, w.alive m = true := by
  induction h with
  | reserved binding => exact hc.of_binding binding
  | name holder entry => exact World.alive_of_getRaw hclosed entry (hc.of_holder? holder)
  | member _ entry ih | entry _ entry ih =>
      exact World.alive_of_getRaw hclosed entry (ih _ List.mem_cons_self)
  | item _ _ item ih =>
      exact fun m hm => ih m (Value.mem_allNodes.mpr ⟨_, List.mem_of_getElem? item, hm⟩)

/-- The path leads to the same value while nodes are held that are alive anyway. -/
theorem Found.hold {nodes : List NodeId} (h : Found c w e x read path)
    (hnodes : ∀ m ∈ nodes, w.alive m = true) : Found c (w.hold nodes) e x read path := by
  induction h with
  | reserved binding => exact .reserved binding
  | name holder entry => exact .name ((Context.holder?_hold hnodes _).trans holder) entry
  | member _ entry ih => exact .member ih entry
  | entry _ entry ih => exact .entry ih entry
  | item _ position item ih => exact .item ih position item

/-! ## Storing at a path -/

theorem store_list (target : NodeId) (key : String) (items : List Value) (w : World) :
    c.store target key (.list items) w =
      (.done (w.getRaw target key), w.set target key (.list items)) := by
  unfold Context.store
  split <;> rfl

theorem writeBack_index_literal {target : Expr} {key : Literal} {t value : Value}
    {outcome : Outcome Unit} (ht : target.eval lang c w = (.done t, w))
    (hstore : storeItem lang c value target (Value.ofLiteral key) t (w.hold t.nodes) =
      (outcome, w'.hold t.nodes)) (hheld : w'.held = w.held) :
    Expr.writeBack lang c value (.index target (.literal key)) w = (outcome, w') := by
  have hfound : Action.holding (Value.ofLiteral key).nodes (target.eval lang c) w =
      (.done t, w) := by
    rw [Value.nodes_ofLiteral]
    exact Action.holding_of_hold ht rfl
  rw [writeBack_index, Action.bind_apply, eval_literal]
  dsimp only
  rw [Action.bind_apply, hfound, Value.nodes_ofLiteral]
  exact Action.holding_of_hold hstore hheld

/-- A list that is stored at a path takes its place in the entry that the path reads last. What is
held besides stays. -/
theorem Found.writeBack {n : NodeId} {key : String} {outer : Value} {nodes : List NodeId}
    (h : Found c w e x ((n, key) :: read) path) (houter : w.getRaw n key = some outer)
    (hclosed : w.Closed) (hc : c.Alive w) (hnodes : ∀ m ∈ nodes, w.alive m = true)
    (items : List Value) :
    Expr.writeBack lang c (.list items) e (w.hold nodes) =
      (.done (), (w.set n key (Value.replaceAt (.list items) path outer)).hold nodes) := by
  -- By induction on the path: each inner list is stored as an item of the list around it.
  generalize hread : (n, key) :: read = entries at h
  induction h generalizing nodes items with
  | reserved => cases hread
  | @name s m x holder entry =>
      cases hread
      have hholder := (Context.holder?_hold hnodes _).trans holder
      rw [Expr.writeBack, Action.inspect_bind_apply, hholder]
      dsimp only
      rw [Action.bind_apply, store_list]
      rfl
  | @member target m s x before positions found entry ih =>
      cases hread
      rw [Expr.writeBack, Action.bind_apply, (found.hold hnodes).eval rfl]
      refine Action.holding_of_hold ?_ rfl
      show (c.store _ _ _ >>= _) _ = _
      rw [Action.bind_apply, store_list]
      rfl
  | @entry target m k x before positions found entry ih =>
      cases hread
      refine writeBack_index_literal ((found.hold hnodes).eval rfl) ?_ rfl
      rw [storeItem, Action.inspect_bind_apply, World.text_ofLiteral]
      dsimp only
      rw [Action.bind_apply, store_list]
      rfl
  | @item target inner k i x before positions found position item ih =>
      -- The inner list with its item replaced is stored where it was read from.
      refine writeBack_index_literal ((found.hold hnodes).eval rfl) ?_ rfl
      have hinner := found.alive hclosed hc
      have hlt : i < inner.length := (List.getElem?_eq_some_iff.mp item).1
      obtain ⟨outer', houter', hfollow⟩ := (hread ▸ found).follow
      obtain rfl : outer' = outer := Option.some.inj (houter'.symm.trans houter)
      rw [Value.replaceAt_concat i hfollow, storeItem, Action.inspect_bind_apply]
      dsimp only
      rw [position, Option.filter_some, decide_eq_true hlt, if_pos rfl]
      -- The nodes of the list around are held meanwhile, and are alive anyway.
      have hall : ∀ m ∈ (Value.list inner).nodes ++ nodes, w.alive m = true := by
        intro m hm
        exact (List.mem_append.mp hm).elim (hinner m) (hnodes m)
      rw [World.hold_hold, World.hold_hold]
      exact ih hall (inner.set i (.list items)) hread

end Expr

end ScriptTree
