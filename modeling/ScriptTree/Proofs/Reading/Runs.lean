import ScriptTree.Language
import ScriptTree.Node.Directory
import ScriptTree.Proofs.Reading.Calm
import ScriptTree.Proofs.Reading.Shadow

/-!
# Runs that shadow each other

One run shadows another when both end in the same way, up to the numbers of blank nodes
(`Action.Shadows`). Where all that is stored is calm, two readings shadow each other, and so do the
evaluations of an expression that calls nothing and assigns nothing (`Expr.eval_shadows`). A
template inside of another takes one unit of fuel and adds one expansion, and at the limit of
expansions it stays as it is, so that much fuel is enough for any nesting
(`Language.shadows_ofFuel`).
-/

set_option autoImplicit false

namespace ScriptTree

/-- The worlds of two runs after a part of them that started in `a`: what is held and the number of
expansions are as they were. -/
structure World.After (v w a a' b' : World) : Prop where
  shadow : World.Shadow v w a' b'
  held : a'.held = a.held
  expansions : a'.expansions = a.expansions

theorem World.After.trans {v w a a' b' a'' b'' : World} (h : World.After v w a a' b')
    (h' : World.After v w a' a'' b'') : World.After v w a a'' b'' :=
  ⟨h'.shadow, h'.held.trans h.held, h'.expansions.trans h.expansions⟩

/-- How the first action ends in `a` and the second in `b`: both are done with related values, or,
where that may be, both fail for the same cause. -/
inductive Action.Ends {α β : Type} (v w : World) (fails : Prop) (rel : α → β → Prop)
    (p : Action α) (q : Action β) (a b : World) : Prop
  | done (x : α) (y : β) (a' b' : World) (hp : p a = (.done x, a')) (hq : q b = (.done y, b'))
      (after : World.After v w a a' b') (hrel : rel x y)
  | failed (cause : Failure) (a' b' : World) (hfails : fails) (hp : p a = (.failed cause, a'))
      (hq : q b = (.failed (cause.rename (NodeId.moved v w)), b'))
      (after : World.After v w a a' b')

/-- Inside of that many expansions the second action does what the first does. -/
def Action.Shadows {α β : Type} (v w : World) (depth : Nat) (fails : Prop) (rel : α → β → Prop)
    (p : Action α) (q : Action β) : Prop :=
  ∀ a b, World.Shadow v w a b → a.expansions = depth → Action.Ends v w fails rel p q a b

/-- The second run has the same value. -/
def Same {α : Type} (x y : α) : Prop := y = x

/-- The second run has the value with the counterparts of its nodes. -/
def Counterpart (v w : World) (x y : Value) : Prop := y = x.rename (NodeId.moved v w)

/-- The second run has the values with the counterparts of their nodes. -/
def Counterparts (v w : World) (xs ys : List Value) : Prop :=
  ys = Value.renameAll (NodeId.moved v w) xs

/-- Both runs have the same value, whose nodes are where the readings start. -/
def SameSettled (v : World) (x y : Option Value) : Prop := y = x ∧ ∀ z ∈ x, v.Settled z

namespace Action

open World (Shadow)

variable {α β γ δ : Type} {v w : World} {depth : Nat} {fails : Prop} {rel : α → β → Prop}

theorem Shadows.pure {x : α} {y : β} (hxy : rel x y) :
    Shadows v w depth fails rel (Pure.pure x) (Pure.pure y) :=
  fun a b h _ => .done x y a b rfl rfl ⟨h, rfl, rfl⟩ hxy

theorem Shadows.fail (hfails : fails) (cause : Failure) :
    Shadows v w depth fails rel (Action.fail cause)
      (Action.fail (cause.rename (NodeId.moved v w))) :=
  fun a b h _ => .failed cause a b hfails rfl rfl ⟨h, rfl, rfl⟩

/-- One step after another. -/
theorem Shadows.bind {p : Action α} {q : Action β} {f : α → Action γ} {g : β → Action δ}
    {rel' : γ → δ → Prop} (hp : Shadows v w depth fails rel p q)
    (hnext : ∀ x y, rel x y → Shadows v w depth fails rel' (f x) (g y)) :
    Shadows v w depth fails rel' (p >>= f) (q >>= g) := by
  intro a b h hdepth
  cases hp a b h hdepth with
  | done x y a' b' hpa hqb hafter hxy =>
      -- The second steps start in the worlds that the first ones leave, which shadow each other.
      have hpf : (p >>= f) a = f x a' := by rw [bind_apply, hpa]
      have hqg : (q >>= g) b = g y b' := by rw [bind_apply, hqb]
      cases hnext x y hxy a' b' hafter.shadow (hafter.expansions.trans hdepth) with
      | done z z' a'' b'' hf hg hafter' hrel =>
          exact .done z z' a'' b'' (hpf.trans hf) (hqg.trans hg) (hafter.trans hafter') hrel
      | failed cause a'' b'' hfails hf hg hafter' =>
          exact .failed cause a'' b'' hfails (hpf.trans hf) (hqg.trans hg) (hafter.trans hafter')
  | failed cause a' b' hfails hpa hqb hafter =>
      refine .failed cause a' b' hfails ?_ ?_ hafter
      · rw [bind_apply, hpa]
      · rw [bind_apply, hqb]

theorem Shadows.mono {p : Action α} {q : Action β} {rel' : α → β → Prop} {fails' : Prop}
    (hp : Shadows v w depth fails rel p q) (hfails : fails → fails')
    (hrel : ∀ x y, rel x y → rel' x y) : Shadows v w depth fails' rel' p q := by
  intro a b h hdepth
  cases hp a b h hdepth with
  | done x y a' b' hpa hqb hafter hxy => exact .done x y a' b' hpa hqb hafter (hrel _ _ hxy)
  | failed cause a' b' hcause hpa hqb hafter =>
      exact .failed cause a' b' (hfails hcause) hpa hqb hafter

/-- What never fails may be part of what does. -/
theorem Shadows.lift {p : Action α} {q : Action β} (hp : Shadows v w depth False rel p q) :
    Shadows v w depth fails rel p q :=
  hp.mono False.elim fun _ _ => id

theorem Shadows.map {p : Action α} {q : Action β} {f : α → γ} {g : β → δ} {rel' : γ → δ → Prop}
    (hp : Shadows v w depth fails rel p q) (hrel : ∀ x y, rel x y → rel' (f x) (g y)) :
    Shadows v w depth fails rel' (f <$> p) (g <$> q) :=
  hp.bind fun x y hxy => Shadows.pure (hrel x y hxy)

/-- What is seen in the worlds decides what comes next. -/
theorem Shadows.inspect {f : World → γ} {g : World → δ} {next : γ → Action α}
    {next' : δ → Action β}
    (hnext : ∀ a b, Shadow v w a b → a.expansions = depth →
      Shadows v w depth fails rel (next (f a)) (next' (g b))) :
    Shadows v w depth fails rel (Action.inspect f >>= next) (Action.inspect g >>= next') :=
  fun a b h hdepth => match hnext a b h hdepth a b h hdepth with
    | .done x y a' b' hp hq hafter hxy => .done x y a' b' hp hq hafter hxy
    | .failed cause a' b' hfails hp hq hafter => .failed cause a' b' hfails hp hq hafter

/-- What is seen in the worlds is related. -/
theorem Shadows.seen {f : World → α} {g : World → β} (hrel : ∀ a b, Shadow v w a b →
    rel (f a) (g b)) : Shadows v w depth fails rel (Action.inspect f) (Action.inspect g) :=
  fun a b h _ => .done (f a) (g b) a b rfl rfl ⟨h, rfl, rfl⟩ (hrel a b h)

/-- Nodes are held in one run and their counterparts in the other. -/
theorem Shadows.holding {p : Action α} {q : Action β} {nodes nodes' : List NodeId}
    (hnodes : nodes' = nodes.map (NodeId.moved v w)) (hp : Shadows v w depth fails rel p q) :
    Shadows v w depth fails rel (Action.holding nodes p) (Action.holding nodes' q) := by
  subst hnodes
  intro a b h hdepth
  -- However the body ends, what was held before is held again.
  cases hp _ _ (h.hold nodes) hdepth with
  | done x y a' b' hpa hqb hafter hxy =>
      refine .done x y _ _ ?_ ?_ ⟨h.letGo hafter.shadow, rfl, hafter.expansions⟩ hxy
      · rw [Action.holding, hpa]
      · rw [Action.holding, hqb]
  | failed cause a' b' hfails hpa hqb hafter =>
      refine .failed cause _ _ hfails ?_ ?_ ⟨h.letGo hafter.shadow, rfl, hafter.expansions⟩
      · rw [Action.holding, hpa]
      · rw [Action.holding, hqb]

/-- One expansion more is under way during the action. -/
theorem Shadows.expansion {p : Action α} {q : Action β}
    (hp : Shadows v w (depth + 1) fails rel p q) :
    Shadows v w depth fails rel
      (within (fun w => { w with expansions := w.expansions + 1 })
        (fun w => { w with expansions := w.expansions - 1 }) p)
      (within (fun w => { w with expansions := w.expansions + 1 })
        (fun w => { w with expansions := w.expansions - 1 }) q) := by
  intro a b h hdepth
  cases hp _ _ (h.expand (· + 1)) (congrArg (· + 1) hdepth) with
  | done x y a' b' hpa hqb hafter hxy =>
      have hback : a'.expansions - 1 = a.expansions := by rw [hafter.expansions]; rfl
      refine .done x y _ _ ?_ ?_ ⟨hafter.shadow.expand (· - 1), hafter.held, hback⟩ hxy
      · rw [within, hpa]
      · rw [within, hqb]
  | failed cause a' b' hfails hpa hqb hafter =>
      have hback : a'.expansions - 1 = a.expansions := by rw [hafter.expansions]; rfl
      refine .failed cause _ _ hfails ?_ ?_ ⟨hafter.shadow.expand (· - 1), hafter.held, hback⟩
      · rw [within, hpa]
      · rw [within, hqb]

/-- The cause of a failure is a result like the value of what is done. -/
inductive Attempted (v w : World) (rel : α → β → Prop) : Except Failure α → Except Failure β → Prop
  | done {x : α} {y : β} (h : rel x y) : Attempted v w rel (.ok x) (.ok y)
  | failed (cause : Failure) :
      Attempted v w rel (.error cause) (.error (cause.rename (NodeId.moved v w)))

theorem Shadows.attempt {p : Action α} {q : Action β} (hp : Shadows v w depth fails rel p q) :
    Shadows v w depth False (Attempted v w rel) (Action.attempt p) (Action.attempt q) := by
  intro a b h hdepth
  cases hp a b h hdepth with
  | done x y a' b' hpa hqb hafter hxy =>
      refine .done _ _ a' b' ?_ ?_ hafter (.done hxy)
      · rw [Action.attempt, hpa]
      · rw [Action.attempt, hqb]
  | failed cause a' b' hfails hpa hqb hafter =>
      refine .done _ _ a' b' ?_ ?_ hafter (.failed cause)
      · rw [Action.attempt, hpa]
      · rw [Action.attempt, hqb]

end Action

/-! ## Contexts -/

/-- The context with its nodes renamed. -/
def Context.rename (f : NodeId → NodeId) (c : Context) : Context :=
  ⟨f c.this, c.parent.map f, f c.frame, f c.static⟩

@[simp] theorem Context.nodes_rename (f : NodeId → NodeId) (c : Context) :
    (c.rename f).nodes = c.nodes.map f := by
  obtain ⟨this, parent, frame, static⟩ := c
  cases parent <;> rfl

theorem Context.binding_rename (f : NodeId → NodeId) (c : Context) (name : String) :
    (c.rename f).binding name = (c.binding name).map (Value.rename f) := by
  obtain ⟨this, parent, frame, static⟩ := c
  unfold Context.binding
  repeat' split
  all_goals first | rfl | (cases parent <;> rfl)

section Contexts

open World (Shadow)

variable {α β : Type} {v w : World} {depth : Nat} {fails : Prop} {rel : α → β → Prop}

/-- The second run sees the counterparts of the nodes that the first sees. Where a frame or the
static node is missing, both make a blank one. -/
theorem Context.create_shadows (n : NodeId) :
    Action.Shadows v w depth False (fun c c' => c' = c.rename (NodeId.moved v w))
      (Context.create n) (Context.create (n.moved v w)) := by
  intro a b h _
  obtain ⟨hfresh, h₁⟩ := h.create
  have hframes := h.frames
  -- Whether a frame is missing, and then whether the node is one of the engine.
  cases hf : a.frames with
  | cons frame rest =>
      rw [hf] at hframes
      by_cases hengined : (a.cell n).engined = true
      · refine .done ⟨n, a.parent? n, frame, a.static⟩ _ a b ?_ ?_ ⟨h, rfl, rfl⟩ rfl
        · simp [Context.create, hf, hengined]
        · simp [Context.create, hframes, h.cell, hengined, h.parent?, h.static, Context.rename]
      · refine .done ⟨n, a.parent? n, frame, (a.create false).1⟩ _ (a.create false).2
          (b.create false).2 ?_ ?_ ⟨h₁, rfl, rfl⟩ rfl
        · simp [Context.create, hf, hengined]
        · simp [Context.create, hframes, h.cell, hengined, h.parent?, hfresh, Context.rename]
  | nil =>
      rw [hf] at hframes
      obtain ⟨hfresh₁, h₂⟩ := h₁.create
      by_cases hengined : ((a.create false).2.cell n).engined = true
      · refine .done ⟨n, a.parent? n, (a.create false).1, a.static⟩ _ (a.create false).2
          (b.create false).2 ?_ ?_ ⟨h₁, rfl, rfl⟩ rfl
        · simp [Context.create, hf, hengined]
          rfl
        · simp [Context.create, hframes, h₁.cell, hengined, h.parent?, h₁.static, hfresh,
            Context.rename]
          rfl
      · refine .done ⟨n, a.parent? n, (a.create false).1, ((a.create false).2.create false).1⟩ _
          ((a.create false).2.create false).2 ((b.create false).2.create false).2 ?_ ?_
          ⟨h₂, rfl, rfl⟩ rfl
        · simp [Context.create, hf, hengined]
        · simp [Context.create, hframes, h₁.cell, hengined, h.parent?, hfresh, hfresh₁,
            Context.rename]

theorem NodeId.within_shadows {p : Context → Action α} {q : Context → Action β} (n : NodeId)
    (hbody : ∀ c, Action.Shadows v w depth fails rel (p c) (q (c.rename (NodeId.moved v w)))) :
    Action.Shadows v w depth fails rel (n.within p) ((n.moved v w).within q) := by
  refine Action.Shadows.bind (Context.create_shadows n).lift fun c c' hc => ?_
  subst hc
  exact (hbody c).holding (Context.nodes_rename _ c)

theorem Action.ofFaulty_shadows {x y : Except Script.Fault Value}
    (h : y = x.map (Value.rename (NodeId.moved v w))) :
    Action.Shadows v w depth True (Counterpart v w) (Action.ofFaulty x) (Action.ofFaulty y) := by
  subst h
  cases x with
  | ok value => exact Action.Shadows.pure rfl
  | error fault => exact Action.Shadows.fail trivial (.script fault)

end Contexts

/-! ## Reading nodes -/

/-- Inside of that many expansions the second language expands calm templates like the first. -/
def Language.Shadows (v w : World) (depth : Nat) (lang lang' : Language) : Prop :=
  ∀ c text, Template.Calm text →
    Action.Shadows v w depth False Same (lang.expand c text)
      (lang'.expand (c.rename (NodeId.moved v w)) text)

/-- The texts that a reading finds are stored where it started, so they are calm. -/
theorem World.Shadow.calm_of_getRaw {v w a b : World} (h : World.Shadow v w a b) (hcalm : v.Calm)
    {n : NodeId} {key s : String} (hs : a.getRaw n key = some (.text s)) : Template.Calm s := by
  rw [World.getRaw, h.left.cell] at hs
  exact hcalm n key s hs

/-- The node with the text that it names its directory by. -/
def World.directoryOn? (w : World) (m : NodeId) : Option (NodeId × String) :=
  match w.getRaw m directoryKey with
  | some (.text s) => some (m, s)
  | _ => none

theorem NodeId.directory_eq (lang : Language) (n : NodeId) : n.directory lang = (do
    let lineage ← Action.inspect (·.lineage n)
    match ← Action.inspect fun w => lineage.findSome? w.directoryOn? with
    | some (m, s) => Action.holding [m] (m.expand lang s)
    | none => pure ".") := rfl

section Nodes

open World (Shadow)

variable {v w : World} {depth : Nat} {lang lang' : Language}
  (hl : Language.Shadows v w depth lang lang') (hcalm : v.Calm)
include hl

theorem NodeId.expand_shadows (n : NodeId) {text : String} (htext : Template.Calm text) :
    Action.Shadows v w depth False Same (n.expand lang text)
      ((n.moved v w).expand lang' text) := by
  rw [NodeId.expand, NodeId.expand]
  refine Action.Shadows.inspect fun a b h _ => ?_
  rw [h.expandsOn]
  split
  · exact NodeId.within_shadows n fun c => hl c text htext
  · exact Action.Shadows.pure rfl

/-- A value that a node holds is read with the same result. -/
theorem NodeId.readValue_shadows (n : NodeId) {x : Value} (hx : v.Settled x)
    (htext : ∀ s, x = .text s → Template.Calm s) :
    Action.Shadows v w depth False (fun y z => z = y ∧ v.Settled y) (n.readValue lang x)
      ((n.moved v w).readValue lang' x) := by
  unfold NodeId.readValue
  split
  · rename_i s
    refine (NodeId.expand_shadows hl n (htext s rfl)).map fun x y hxy =>
      ⟨congrArg Value.text hxy, ?_⟩
    intro r hr
    cases hr
  · exact Action.Shadows.pure ⟨rfl, hx⟩

include hcalm

theorem NodeId.get_shadows (n : NodeId) (key : String) :
    Action.Shadows v w depth False (SameSettled v) (n.get lang key)
      ((n.moved v w).get lang' key) := by
  rw [NodeId.get, NodeId.get]
  refine Action.Shadows.inspect fun a b h _ => ?_
  rw [h.getRaw]
  cases hx : a.getRaw n key with
  | none => exact Action.Shadows.pure ⟨rfl, by simp⟩
  | some x =>
      have htext : ∀ s, x = .text s → Template.Calm s := by
        rintro s rfl
        exact h.calm_of_getRaw hcalm hx
      refine (NodeId.readValue_shadows hl n (h.settled_getRaw hx) htext).map ?_
      rintro y z ⟨rfl, hy⟩
      refine ⟨rfl, fun x' hx' => ?_⟩
      obtain rfl := Option.some.inj hx'
      exact hy

theorem NodeId.resolve_shadows (n : NodeId) (key : String) :
    Action.Shadows v w depth False (SameSettled v) (n.resolve lang key)
      ((n.moved v w).resolve lang' key) := by
  rw [NodeId.resolve, NodeId.resolve]
  refine Action.Shadows.inspect fun a b h _ => ?_
  rw [h.holder?]
  cases a.holder? n key with
  | none => exact Action.Shadows.pure ⟨rfl, by simp⟩
  | some holder => exact (NodeId.get_shadows hl hcalm holder key).holding rfl

/-- The value of a bare name is a node of the context or a value that a node holds. -/
theorem Context.lookup_shadows (c : Context) (name : String) :
    Action.Shadows v w depth False (fun x y => y = x.map (Value.rename (NodeId.moved v w)))
      (c.lookup lang name) ((c.rename (NodeId.moved v w)).lookup lang' name) := by
  have hrename : ∀ {x y : Option Value}, SameSettled v x y →
      y = x.map (Value.rename (NodeId.moved v w)) := by
    rintro (_ | x) _ ⟨rfl, hx⟩
    · rfl
    · rw [Option.map_some, Shadow.rename_of_settled (hx x rfl)]
  rw [Context.lookup, Context.lookup, Context.binding_rename]
  cases c.binding name with
  | some value => exact Action.Shadows.pure rfl
  | none =>
      refine Action.Shadows.inspect fun a b h _ => ?_
      rw [Context.rename, h.getRaw]
      cases hx : a.getRaw c.frame name with
      | some x =>
          refine Action.Shadows.pure (hrename ⟨rfl, ?_⟩)
          rintro x' ⟨⟩
          exact h.settled_getRaw hx
      | none =>
          refine (NodeId.resolve_shadows hl hcalm c.this name).bind ?_
          rintro (_ | x) _ hxy
          · obtain ⟨rfl, -⟩ := hxy
            refine Action.Shadows.seen fun a b h => hrename ⟨h.getRaw c.static name, ?_⟩
            exact fun x hx => h.settled_getRaw hx
          · obtain ⟨rfl, hx⟩ := hxy
            exact Action.Shadows.pure (hrename ⟨rfl, hx⟩)

theorem NodeId.findFrom_shadows (names : List String) {x : Value} (hx : v.Settled x) :
    Action.Shadows v w depth False (SameSettled v) (NodeId.findFrom lang names x)
      (NodeId.findFrom lang' names x) := by
  induction names generalizing x with
  | nil =>
      refine Action.Shadows.pure ⟨rfl, ?_⟩
      rintro x' ⟨⟩
      exact hx
  | cons name rest ih =>
      cases x with
      | node m =>
          have hm : m.moved v w = m := NodeId.moved_of_lt (hx m List.mem_cons_self)
          have hget := NodeId.get_shadows hl hcalm m name
          rw [hm] at hget
          refine Action.Shadows.bind (hget.holding (by rw [List.map_singleton, hm])) ?_
          rintro (_ | y) _ ⟨rfl, hy⟩
          · exact Action.Shadows.pure ⟨rfl, by simp⟩
          · exact ih (hy y rfl)
      | list items =>
          simp only [NodeId.findFrom]
          split
          · rename_i i _
            cases hy : items[i.toNat]? with
            | none => exact Action.Shadows.pure ⟨rfl, by simp⟩
            | some y =>
                exact ih fun r hr => hx r (Value.mem_allNodes.mpr ⟨y, List.mem_of_getElem? hy, hr⟩)
          · exact Action.Shadows.pure ⟨rfl, by simp⟩
      | _ => exact Action.Shadows.pure ⟨rfl, by simp⟩

theorem Value.member_shadows (name : String) (x : Value) :
    Action.Shadows v w depth True (Counterpart v w) (x.member lang name)
      ((x.rename (NodeId.moved v w)).member lang' name) := by
  cases x with
  | node n =>
      refine (NodeId.get_shadows hl hcalm n name).lift.map ?_
      rintro (_ | y) _ ⟨rfl, hy⟩
      · exact rfl
      · exact (Shadow.rename_of_settled (hy y rfl)).symm
  | list items =>
      refine Action.Shadows.pure ?_
      rw [Value.renameAll_eq_map, List.length_map, ← Value.renameAll_eq_map, Value.itemAt_rename]
      split
      · rfl
      · rfl
  | text s =>
      refine Action.Shadows.pure ?_
      split
      · rfl
      · rfl
  | failure cause =>
      refine Action.Shadows.seen fun a b h => ?_
      show (b.failureMember? _ name).getD .null =
        ((a.failureMember? cause name).getD .null).rename _
      rw [h.failureMember?]
      cases a.failureMember? cause name <;> rfl
  | _ => exact Action.Shadows.pure rfl

theorem Value.part_shadows (x key : Value) :
    Action.Shadows v w depth True (Counterpart v w) (x.part lang key)
      ((x.rename (NodeId.moved v w)).part lang' (key.rename (NodeId.moved v w))) := by
  cases x with
  | node n =>
      refine Action.Shadows.inspect fun a b h _ => ?_
      rw [h.text]
      refine (NodeId.get_shadows hl hcalm n _).lift.map ?_
      rintro (_ | y) _ ⟨rfl, hy⟩
      · exact rfl
      · exact (Shadow.rename_of_settled (hy y rfl)).symm
  | list items =>
      refine Action.Shadows.pure ?_
      rw [Value.index?_rename, Value.itemAt_rename]
      rfl
  | text s =>
      refine Action.Shadows.pure ?_
      rw [Value.index?_rename]
      split <;> rfl
  | _ => exact Action.Shadows.pure rfl

end Nodes

section Expressions

variable {v w : World} {depth : Nat} {lang lang' : Language}

mutual

theorem Expr.eval_shadows (hl : Language.Shadows v w depth lang lang') (hcalm : v.Calm)
    (c : Context) : ∀ e : Expr, e.isReading = true →
    Action.Shadows v w depth True (Counterpart v w) (e.eval lang c)
      (e.eval lang' (c.rename (NodeId.moved v w)))
  | .literal value, _ => by
      rw [Expr.eval, Expr.eval]
      refine Action.Shadows.pure ?_
      cases value <;> rfl
  | .list items, h => by
      rw [Expr.eval, Expr.eval]
      exact (Expr.evalAll_shadows hl hcalm c items h).map fun xs ys hxy => congrArg Value.list hxy
  | .name s, _ => by
      rw [Expr.eval, Expr.eval]
      refine (Context.lookup_shadows hl hcalm c s).lift.map ?_
      rintro (_ | x) _ rfl <;> rfl
  | .member target s, h => by
      rw [Expr.eval, Expr.eval]
      refine (Expr.eval_shadows hl hcalm c target h).bind ?_
      rintro x _ rfl
      exact (Value.member_shadows hl hcalm s x).holding (Value.nodes_rename _ x)
  | .index target key, h => by
      obtain ⟨htarget, hkey⟩ := Bool.and_eq_true_iff.mp h
      rw [Expr.eval, Expr.eval]
      refine (Expr.eval_shadows hl hcalm c target htarget).bind ?_
      rintro x _ rfl
      refine Action.Shadows.holding (Value.nodes_rename _ x) ?_
      refine (Expr.eval_shadows hl hcalm c key hkey).bind ?_
      rintro k _ rfl
      exact (Value.part_shadows hl hcalm x k).holding (Value.nodes_rename _ k)
  | .neg operand, h => by
      rw [Expr.eval, Expr.eval]
      refine (Expr.eval_shadows hl hcalm c operand h).bind ?_
      rintro x _ rfl
      exact Action.ofFaulty_shadows (Value.negate_rename _ x)
  | .not operand, h => by
      rw [Expr.eval, Expr.eval]
      refine (Expr.eval_shadows hl hcalm c operand h).bind ?_
      rintro x _ rfl
      rw [Value.isTruthy_rename]
      exact Action.Shadows.pure rfl
  | .binary op left right, h => by
      obtain ⟨hleft, hright⟩ := Bool.and_eq_true_iff.mp h
      rw [Expr.eval, Expr.eval]
      refine (Expr.eval_shadows hl hcalm c left hleft).bind ?_
      rintro x _ rfl
      refine Action.Shadows.holding (Value.nodes_rename _ x) ?_
      refine (Expr.eval_shadows hl hcalm c right hright).bind ?_
      rintro y _ rfl
      refine Action.Shadows.holding (Value.nodes_rename _ y) ?_
      exact Action.Shadows.inspect fun a b h _ => Action.ofFaulty_shadows (h.binary op x y)
  | .and left right, h => by
      obtain ⟨hleft, hright⟩ := Bool.and_eq_true_iff.mp h
      rw [Expr.eval, Expr.eval]
      refine (Expr.eval_shadows hl hcalm c left hleft).bind ?_
      rintro x _ rfl
      rw [Value.isTruthy_rename]
      split
      · refine (Expr.eval_shadows hl hcalm c right hright).bind ?_
        rintro y _ rfl
        rw [Value.isTruthy_rename]
        exact Action.Shadows.pure rfl
      · exact Action.Shadows.pure rfl
  | .or left right, h => by
      obtain ⟨hleft, hright⟩ := Bool.and_eq_true_iff.mp h
      rw [Expr.eval, Expr.eval]
      refine (Expr.eval_shadows hl hcalm c left hleft).bind ?_
      rintro x _ rfl
      rw [Value.isTruthy_rename]
      split
      · exact Action.Shadows.pure rfl
      · refine (Expr.eval_shadows hl hcalm c right hright).bind ?_
        rintro y _ rfl
        rw [Value.isTruthy_rename]
        exact Action.Shadows.pure rfl
  | .choice test yes no, h => by
      obtain ⟨h, hno⟩ := Bool.and_eq_true_iff.mp h
      obtain ⟨htest, hyes⟩ := Bool.and_eq_true_iff.mp h
      rw [Expr.eval, Expr.eval]
      refine (Expr.eval_shadows hl hcalm c test htest).bind ?_
      rintro x _ rfl
      rw [Value.isTruthy_rename]
      split
      · exact Expr.eval_shadows hl hcalm c yes hyes
      · exact Expr.eval_shadows hl hcalm c no hno
  | .call _ _, h | .send _ _ _, h | .assign _ _, h => by cases h

theorem Expr.evalAll_shadows (hl : Language.Shadows v w depth lang lang') (hcalm : v.Calm)
    (c : Context) : ∀ es : List Expr, Expr.allReading es = true →
    Action.Shadows v w depth True (Counterparts v w) (Expr.evalAll lang c es)
      (Expr.evalAll lang' (c.rename (NodeId.moved v w)) es)
  | [], _ => by
      rw [Expr.evalAll, Expr.evalAll]
      exact Action.Shadows.pure rfl
  | e :: rest, h => by
      obtain ⟨he, hrest⟩ := Bool.and_eq_true_iff.mp h
      rw [Expr.evalAll, Expr.evalAll]
      refine (Expr.eval_shadows hl hcalm c e he).bind ?_
      rintro x _ rfl
      refine ((Expr.evalAll_shadows hl hcalm c rest hrest).holding (Value.nodes_rename _ x)).bind ?_
      rintro xs _ rfl
      exact Action.Shadows.pure rfl

end

/-! ## Expanding templates -/

variable (hl : Language.Shadows v w depth lang lang') (hcalm : v.Calm)
include hl hcalm

theorem Template.render_shadows (c : Context) (body : List Char)
    (hbody : ∀ e, Expr.parse (String.ofList (Text.trim body)) = .ok e → e.isReading = true) :
    Action.Shadows v w depth False Same (Template.render lang c body)
      (Template.render lang' (c.rename (NodeId.moved v w)) body) := by
  rw [Template.render, Template.render]
  cases he : Expr.parse (String.ofList (Text.trim body)) with
  | error _ => exact Action.Shadows.pure rfl
  | ok e =>
      refine (Expr.eval_shadows hl hcalm c e (hbody e he)).attempt.bind ?_
      rintro _ _ (⟨hxy⟩ | cause)
      · rename_i x y
        obtain rfl := hxy
        cases x with
        | null => exact Action.Shadows.pure rfl
        | _ =>
            refine Action.Shadows.holding (Value.nodes_rename _ _) ?_
            exact Action.Shadows.seen fun a b h => congrArg String.toList (h.text _)
      · -- A placeholder whose expression fails stays, for whatever cause.
        exact Action.Shadows.pure rfl

theorem Template.renderAll_shadows (c : Context) (pieces : List Template.Piece)
    (hpieces : ∀ body, Template.Piece.hole body ∈ pieces →
      ∀ e, Expr.parse (String.ofList (Text.trim body)) = .ok e → e.isReading = true) :
    Action.Shadows v w depth False Same (Template.renderAll lang c pieces)
      (Template.renderAll lang' (c.rename (NodeId.moved v w)) pieces) := by
  induction pieces with
  | nil => exact Action.Shadows.pure rfl
  | cons piece rest ih =>
      have hrest := ih fun body hbody => hpieces body (List.mem_cons_of_mem _ hbody)
      cases piece with
      | plain s =>
          refine hrest.bind ?_
          rintro after _ rfl
          exact Action.Shadows.pure rfl
      | hole body =>
          refine (Template.render_shadows hl hcalm c body (hpieces body List.mem_cons_self)).bind ?_
          rintro filled _ rfl
          refine hrest.bind ?_
          rintro after _ rfl
          exact Action.Shadows.pure rfl

end Expressions

/-- Templates are expanded alike when those inside of them are. -/
theorem Template.expand_shadows {v w : World} {depth : Nat} {lang lang' : Language}
    (hl : depth < Template.depthLimit → Language.Shadows v w (depth + 1) lang lang')
    (hcalm : v.Calm) (c : Context) {text : String} (htext : Template.Calm text) :
    Action.Shadows v w depth False Same (Template.expand lang c text)
      (Template.expand lang' (c.rename (NodeId.moved v w)) text) := by
  rw [Template.expand, Template.expand]
  split
  · exact Action.Shadows.pure rfl
  · refine Action.Shadows.inspect fun a b h hdepth => ?_
    rw [h.expansions, hdepth]
    by_cases hlimit : Template.depthLimit ≤ depth
    · -- At the limit the template stays as it is.
      rw [decide_eq_true hlimit, if_pos rfl, if_pos rfl]
      exact Action.Shadows.pure rfl
    · rw [decide_eq_false hlimit, if_neg Bool.false_ne_true, if_neg Bool.false_ne_true]
      refine Action.Shadows.expansion ?_
      have hinner := hl (Nat.not_le.mp hlimit)
      refine (Template.renderAll_shadows hinner hcalm c _ htext).map ?_
      rintro filled _ rfl
      rfl

/-- Fuel for all expansions up to the limit is as good as any other such fuel. -/
theorem Language.shadows_ofFuel {v w : World} (hcalm : v.Calm) {depth fuel fuel' : Nat}
    (hfuel : 0 < fuel) (hfuel' : 0 < fuel') (henough : Template.depthLimit < depth + fuel)
    (henough' : Template.depthLimit < depth + fuel') :
    Language.Shadows v w depth (.ofFuel fuel) (.ofFuel fuel') := by
  -- By induction on the fuel, which covers the expansions that may still be started.
  induction fuel generalizing depth fuel' with
  | zero => omega
  | succ fuel ih =>
      cases fuel' with
      | zero => omega
      | succ fuel' =>
          -- A template inside has one unit less, and one expansion more is under way.
          intro c text htext
          refine Template.expand_shadows (fun hdepth => ?_) hcalm c htext
          exact ih (by omega) (by omega) (by omega) (by omega)

end ScriptTree
