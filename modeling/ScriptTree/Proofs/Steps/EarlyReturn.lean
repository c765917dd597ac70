import Mathlib
import ScriptTree.Proofs.Run.Visits
import ScriptTree.Proofs.Steps.Loop

/-!
# Early returns

A statement may raise an early return anywhere inside it: in its own expression, in the script that
a call evaluates, or in a test or operation of a loop (`Raises`). Each evaluation of a script adds a
layer to the signal, and a sequence of steps sees through one layer. A loop takes off the layer that
its own evaluation adds, and takes a signal with more of them for a failure that it passes over. So
the sequence ends at once with the value just when every script between the return and the
statement is evaluated by a loop (`steps_eq_returned_iff`).
-/

set_option autoImplicit false

namespace ScriptTree

/-- What evaluates a script in the middle of a statement. -/
inductive Layer where
  /-- A call that evaluates a text, or the test of a branch. -/
  | evaluation
  /-- A loop, for a test or an operation. -/
  | loop
  deriving DecidableEq, Repr

/-- The number of layers that a signal carries behind others, the outermost first. There is none
when a loop on the way takes the signal for a failure. -/
def Layer.carried : List Layer → Option Nat
  | [] => some 0
  | .evaluation :: inner => (carried inner).map (· + 1)
  | .loop :: inner => if carried inner = some 0 then some 0 else none

theorem Layer.carried_eq_zero_iff (layers : List Layer) :
    carried layers = some 0 ↔ ∀ layer ∈ layers, layer = .loop := by
  induction layers with
  | nil => simp [carried]
  | cons layer inner ih =>
      cases layer with
      | evaluation => simp [carried]
      | loop => simp [carried, ih]

/-- The failure is the signal of an early return with a number of layers around it. -/
inductive Failure.Carries (value : Value) : Nat → Failure → Prop
  | returning : Carries value 0 (.returning value)
  | evaluation (statement : String) (d : Nat) (cause : Failure) (inner : Carries value d cause) :
      Carries value (d + 1) (.evaluation statement cause)

theorem Failure.Carries.returned? {value : Value} {cause : Failure} (h : cause.Carries value 1) :
    cause.returned? = some value := by
  cases h with
  | evaluation statement d cause inner =>
      cases inner
      rfl

theorem Failure.Carries.returned?_eq_none {value : Value} {d : Nat} {cause : Failure}
    (h : cause.Carries value (d + 2)) : cause.returned? = none := by
  cases h with
  | evaluation statement d cause inner =>
      cases inner
      rfl

/-- What is evaluated inside a statement, or is one. -/
inductive Task where
  | expression (c : Context) (e : Expr)
  | operation (n : NodeId) (call : Call)
  | script (n : NodeId) (text : String)
  /-- A text that is expanded to a script first. -/
  | template (n : NodeId) (text : String)

/-- Evaluates a task. -/
def Task.run (lang : Language) : Task → Action Value
  | .expression c e => e.eval lang c
  | .operation n call => n.invoke lang call
  | .script n text => n.eval lang text
  | .template n text => n.perform lang text

/-- The layers that a task itself adds. -/
def Task.layers : Task → Nat
  | .expression _ _ | .operation _ _ => 0
  | .script _ _ | .template _ _ => 1

/-- Evaluating the task from `w` comes to an early return with the value in the world `r`, behind
the given layers, the outermost first, and not inside another sequence of steps. -/
inductive Raises (v : Value) (r : World) : Nat → Task → World → List Layer → Prop
  | returned (fuel : Nat) (n : NodeId) (arguments : List Value)
      (value : (⟨"return", arguments⟩ : Call).first = v) :
      Raises v r fuel (.operation n ⟨"return", arguments⟩) r []
  | part (fuel : Nat) (c : Context) (e : Expr) (w : World) (e' : Expr) (w' : World)
      (layers : List Layer) (part : Expr.Part (.ofFuel fuel) c e w e' w')
      (inner : Raises v r fuel (.expression c e') w' layers) :
      Raises v r fuel (.expression c e) w layers
  | called (fuel : Nat) (c : Context) (s : String) (arguments : List Expr) (w : World)
      (values : List Value) (w₁ : World) (layers : List Layer) (operation : s ≠ "raise")
      (done : Expr.evalAll (.ofFuel fuel) c arguments w = (.done values, w₁))
      (inner : Raises v r fuel (.operation c.this ⟨s, values⟩)
        (w₁.hold (Value.allNodes values)) layers) :
      Raises v r fuel (.expression c (.call s arguments)) w layers
  | sent (fuel : Nat) (c : Context) (receiver : Expr) (s : String) (arguments : List Expr)
      (w : World) (values : List Value) (w₁ : World) (n : NodeId) (w₂ : World)
      (layers : List Layer)
      (done : Expr.evalAll (.ofFuel fuel) c arguments w = (.done values, w₁))
      (found : receiver.eval (.ofFuel fuel) c (w₁.hold (Value.allNodes values)) =
        (.done (.node n), w₂))
      (inner : Raises v r fuel (.operation n ⟨s, values⟩) (w₂.hold [n]) layers) :
      Raises v r fuel (.expression c (.send receiver s arguments)) w layers
  | eval (fuel : Nat) (n : NodeId) (text : String) (rest : List Value) (w : World)
      (layers : List Layer) (inner : Raises v r fuel (.script n text) w layers) :
      Raises v r fuel (.operation n ⟨"eval", .text text :: rest⟩) w (.evaluation :: layers)
  | getItem (fuel : Nat) (n : NodeId) (path : String) (rest : List Value) (w : World)
      (layers : List Layer) (inner : Raises v r fuel (.script n path) w layers) :
      Raises v r fuel (.operation n ⟨"getItem", .text path :: rest⟩) w (.evaluation :: layers)
  | ifThen (fuel : Nat) (n : NodeId) (test : String) (yes : Value) (rest : List Value) (w : World)
      (layers : List Layer) (inner : Raises v r fuel (.template n test) w layers) :
      Raises v r fuel (.operation n ⟨"ifThen", .text test :: yes :: rest⟩) w
        (.evaluation :: layers)
  | ifThenElse (fuel : Nat) (n : NodeId) (test : String) (yes no : Value) (rest : List Value)
      (w : World) (layers : List Layer) (inner : Raises v r fuel (.template n test) w layers) :
      Raises v r fuel (.operation n ⟨"ifThenElse", .text test :: yes :: no :: rest⟩) w
        (.evaluation :: layers)
  | whileDo (fuel : Nat) (n : NodeId) (arguments : List Value) (test : String)
      (operations : Value) (limit : Nat) (w : World) (item : LoopItem) (w₁ : World)
      (layers : List Layer) (text : (⟨"whileDo", arguments⟩ : Call).text 0 = .ok test)
      (value : (⟨"whileDo", arguments⟩ : Call).value 1 = .ok operations)
      (count : (⟨"whileDo", arguments⟩ : Call).count 2 = .ok limit)
      (reached : n.Reaches (.ofFuel fuel) test (w.stepsList operations) limit w item w₁)
      (inner : Raises v r fuel (.template n (item.text test)) w₁ layers) :
      Raises v r fuel (.operation n ⟨"whileDo", arguments⟩) w (.loop :: layers)
  | whileDoAll (fuel : Nat) (n : NodeId) (arguments : List Value) (test : String)
      (operations : Value) (limit : Nat) (w : World) (item : LoopItem) (w₁ : World)
      (layers : List Layer) (text : (⟨"whileDoAll", arguments⟩ : Call).text 0 = .ok test)
      (value : (⟨"whileDoAll", arguments⟩ : Call).value 1 = .ok operations)
      (count : (⟨"whileDoAll", arguments⟩ : Call).count 2 = .ok limit)
      (reached : n.Reaches (.ofFuel fuel) test (w.allTexts operations) limit w item w₁)
      (inner : Raises v r fuel (.template n (item.text test)) w₁ layers) :
      Raises v r fuel (.operation n ⟨"whileDoAll", arguments⟩) w (.loop :: layers)
  | script (fuel : Nat) (n : NodeId) (text : String) (w : World) (c : Context) (w₁ : World)
      (before : List String) (s : String) (after : List String) (last : Value) (w₂ : World)
      (e : Expr) (layers : List Layer) (evaluates : w.evaluatesOn n = true)
      (context : Context.create n w = (.done c, w₁))
      (statements : Script.statements text = before ++ s :: after)
      (done : (Language.ofFuel (fuel + 1)).evaluateAll c before .null (w₁.hold c.nodes) =
        (.done last, w₂))
      (parsed : Expr.parse s = .ok e)
      (inner : Raises v r fuel (.expression c e) (w₂.hold last.nodes) layers) :
      Raises v r (fuel + 1) (.script n text) w layers
  | template (fuel : Nat) (n : NodeId) (text : String) (w : World) (script : String) (w₁ : World)
      (layers : List Layer) (expanded : n.expand (.ofFuel fuel) text w = (.done script, w₁))
      (inner : Raises v r fuel (.script n script) w₁ layers) :
      Raises v r fuel (.template n text) w layers

/-- How an action ends that comes to an early return behind layers, of which it adds `outer` itself:
it fails with the signal and its layers at once, unless a loop inside it takes the signal for a
failure, and then it adds to the trace. -/
structure Action.EndsBehind {α : Type} (v : Value) (r : World) (a : Action α) (w : World)
    (outer : Nat) (layers : List Layer) : Prop where
  raised : ∀ d, Layer.carried layers = some d → ∃ cause, Failure.Carries v (d + outer) cause ∧
    a w = (.failed cause, { r with held := w.held })
  events : r.trace <:+ (a w).2.trace
  missed : Layer.carried layers = none → r.trace.length < (a w).2.trace.length

namespace Action

variable {α β : Type} {v : Value} {r : World}

theorem EndsBehind.of_visits {a : Action α} {b : Action β} {w w' : World} {outer : Nat}
    {layers : List Layer} (hb : b.EndsBehind v r w' outer layers) (h : a.Visits w b w') :
    a.EndsBehind v r w outer layers where
  raised := by
    intro d hd
    obtain ⟨cause, hcarries, hfails⟩ := hb.raised d hd
    have ha := h.fails cause _ hfails
    exact ⟨cause, hcarries, ha⟩
  events := hb.events.trans h.events
  missed := fun hnone => Nat.lt_of_lt_of_le (hb.missed hnone) h.events.length_le

/-- A layer that the action adds itself is one more in front of the others. -/
theorem EndsBehind.evaluation {a : Action α} {w : World} {layers : List Layer}
    (h : a.EndsBehind v r w 1 layers) : a.EndsBehind v r w 0 (.evaluation :: layers) where
  raised := by
    intro d hd
    obtain ⟨inner, hinner, rfl⟩ := Option.map_eq_some_iff.mp hd
    exact h.raised inner hinner
  events := h.events
  missed := fun hnone => h.missed (Option.map_eq_none_iff.mp hnone)

theorem EndsBehind.mapFailure {a : Action α} {w : World} {layers : List Layer}
    (h : a.EndsBehind v r w 0 layers) (s : String) :
    (mapFailure (.evaluation s) a).EndsBehind v r w 1 layers := by
  have hworld : (Action.mapFailure (.evaluation s) a w).2 = (a w).2 := by
    rw [Action.mapFailure]
    rcases a w with ⟨value | cause | _, w₁⟩ <;> rfl
  refine ⟨?_, ?_, ?_⟩
  · intro d hd
    obtain ⟨cause, hcarries, hfails⟩ := h.raised d hd
    refine ⟨.evaluation s cause, .evaluation s d cause hcarries, ?_⟩
    rw [Action.mapFailure, hfails]
  · rw [hworld]
    exact h.events
  · rw [hworld]
    exact h.missed

end Action

/-! ## Scripts -/

theorem Language.evaluate_of_parse {s : String} {e : Expr} (fuel : Nat) (c : Context)
    (hparse : Expr.parse s = .ok e) :
    (Language.ofFuel (fuel + 1)).evaluate c s = e.eval (.ofFuel fuel) c := by
  show Language.evaluateStatement _ c s = _
  rw [Language.evaluateStatement, hparse]

section Scripts

variable {lang : Language} [hl : lang.Orderly]

/-- A script comes to each of its statements after those before it are done. -/
theorem Language.visits_evaluateAll {c : Context} {before after : List String} {s : String}
    {first last : Value} {w w' : World}
    (h : lang.evaluateAll c before first w = (.done last, w')) :
    (lang.evaluateAll c (before ++ s :: after) first).Visits w
      (Action.mapFailure (.evaluation s) (lang.evaluate c s)) (w'.hold last.nodes) := by
  induction before generalizing first w with
  | nil =>
      cases h
      rw [List.nil_append, Language.evaluateAll]
      exact (Action.visits_self _ _).holding.bind _
  | cons statement rest ih =>
      rw [Language.evaluateAll] at h
      obtain ⟨value, w₁, hfirst, hrest⟩ := Action.bind_eq_done h
      rw [List.cons_append, Language.evaluateAll]
      exact Action.Visits.after value hfirst (ih hrest)

theorem NodeId.visits_eval {n : NodeId} {text s : String} {before after : List String}
    {c : Context} {last : Value} {w w₁ w₂ : World} (evaluates : w.evaluatesOn n = true)
    (context : Context.create n w = (.done c, w₁))
    (statements : Script.statements text = before ++ s :: after)
    (done : lang.evaluateAll c before .null (w₁.hold c.nodes) = (.done last, w₂)) :
    (n.eval lang text).Visits w (Action.mapFailure (.evaluation s) (lang.evaluate c s))
      (w₂.hold last.nodes) := by
  rw [NodeId.eval]
  refine Action.Visits.after _ (Action.inspect_apply _ w) ?_
  rw [if_pos evaluates, NodeId.within, statements]
  refine Action.Visits.after c context ?_
  exact (Language.visits_evaluateAll done).holding

theorem NodeId.visits_perform {n : NodeId} {text script : String} {w w₁ : World}
    (expanded : n.expand lang text w = (.done script, w₁)) :
    (n.perform lang text).Visits w (n.eval lang script) w₁ := by
  rw [NodeId.perform]
  exact Action.Visits.after script expanded (Action.visits_self _ _)

end Scripts

/-! ## Loops -/

section Loops

variable {lang : Language} [hl : lang.Orderly] {n : NodeId} {test : String}

instance NodeId.orderly_item (item : LoopItem) : (item.run lang n test).Orderly := by
  cases item with
  | test tries => exact NodeId.orderly_whileTest lang n test tries
  | operation tries text =>
      rw [LoopItem.run]
      infer_instance

instance NodeId.orderly_walk (items : List LoopItem) :
    (NodeId.walk lang n test items).Orderly := by
  induction items with
  | nil => exact Action.orderly_pure true
  | cons item rest ih =>
      rw [NodeId.walk]
      infer_instance

theorem NodeId.GoesThrough.continues {items : List LoopItem} {w w' : World}
    (h : n.GoesThrough lang test items w w') : w.Continues w' := by
  induction h with
  | nil w => exact World.Continues.refl w
  | cons item rest w w' goesOn through ih =>
      exact ((NodeId.orderly_item item).continues w).trans ih

theorem NodeId.Reaches.continues {operations : List String} {limit : Nat} {item : LoopItem}
    {w w' : World} (h : n.Reaches lang test operations limit w item w') : w.Continues w' := by
  obtain ⟨before, rest, -, hbefore⟩ := h
  exact hbefore.continues

/-- A loop keeps the events of every evaluation that it comes to. -/
theorem NodeId.Reaches.events {operations : List String} {limit : Nat} {item : LoopItem}
    {w w' : World} (h : n.Reaches lang test operations limit w item w') :
    (n.after lang test item w').trace <:+ (n.whileDo lang test operations limit w).2.trace := by
  obtain ⟨before, rest, hschedule, hbefore⟩ := h
  have hwalk : (NodeId.walk lang n test (NodeId.schedule operations limit) w).2.trace <:+
      (n.whileDo lang test operations limit w).2.trace := by
    rw [NodeId.whileDo, NodeId.whileFrom_eq_walk]
    exact ((Action.visits_self (NodeId.walk lang n test _) w).bind _).events
  have hitem : (n.after lang test item w').trace <:+
      (NodeId.walk lang n test (NodeId.schedule operations limit) w).2.trace := by
    rw [hschedule, NodeId.walk_of_goesThrough hbefore, NodeId.walk]
    exact ((Action.visits_self (item.run lang n test) w').bind _).events
  exact hitem.trans hwalk

/-- Passing over a failure that is no signal of an early return is an event on a node with an
engine. -/
theorem NodeId.length_trace_skip (kind : TraceKind) (what : String) {cause : Failure} {w : World}
    (hengined : (w.cell n).engined = true) (hcause : cause.returned? = none) :
    (n.skip kind what cause w).2.trace.length = w.trace.length + 1 := by
  rw [NodeId.skip, Failure.signal?, hcause]
  show (ite _ _ _ : World).trace.length = _
  rw [if_pos hengined]
  rfl

/-- A loop sees through one layer of an early return in its test or in an operation, and passes over
one with more. -/
theorem NodeId.endsBehind_whileDo {v : Value} {r : World} {operations : List String} {limit : Nat}
    {item : LoopItem} {w w' : World} {layers : List Layer}
    (h : n.Reaches lang test operations limit w item w')
    (hengined : ((n.perform lang (item.text test) w').2.cell n).engined = true)
    (hends : (n.perform lang (item.text test)).EndsBehind v r w' 1 layers) :
    (n.whileDo lang test operations limit).EndsBehind v r w 0 (.loop :: layers) := by
  have hafter : (n.perform lang (item.text test) w').2.trace <:+
      (n.after lang test item w').trace := by
    have hnoted : (n.perform lang (item.text test) w').2.Noted (n.after lang test item w') :=
      (NodeId.run_eq item w').2
    obtain ⟨events, heq⟩ := hnoted
    rw [heq]
    exact ⟨events, rfl⟩
  have hheld : w'.held = w.held := h.continues.held
  refine ⟨?_, ?_, ?_⟩
  · intro d hd
    rw [Layer.carried] at hd
    split at hd
    · -- The evaluation has put one layer on the return, and the loop takes it off again.
      rename_i hzero
      cases hd
      obtain ⟨cause, hcarries, hfails⟩ := hends.raised 0 hzero
      have hreturned := hcarries.returned?
      have hverdict : n.verdict lang test item w' = .returns v := by
        refine NodeId.verdict_eq_returns_iff.mpr ⟨cause, ?_, hreturned⟩
        rw [hfails]
      obtain ⟨kind, what, hskip⟩ := NodeId.exists_after_eq_skip hfails
      refine ⟨.returning v, .returning, ?_⟩
      rw [NodeId.whileDo_of_reaches h (by rw [hverdict]; exact Verdict.noConfusion), hverdict,
        hskip, NodeId.skip, Failure.signal?, hreturned, hheld]
      rfl
    · cases hd
  · exact (hends.events.trans hafter).trans h.events
  · intro hnone
    rw [Layer.carried] at hnone
    split at hnone
    · cases hnone
    · rename_i hzero
      cases hinner : Layer.carried layers with
      | none =>
          have hlt := hends.missed hinner
          have hle := (hafter.trans h.events).length_le
          omega
      | some d =>
          cases d with
          | zero => exact absurd hinner hzero
          | succ d =>
              -- With more layers the loop sees a failure like any other and reports it.
              obtain ⟨cause, hcarries, hfails⟩ := hends.raised (d + 1) hinner
              obtain ⟨kind, what, hskip⟩ := NodeId.exists_after_eq_skip hfails
              rw [hfails] at hengined
              have hevent := NodeId.length_trace_skip kind what hengined
                hcarries.returned?_eq_none
              have hle := h.events.length_le
              rw [hskip, hevent] at hle
              exact hle

end Loops

/-! ## Operations -/

section Operations

variable {lang : Language} [hl : lang.Orderly] {n : NodeId} {w : World}

/-- An argument that can be read changes nothing. -/
theorem Action.visits_argument {α β γ : Type} {argument : Except Failure α} {value : α}
    {next : α → Action β} {b : Action γ} {w' : World} (h : argument = .ok value)
    (hnext : (next value).Visits w b w') :
    ((liftM argument : Action α) >>= next).Visits w b w' := by
  refine Action.Visits.after value ?_ hnext
  rw [h]
  rfl

theorem NodeId.visits_invoke_eval (text : String) (rest : List Value) :
    (n.invoke lang ⟨"eval", .text text :: rest⟩).Visits w (n.eval lang text) w :=
  Action.visits_argument rfl (Action.visits_self _ w)

theorem NodeId.visits_invoke_getItem (path : String) (rest : List Value) :
    (n.invoke lang ⟨"getItem", .text path :: rest⟩).Visits w (n.eval lang path) w := by
  refine Action.visits_argument rfl (Action.Visits.map ?_ _)
  refine @Action.Visits.bind _ _ _ _ _ _ _ (Action.visits_self (n.eval lang path) w) _ ?_
  intro value
  split <;> infer_instance

theorem NodeId.visits_test (test : String) :
    (n.test lang test).Visits w (n.perform lang test) w := by
  refine @Action.Visits.bind _ _ _ _ _ _ _ (Action.visits_self (n.perform lang test) w) _ ?_
  intro value
  split <;> infer_instance

theorem NodeId.visits_invoke_ifThen (test : String) (yes : Value) (rest : List Value) :
    (n.invoke lang ⟨"ifThen", .text test :: yes :: rest⟩).Visits w (n.perform lang test) w := by
  refine Action.visits_argument rfl (Action.visits_argument rfl ?_)
  exact ((NodeId.visits_test test).bind _).bind _

theorem NodeId.visits_invoke_ifThenElse (test : String) (yes no : Value) (rest : List Value) :
    (n.invoke lang ⟨"ifThenElse", .text test :: yes :: no :: rest⟩).Visits w
      (n.perform lang test) w := by
  refine Action.visits_argument rfl (Action.visits_argument rfl (Action.visits_argument rfl ?_))
  exact ((NodeId.visits_test test).bind _).bind _

theorem NodeId.visits_invoke_whileDo {arguments : List Value} {test : String} {operations : Value}
    {limit : Nat} (text : (⟨"whileDo", arguments⟩ : Call).text 0 = .ok test)
    (value : (⟨"whileDo", arguments⟩ : Call).value 1 = .ok operations)
    (count : (⟨"whileDo", arguments⟩ : Call).count 2 = .ok limit) :
    (n.invoke lang ⟨"whileDo", arguments⟩).Visits w
      (n.whileDo lang test (w.stepsList operations) limit) w := by
  refine Action.visits_argument text (Action.visits_argument value
    (Action.visits_argument count ?_))
  refine Action.Visits.after _ (Action.inspect_apply _ w) ?_
  exact (Action.visits_self _ w).bind _

theorem NodeId.visits_invoke_whileDoAll {arguments : List Value} {test : String}
    {operations : Value} {limit : Nat}
    (text : (⟨"whileDoAll", arguments⟩ : Call).text 0 = .ok test)
    (value : (⟨"whileDoAll", arguments⟩ : Call).value 1 = .ok operations)
    (count : (⟨"whileDoAll", arguments⟩ : Call).count 2 = .ok limit) :
    (n.invoke lang ⟨"whileDoAll", arguments⟩).Visits w
      (n.whileDo lang test (w.allTexts operations) limit) w := by
  refine Action.visits_argument value ?_
  refine Action.Visits.after _ (Action.inspect_apply _ w) ?_
  refine Action.visits_argument text (Action.visits_argument count ?_)
  exact (Action.visits_self _ w).bind _

end Operations

/-! ## What an early return comes to -/

theorem World.lt_size_of_engined {w : World} {n : NodeId} (h : (w.cell n).engined = true) :
    n.index < w.cells.size := by
  refine Nat.lt_of_not_le fun hge => ?_
  rw [World.cell, Array.getD_eq_getD_getElem?, Array.getElem?_eq_none hge] at h
  cases h

/-- Scripts go on running on a node. -/
theorem World.Continues.evaluatesOn {w w' : World} (h : w.Continues w') {n : NodeId}
    (hn : w.evaluatesOn n = true) : w'.evaluatesOn n = true := by
  have hengined := hn
  rw [World.evaluatesOn, Bool.and_eq_true] at hengined
  rw [World.evaluatesOn, h.engine, h.engined n (World.lt_size_of_engined hengined.1)]
  exact hn

variable {v : Value} {r : World}

/-- Only a node with an engine evaluates. -/
theorem Raises.engined {fuel : Nat} {n : NodeId} {text : String} {w : World}
    {layers : List Layer} (h : Raises v r fuel (.template n text) w layers) :
    ((n.perform (.ofFuel fuel) text w).2.cell n).engined = true := by
  cases h with
  | template fuel n text w script w₁ layers expanded inner =>
      have hperform : (n.perform (.ofFuel fuel) text w).2 =
          (n.eval (.ofFuel fuel) script w₁).2 := by
        rw [NodeId.perform, Action.bind_apply, expanded]
      have hengined : (w₁.cell n).engined = true := by
        cases inner with
        | script fuel n script w₁ c w₂ before s after last w₃ e layers evaluates =>
            rw [World.evaluatesOn, Bool.and_eq_true] at evaluates
            exact evaluates.1
      rw [hperform, ((NodeId.orderly_eval _ n script).continues w₁).engined n
        (World.lt_size_of_engined hengined), hengined]

theorem Context.callBare_eq_invoke {lang : Language} {c : Context} {s : String}
    {values : List Value} (h : s ≠ "raise") :
    c.callBare lang ⟨s, values⟩ = c.this.invoke lang ⟨s, values⟩ := by
  rw [Context.callBare]
  dsimp only
  split
  · rfl
  · exact absurd rfl h
  · rfl

/-- An early return ends what it is raised in as its layers say: by induction on the way from the
task to the return. -/
theorem Raises.ends {fuel : Nat} {t : Task} {w : World} {layers : List Layer}
    (h : Raises v r fuel t w layers) :
    (t.run (.ofFuel fuel)).EndsBehind v r w t.layers layers := by
  induction h with
  | returned fuel n arguments value =>
      -- The return itself has no layers and stops at the world that it is raised in.
      refine ⟨?_, List.suffix_rfl, fun hnone => by cases hnone⟩
      intro d hd
      cases hd
      refine ⟨.returning v, .returning, ?_⟩
      show (Outcome.failed (.returning (⟨"return", arguments⟩ : Call).first), r) = _
      rw [value]
  | part fuel c e w e' w' layers part inner ih =>
      exact ih.of_visits (Expr.visits_part part)
  | called fuel c s arguments w values w₁ layers operation done inner ih =>
      refine ih.of_visits ?_
      show (Expr.eval _ _ _).Visits _ _ _
      rw [Expr.eval]
      refine Action.Visits.after values done ?_
      rw [Context.callBare_eq_invoke operation]
      exact (Action.visits_self _ _).holding
  | sent fuel c receiver s arguments w values w₁ n w₂ layers done found inner ih =>
      refine ih.of_visits ?_
      show (Expr.eval _ _ _).Visits _ _ _
      rw [Expr.eval_send]
      refine Action.Visits.after values done (Action.Visits.holding ?_)
      refine Action.Visits.after (Value.node n) found (Action.Visits.holding ?_)
      exact ((Action.visits_self _ _).map _).bind _
  | eval fuel n text rest w layers inner ih =>
      exact (ih.of_visits (NodeId.visits_invoke_eval text rest)).evaluation
  | getItem fuel n path rest w layers inner ih =>
      exact (ih.of_visits (NodeId.visits_invoke_getItem path rest)).evaluation
  | ifThen fuel n test yes rest w layers inner ih =>
      exact (ih.of_visits (NodeId.visits_invoke_ifThen test yes rest)).evaluation
  | ifThenElse fuel n test yes no rest w layers inner ih =>
      exact (ih.of_visits (NodeId.visits_invoke_ifThenElse test yes no rest)).evaluation
  | whileDo fuel n arguments test operations limit w item w₁ layers text value count reached inner
      ih =>
      have hloop := NodeId.endsBehind_whileDo reached inner.engined ih
      exact hloop.of_visits (NodeId.visits_invoke_whileDo text value count)
  | whileDoAll fuel n arguments test operations limit w item w₁ layers text value count reached
      inner ih =>
      have hloop := NodeId.endsBehind_whileDo reached inner.engined ih
      exact hloop.of_visits (NodeId.visits_invoke_whileDoAll text value count)
  | script fuel n text w c w₁ before s after last w₂ e layers evaluates context statements done
      parsed inner ih =>
      -- The script adds a layer to the failure of its statement.
      have hend : Action.EndsBehind v r ((Language.ofFuel (fuel + 1)).evaluate c s)
          (w₂.hold last.nodes) 0 layers := by
        rw [Language.evaluate_of_parse fuel c parsed]
        exact ih
      exact (hend.mapFailure s).of_visits (NodeId.visits_eval evaluates context statements done)
  | template fuel n text w script w₁ layers expanded inner ih =>
      exact ih.of_visits (NodeId.visits_perform expanded)

/-! ## Sequences -/

theorem World.trace_dropFrame (w : World) (f : NodeId) : (w.dropFrame f).trace = w.trace := rfl

namespace NodeId

/-- The indentation of the events of a sequence that starts in `w`. -/
def stepIndent (arguments : List (String × Value)) (w : World) : String :=
  indentation (w.pushFrame arguments).2.frames.length

/-- The world in which the statements of a sequence start that itself starts in `w`: its frame is
there, and its start is in the trace. -/
def opened (n : NodeId) (arguments : List (String × Value)) (w : World) : World :=
  (n.notify .stepsStart (startMessage (stepIndent arguments w) ((w.pushFrame arguments).2.path n))
    (w.pushFrame arguments).2).2

/-- The sequence that starts in `w` comes to the statement `s` in `w'`: the statements before it are
done, and it is announced. -/
def ComesTo (lang : Language) (n : NodeId) (text : String) (arguments : List (String × Value))
    (w : World) (s : String) (w' : World) : Prop :=
  ∃ before after last w₁, Script.statements text = before ++ s :: after ∧
    n.performAll lang (stepIndent arguments w) before .null (n.opened arguments w) =
      (.done last, w₁) ∧
    w' = (n.notify .stepStart (stepIndent arguments w ++ " -> " ++ s)
      (w₁.hold last.nodes)).2

theorem withFrame_apply {α : Type} (arguments : List (String × Value)) (a : Action α) (w : World) :
    Action.withFrame arguments a w =
      ((a (w.pushFrame arguments).2).1,
        (a (w.pushFrame arguments).2).2.dropFrame ⟨w.cells.size⟩) :=
  rfl

theorem steps_eq (lang : Language) (n : NodeId) (text : String)
    (arguments : List (String × Value)) (w : World) :
    n.steps lang text arguments w =
      (((Action.attempt (n.performAll lang (stepIndent arguments w) (Script.statements text) .null)
          >>= settleSteps) (n.opened arguments w)).1,
        ((Action.attempt (n.performAll lang (stepIndent arguments w) (Script.statements text) .null)
          >>= settleSteps) (n.opened arguments w)).2.dropFrame ⟨w.cells.size⟩) := by
  have hstart : n.notify .stepsStart (startMessage (stepIndent arguments w)
      ((w.pushFrame arguments).2.path n)) (w.pushFrame arguments).2 =
        (.done (), n.opened arguments w) := by
    rw [opened, notify, Action.change_apply]
  rw [steps, withFrame_apply, Action.inspect_bind_apply, Action.inspect_bind_apply,
    Action.bind_apply, ← stepIndent, hstart]

theorem continues_start (n : NodeId) (w : World) :
    w.Continues (n.notify .stepsStart
      (startMessage (indentation w.frames.length) (w.path n)) w).2 :=
  continues_notify n .stepsStart _ w rfl

theorem continues_opened (n : NodeId) (arguments : List (String × Value)) (w : World) :
    (n.opened arguments w).frames = ⟨w.cells.size⟩ :: w.frames ∧
      (n.opened arguments w).held = w.held ∧
      stepIndent arguments w = indentation (n.opened arguments w).frames.length := by
  obtain ⟨w₀, h₀, hpush⟩ := w.exists_pushFrame_eq arguments
  have hopened : (w.pushFrame arguments).2.Continues (n.opened arguments w) :=
    continues_start n _
  have hframes : (n.opened arguments w).frames = (w.pushFrame arguments).2.frames := hopened.frames
  have hheld : (n.opened arguments w).held = (w.pushFrame arguments).2.held := hopened.held
  refine ⟨?_, ?_, ?_⟩
  · rw [hframes, hpush, ← h₀.frames]
  · rw [hheld, hpush, ← h₀.held]
  · rw [hframes, stepIndent]

instance steady_notify (n : NodeId) (kind : TraceKind) (message : String) :
    (n.notify kind message).Steady := by
  refine ⟨?_, ?_⟩
  · intro w
    obtain ⟨w', ⟨events, rfl⟩, hnotify⟩ := notify_eq n kind message w
    rw [hnotify]
  · intro w
    obtain ⟨w', ⟨events, rfl⟩, hnotify⟩ := notify_eq n kind message w
    rw [hnotify]
    exact ⟨events, rfl⟩

section Steps

variable {lang : Language} [hl : lang.Orderly] {n : NodeId}

instance steady_performAll (indent : String) (steps : List String) (last : Value) :
    (n.performAll lang indent steps last).Steady := by
  induction steps generalizing last with
  | nil => exact Action.steady_of_orderly (pure last)
  | cons step rest ih =>
      rw [performAll]
      refine Action.Steady.bind (Action.Steady.holding ?_ last.nodes) ih
      exact Action.Steady.bind (steady_notify n _ _) fun _ => inferInstance

/-- A sequence comes to each of its statements after those before it are done. -/
theorem visits_performAll {indent s : String} {before after : List String} {first last : Value}
    {w w' : World} (h : n.performAll lang indent before first w = (.done last, w')) :
    (n.performAll lang indent (before ++ s :: after) first).Visits w (n.perform lang s)
      (n.notify .stepStart (indent ++ " -> " ++ s) (w'.hold last.nodes)).2 := by
  induction before generalizing first w with
  | nil =>
      cases h
      rw [List.nil_append, performAll]
      refine Action.Visits.bind (Action.Visits.holding ?_) _
      exact Action.Visits.after () rfl (Action.visits_self _ _)
  | cons statement rest ih =>
      rw [performAll] at h
      obtain ⟨value, w₁, hfirst, hrest⟩ := Action.bind_eq_done h
      rw [List.cons_append, performAll]
      have hsteady : (Action.holding first.nodes
          (n.notify .stepStart (indent ++ " -> " ++ statement) >>= fun _ =>
            n.perform lang statement)).Steady :=
        Action.Steady.holding (Action.Steady.bind (steady_notify n _ _) fun _ => inferInstance) _
      exact Action.Visits.after value hfirst (ih hrest)

theorem frames_of_performAll {indent : String} {steps : List String} {last : Value}
    {w w' : World} {cause : Failure} (hindent : indent = indentation w.frames.length)
    (h : n.performAll lang indent steps last w = (.failed cause, w')) : w'.frames = w.frames := by
  have hcontinues := continues_performAll lang n steps last w
  rw [← hindent, h] at hcontinues
  exact hcontinues.frames

/-- What a sequence does with the end of its statements keeps the world. -/
theorem snd_settle (a : Action Value) (w : World) :
    ((Action.attempt a >>= settleSteps) w).2 = (a w).2 := by
  rw [Action.bind_apply, Action.attempt]
  rcases a w with ⟨value | cause | _, w'⟩
  · rfl
  · simp only [settleSteps]
    cases cause.returned? <;> rfl
  · rfl

theorem settle_of_failed {a : Action Value} {w w' : World} {cause : Failure}
    (h : a w = (.failed cause, w')) :
    (Action.attempt a >>= settleSteps) w = settleSteps (.error cause) w' := by
  rw [Action.bind_apply, Action.attempt, h]

end Steps

section Returning

variable {v : Value} {r : World} {fuel : Nat} {n : NodeId} {text s : String}
  {arguments : List (String × Value)} {w w' : World} {layers : List Layer}

/-- The statements of a sequence end as the layers of a return in one of them say. -/
theorem endsBehind_performAll (hcomes : n.ComesTo (.ofFuel fuel) text arguments w s w')
    (hraises : Raises v r fuel (.template n s) w' layers) :
    (n.performAll (.ofFuel fuel) (stepIndent arguments w) (Script.statements text)
      .null).EndsBehind v r (n.opened arguments w) 1 layers := by
  obtain ⟨before, after, last, w₁, hstatements, hbefore, rfl⟩ := hcomes
  rw [hstatements]
  exact hraises.ends.of_visits (visits_performAll hbefore)

/-- A sequence in which an early return is raised ends at once with its value just when all layers
between the return and the statement are those of loops. -/
theorem steps_eq_returned_iff (hcomes : n.ComesTo (.ofFuel fuel) text arguments w s w')
    (hraises : Raises v r fuel (.template n s) w' layers) :
    n.steps (.ofFuel fuel) text arguments w =
        (.done v, { r with frames := w.frames, held := w.held }) ↔
      ∀ layer ∈ layers, layer = .loop := by
  have hends := endsBehind_performAll hcomes hraises
  obtain ⟨hframes, hheld, hindent⟩ := continues_opened n arguments w
  rw [← Layer.carried_eq_zero_iff, steps_eq]
  constructor
  · intro hsteps
    obtain ⟨hdone, hworld⟩ := Prod.mk.inj hsteps
    cases hcarried : Layer.carried layers with
    | none =>
        -- A loop has gone on after the return, so the trace has grown past it.
        have hmissed := hends.missed hcarried
        have htrace := congrArg World.trace hworld
        rw [snd_settle, World.trace_dropFrame] at htrace
        rw [htrace] at hmissed
        exact absurd hmissed (Nat.lt_irrefl _)
    | some d =>
        cases d with
        | zero => rfl
        | succ d =>
            -- The sequence looks through one layer, and the statement has put on more.
            obtain ⟨cause, hcarries, hfails⟩ := hends.raised (d + 1) hcarried
            rw [settle_of_failed hfails, settleSteps] at hdone
            simp only [hcarries.returned?_eq_none] at hdone
            cases hdone
  · intro hcarried
    obtain ⟨cause, hcarries, hfails⟩ := hends.raised 0 hcarried
    have hrframes : r.frames = ⟨w.cells.size⟩ :: w.frames :=
      (frames_of_performAll hindent hfails).trans hframes
    rw [settle_of_failed hfails, settleSteps]
    simp only [hcarries.returned?]
    rw [Action.pure_apply, World.dropFrame]
    simp only [hrframes, hheld, Scope.below_cons_self]

end Returning

/-- The steps under a key are a sequence like any other. -/
theorem call_eq_steps {lang : Language} {n : NodeId} {key : String} {value : Value}
    {arguments : List (String × Value)} {w : World} (hvalue : w.getRaw n key = some value)
    (hsteps : value.isNull = false) :
    n.call lang key arguments w = n.steps lang (w.stepsText value) arguments w := by
  rw [call, Action.inspect_bind_apply, hvalue]
  simp only [Option.filter, hsteps, Bool.not_false, if_true]
  rw [Action.inspect_bind_apply]

/-- The key of the steps that a run takes. -/
def runsKey (n : NodeId) (w : World) : String :=
  if w.containsKey n runKey || !w.containsKey n stepsKey then runKey else stepsKey

theorem run_eq_call (lang : Language) (n : NodeId) (w : World) :
    n.run lang w = n.call lang (n.runsKey w) [] w := by
  rw [run, Action.inspect_bind_apply, runsKey]
  by_cases h : (w.containsKey n runKey || !w.containsKey n stepsKey) = true
  · rw [if_pos h, if_pos h]
  · rw [if_neg h, if_neg h]

end NodeId

/-- An early return that is raised in a statement of a sequence, in the world `r`, ends the sequence
at once with its value just when every script between the return and the statement is evaluated by
a loop. It does not when one of them is the text of a call that evaluates or the test of a
branch. -/
theorem sequence_returns_iff (fuel : Nat) (n : NodeId) (text : String)
    (arguments : List (String × Value)) (w : World) (s : String) (w' : World) (v : Value)
    (r : World) (layers : List Layer)
    (hcomes : n.ComesTo (.ofFuel fuel) text arguments w s w')
    (hraises : Raises v r fuel (.template n s) w' layers) :
    (n.steps (.ofFuel fuel) text arguments w =
        (.done v, { r with frames := w.frames, held := w.held }) ↔
      ∀ layer ∈ layers, layer = .loop) ∧
    (∀ key value, w.getRaw n key = some value → value.isNull = false →
      w.stepsText value = text →
      (n.call (.ofFuel fuel) key arguments w =
          (.done v, { r with frames := w.frames, held := w.held }) ↔
        ∀ layer ∈ layers, layer = .loop)) ∧
    (∀ value, w.getRaw n (n.runsKey w) = some value → value.isNull = false →
      w.stepsText value = text → arguments = [] →
      (n.run (.ofFuel fuel) w =
          (.done v, { r with frames := w.frames, held := w.held }) ↔
        ∀ layer ∈ layers, layer = .loop)) := by
  have hsteps := NodeId.steps_eq_returned_iff hcomes hraises
  refine ⟨hsteps, ?_, ?_⟩
  · intro key value hvalue hnull htext
    rw [NodeId.call_eq_steps hvalue hnull, htext]
    exact hsteps
  · intro value hvalue hnull htext harguments
    rw [NodeId.run_eq_call, NodeId.call_eq_steps hvalue hnull, htext, ← harguments]
    exact hsteps

/-- A world with one node besides the static one, with the engine, and without files. -/
def World.single (engine : Engine) : World :=
  ((World.initial engine ⟨default, []⟩).create true).2

theorem Context.exists_create_eq (n : NodeId) (w : World) :
    ∃ c w₁, Context.create n w = (.done c, w₁) ∧ c.this = n :=
  ⟨_, _, rfl, rfl⟩

/-- A script that is a bare return of a literal raises it. -/
theorem Raises.of_literal (fuel : Nat) {n : NodeId} {text : String} {w : World}
    {literal : Expr.Literal} (parsed : Expr.parse text = .ok (.call "return" [.literal literal]))
    (statements : Script.statements text = [text]) (evaluates : w.evaluatesOn n = true) :
    ∃ r, Raises (Value.ofLiteral literal) r (fuel + 1) (.script n text) w [] := by
  obtain ⟨c, w₁, hcontext, -⟩ := Context.exists_create_eq n w
  have harguments : ∀ w₂ : World, Expr.evalAll (.ofFuel fuel) c [.literal literal] w₂ =
      (.done [Value.ofLiteral literal], w₂) := by
    intro w₂
    rw [Expr.evalAll, Expr.evalAll, Expr.eval]
    rfl
  refine ⟨((w₁.hold c.nodes).hold Value.null.nodes).hold
    (Value.allNodes [Value.ofLiteral literal]), ?_⟩
  refine .script fuel n text w c w₁ [] text [] .null (w₁.hold c.nodes) _ [] evaluates hcontext
    statements rfl parsed ?_
  exact .called fuel c "return" _ _ _ _ [] (by decide) (harguments _)
    (.returned fuel c.this _ rfl)

/-- A text without templates on it is a script as it stands. -/
theorem Raises.of_plain {v : Value} {r : World} {fuel : Nat} {n : NodeId} {text : String}
    {w : World} {layers : List Layer} (plain : w.expandsOn n = false)
    (h : Raises v r fuel (.script n text) w layers) :
    Raises v r fuel (.template n text) w layers := by
  have hexpand : n.expand (.ofFuel fuel) text w = (.done text, w) := by
    rw [NodeId.expand, Action.inspect_bind_apply, plain]
    rfl
  exact .template fuel n text w text w layers hexpand h

/-- A script that evaluates a text raises what the text raises, behind one layer more. -/
theorem Raises.of_eval {v : Value} {fuel : Nat} {n : NodeId} {text inner : String} {w : World}
    {layers : List Layer} (parsed : Expr.parse text = .ok (.call "eval" [.literal (.text inner)]))
    (statements : Script.statements text = [text]) (evaluates : w.evaluatesOn n = true)
    (hinner : ∀ w' : World, w'.evaluatesOn n = true →
      ∃ r, Raises v r fuel (.script n inner) w' layers) :
    ∃ r, Raises v r (fuel + 1) (.script n text) w (.evaluation :: layers) := by
  obtain ⟨c, w₁, hcontext, hthis⟩ := Context.exists_create_eq n w
  have hcontinues : w.Continues w₁ := by
    have hcreate := (Context.orderly_create n).continues w
    rw [hcontext] at hcreate
    exact hcreate
  have hstill : w₁.evaluatesOn n = true := hcontinues.evaluatesOn evaluates
  have harguments : ∀ w₂ : World, Expr.evalAll (.ofFuel fuel) c [.literal (.text inner)] w₂ =
      (.done [Value.text inner], w₂) := by
    intro w₂
    rw [Expr.evalAll, Expr.evalAll, Expr.eval]
    rfl
  obtain ⟨r, hraises⟩ := hinner (((w₁.hold c.nodes).hold Value.null.nodes).hold
    (Value.allNodes [Value.text inner])) hstill
  refine ⟨r, .script fuel n text w c w₁ [] text [] .null (w₁.hold c.nodes) _ _ evaluates hcontext
    statements rfl parsed ?_⟩
  refine .called fuel c "eval" _ _ _ _ _ (by decide) (harguments _) ?_
  rw [hthis]
  exact .eval fuel n inner [] _ layers hraises

/-- A sequence comes to its first statement, on a node that evaluates as before. -/
theorem NodeId.exists_comesTo (lang : Language) {n : NodeId} {text s : String}
    {after : List String} (arguments : List (String × Value)) {w : World}
    (statements : Script.statements text = s :: after) (evaluates : w.evaluatesOn n = true) :
    ∃ w', n.ComesTo lang text arguments w s w' ∧ w'.evaluatesOn n = true ∧
      w'.expandsOn n = w.expandsOn n := by
  obtain ⟨w₀, h₀, hpush⟩ := w.exists_pushFrame_eq arguments
  obtain ⟨x, ⟨first, hx⟩, hstart⟩ := notify_eq n .stepsStart
    (startMessage (stepIndent arguments w) ((w.pushFrame arguments).2.path n))
    (w.pushFrame arguments).2
  obtain ⟨w', ⟨second, hw'⟩, hstep⟩ := notify_eq n .stepStart
    (stepIndent arguments w ++ " -> " ++ s) (x.hold Value.null.nodes)
  have hopened : n.opened arguments w = x := by
    rw [opened, hstart]
  have hcell : w'.cell n = w₀.cell n := by
    rw [hw', hx, hpush]
    rfl
  have hengine : w'.engine = w.engine := by
    rw [hw', hx, hpush]
    exact h₀.engine
  have hengined : (w'.cell n).engined = (w.cell n).engined := by
    rw [World.evaluatesOn, Bool.and_eq_true] at evaluates
    rw [hcell, h₀.engined n (World.lt_size_of_engined evaluates.1)]
  refine ⟨w', ⟨[], after, .null, x, statements, ?_, ?_⟩, ?_, ?_⟩
  · rw [hopened, performAll]
    rfl
  · rw [hstep]
  · rw [World.evaluatesOn, hengined, hengine]
    exact evaluates
  · rw [World.expandsOn, hengined, hengine, World.expandsOn]

theorem Expr.parse_bare_return :
    Expr.parse "return(5)" = .ok (.call "return" [.literal (.number (.ofNat 5))]) := by
  cbv

/-- A bare return ends its sequence. -/
theorem bare_return_ends_sequence :
    ∃ w' r, NodeId.ComesTo (.ofFuel 1) ⟨1⟩ "return(5); 6" [] (.single ⟨false, true, 0⟩)
        "return(5)" w' ∧
      Raises (.ofNat 5) r 1 (.template ⟨1⟩ "return(5)") w' [] ∧
      (NodeId.steps (.ofFuel 1) ⟨1⟩ "return(5); 6" [] (.single ⟨false, true, 0⟩)).1 =
        .done (.ofNat 5) := by
  have hstatements : Script.statements "return(5); 6" = ["return(5)", "6"] := by decide +kernel
  obtain ⟨w', hcomes, hevaluates, hplain⟩ := NodeId.exists_comesTo (.ofFuel 1)
    (w := .single ⟨false, true, 0⟩) (n := ⟨1⟩) [] hstatements rfl
  obtain ⟨r, hraises⟩ := Raises.of_literal 0 Expr.parse_bare_return (by decide +kernel) hevaluates
  have hraises := hraises.of_plain hplain
  refine ⟨w', r, hcomes, hraises, ?_⟩
  rw [(sequence_returns_iff 1 ⟨1⟩ _ _ _ _ _ _ _ _ hcomes hraises).1.mpr (by simp)]
  rfl

/-- A return in a text that a call evaluates ends its sequence with a failure. -/
theorem evaluated_return_fails_sequence :
    ∃ w' r, NodeId.ComesTo (.ofFuel 2) ⟨1⟩ "eval('return(5)'); 6" [] (.single ⟨false, true, 0⟩)
        "eval('return(5)')" w' ∧
      Raises (.ofNat 5) r 2 (.template ⟨1⟩ "eval('return(5)')") w' [.evaluation] ∧
      (NodeId.steps (.ofFuel 2) ⟨1⟩ "eval('return(5)'); 6" [] (.single ⟨false, true, 0⟩)).1 =
        .failed (.evaluation "return(5)" (.returning (.ofNat 5))) := by
  have houter : Expr.parse "eval('return(5)')" =
      .ok (.call "eval" [.literal (.text "return(5)")]) := by
    cbv
  have hstatements : Script.statements "eval('return(5)'); 6" = ["eval('return(5)')", "6"] := by
    decide +kernel
  obtain ⟨w', hcomes, hevaluates, hplain⟩ := NodeId.exists_comesTo (.ofFuel 2)
    (w := .single ⟨false, true, 0⟩) (n := ⟨1⟩) [] hstatements rfl
  have hreturn : ∀ w : World, w.evaluatesOn ⟨1⟩ = true →
      ∃ r, Raises (.ofNat 5) r 1 (.script ⟨1⟩ "return(5)") w [] :=
    fun w hevaluates => Raises.of_literal 0 Expr.parse_bare_return (by decide +kernel) hevaluates
  obtain ⟨r, hraises⟩ := Raises.of_eval houter (by decide +kernel) hevaluates hreturn
  exact ⟨w', r, hcomes, hraises.of_plain hplain, by cbv⟩

end ScriptTree
