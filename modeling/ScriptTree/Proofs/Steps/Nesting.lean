import ScriptTree.Proofs.Steps.Handler
import ScriptTree.Proofs.Template.Placeholders

/-!
# Failures of nested sequences

A statement of a sequence may run another sequence: it calls an operation (`Context.Invokes`) that
goes on as one (`NodeId.Enters`). Each sequence on the way puts a layer around a failure and takes
one off again. What it puts on it can take off only when what is inside is a failure of evaluation,
and after the innermost sequence that is always so. So a failure comes out of any number of
sequences as it comes out of the innermost one (`Nested.fails`).
-/

set_option autoImplicit false

namespace ScriptTree

/-! ## Layers -/

/-- What a sequence makes of a failure of one of its statements. -/
theorem Failure.collapse_evaluation_of_ne {b : Failure} (s : String)
    (h : b.category ≠ .evaluation) : (evaluation s b).collapse = .evaluation s b := by
  rw [collapse, if_neg h]

theorem Failure.collapse_evaluation_of_eq {b : Failure} (s : String)
    (h : b.category = .evaluation) : (evaluation s b).collapse = b := by
  rw [collapse, if_pos h]

/-- The layer of a statement is a failure of evaluation, also when it is taken off. -/
theorem Failure.category_collapse_evaluation (s : String) (b : Failure) :
    (evaluation s b).collapse.category = .evaluation := by
  by_cases h : b.category = .evaluation
  · rw [collapse_evaluation_of_eq s h, h]
  · rw [collapse_evaluation_of_ne s h, category]

/-- Only the signal of an early return is looked for behind a layer. -/
theorem Failure.returned?_evaluation {b : Failure} (s : String)
    (h : ∀ value, b ≠ .returning value) : (evaluation s b).returned? = none := by
  cases b with
  | returning value => exact absurd rfl (h value)
  | _ => rfl

theorem Action.Visits.trans {α β γ : Type} {a : Action α} {b : Action β} {c : Action γ}
    {w w₁ w₂ : World} (hab : a.Visits w b w₁) (hbc : b.Visits w₁ c w₂) : a.Visits w c w₂ where
  fails := by
    intro cause x hx
    have hb := hbc.fails cause x hx
    have ha := hab.fails cause _ hb
    exact ha
  events := hbc.events.trans hab.events

/-! ## From a statement to the sequence inside it -/

/-- A step that is carried out in `w` comes to the statement `s` of what it expands to, in the
context `c` and in `v`. -/
def NodeId.Evaluates (lang : Language) (n : NodeId) (step : String) (w : World) (c : Context)
    (s : String) (v : World) : Prop :=
  ∃ script w₁ w₂ before after last w₃, n.expand lang step w = (.done script, w₁) ∧
    w₁.evaluatesOn n = true ∧ Context.create n w₁ = (.done c, w₂) ∧
    Script.statements script = before ++ s :: after ∧
    lang.evaluateAll c before .null (w₂.hold c.nodes) = (.done last, w₃) ∧
    v = w₃.hold last.nodes

/-- Evaluating the statement `s`, which is just a call, comes to the operation of a node in `v`. -/
inductive Context.Invokes (lang : Language) (c : Context) (s : String) (w : World) :
    NodeId → Call → World → Prop
  | bare {operation : String} {arguments : List Expr} {values : List Value} {w₁ : World}
      (parsed : Expr.parse s = .ok (.call operation arguments)) (operates : operation ≠ "raise")
      (done : Expr.evalAll lang c arguments w = (.done values, w₁)) :
      Invokes lang c s w c.this ⟨operation, values⟩ (w₁.hold (Value.allNodes values))
  | sent {receiver : Expr} {operation : String} {arguments : List Expr} {values : List Value}
      {m : NodeId} {w₁ w₂ : World}
      (parsed : Expr.parse s = .ok (.send receiver operation arguments))
      (done : Expr.evalAll lang c arguments w = (.done values, w₁))
      (found : receiver.eval lang c (w₁.hold (Value.allNodes values)) = (.done (.node m), w₂)) :
      Invokes lang c s w m ⟨operation, values⟩ (w₂.hold [m])

/-- An operation that is called in `w` goes on as a sequence with the given text and arguments. -/
inductive NodeId.Enters (lang : Language) (m : NodeId) (w : World) :
    Call → String → List (String × Value) → World → Prop
  | steps {arguments : List Value} {text : String}
      (script : (⟨"steps", arguments⟩ : Call).text 0 = .ok text) :
      Enters lang m w ⟨"steps", arguments⟩ text ((⟨"steps", arguments⟩ : Call).entries w 1) w
  | call {arguments : List Value} {key : String} {value : Value}
      (name : (⟨"call", arguments⟩ : Call).text 0 = .ok key)
      (stored : w.getRaw m key = some value) (present : value.isNull = false) :
      Enters lang m w ⟨"call", arguments⟩ (w.stepsText value)
        ((⟨"call", arguments⟩ : Call).entries w 1) w
  | run {arguments : List Value} {value : Value}
      (stored : w.getRaw m (m.runsKey w) = some value) (present : value.isNull = false) :
      Enters lang m w ⟨"run", arguments⟩ (w.stepsText value) [] w
  | ifThen {arguments : List Value} {test : String} {yes : Value} {w₁ : World}
      (first : (⟨"ifThen", arguments⟩ : Call).text 0 = .ok test)
      (second : (⟨"ifThen", arguments⟩ : Call).value 1 = .ok yes)
      (holds : m.test lang test w = (.done true, w₁)) :
      Enters lang m w ⟨"ifThen", arguments⟩ (w₁.stepsText yes) [] w₁
  | ifThenElse {arguments : List Value} {test : String} {yes no : Value} {holds : Bool}
      {w₁ : World} (first : (⟨"ifThenElse", arguments⟩ : Call).text 0 = .ok test)
      (second : (⟨"ifThenElse", arguments⟩ : Call).value 1 = .ok yes)
      (third : (⟨"ifThenElse", arguments⟩ : Call).value 2 = .ok no)
      (tested : m.test lang test w = (.done holds, w₁)) :
      Enters lang m w ⟨"ifThenElse", arguments⟩ (w₁.stepsText (if holds then yes else no)) [] w₁
  | handler {arguments : List Value} {operations handler : Value} {cause : Failure} {w₁ : World}
      (first : (⟨"tryExcept", arguments⟩ : Call).value 0 = .ok operations)
      (second : (⟨"tryExcept", arguments⟩ : Call).value 1 = .ok handler)
      (failed : m.stepsOf lang operations w = (.failed cause, w₁)) :
      Enters lang m w ⟨"tryExcept", arguments⟩ ((m.handing cause w₁).stepsText handler)
        (handlerArguments cause) (m.handing cause w₁)

/-- The sequence that starts in `w` comes, through a number of sequences inside it, to a statement
`s` that fails with `b`. -/
inductive Nested (s : String) (b : Failure) (fuel : Nat) :
    Nat → NodeId → String → List (String × Value) → World → Prop
  | innermost {n : NodeId} {text step : String} {arguments : List (String × Value)} {c : Context}
      {w v v' x : World} (comes : n.ComesTo (.ofFuel fuel) text arguments w step v)
      (evaluates : n.Evaluates (.ofFuel fuel) step v c s v')
      (fails : (Language.ofFuel fuel).evaluate c s v' = (.failed b, x)) :
      Nested s b fuel 0 n text arguments w
  | level {depth : Nat} {n m : NodeId} {text step q text' : String}
      {arguments arguments' : List (String × Value)} {c : Context} {call : Call}
      {w v v' v'' w' : World}
      (comes : n.ComesTo (.ofFuel (fuel + depth + 1)) text arguments w step v)
      (evaluates : n.Evaluates (.ofFuel (fuel + depth + 1)) step v c q v')
      (invokes : c.Invokes (.ofFuel (fuel + depth)) q v' m call v'')
      (enters : m.Enters (.ofFuel (fuel + depth)) v'' call text' arguments' w')
      (inner : Nested s b fuel depth m text' arguments' w') :
      Nested s b fuel (depth + 1) n text arguments w

section Levels

variable {lang : Language} [hl : lang.Orderly] {n m : NodeId} {c : Context} {call : Call}
  {s step text text' : String} {arguments arguments' : List (String × Value)}
  {cause : Failure} {w v v' x : World}

/-- The step puts a layer around the failure of its statement. -/
theorem NodeId.Evaluates.visits (h : n.Evaluates lang step w c s v) :
    (n.perform lang step).Visits w (Action.mapFailure (.evaluation s) (lang.evaluate c s)) v := by
  obtain ⟨script, w₁, w₂, before, after, last, w₃, expanded, evaluates, context, statements, done,
    rfl⟩ := h
  exact (visits_perform expanded).trans (visits_eval evaluates context statements done)

theorem NodeId.Evaluates.fails (h : n.Evaluates lang step w c s v)
    (hs : lang.evaluate c s v = (.failed cause, x)) :
    n.perform lang step w = (.failed (.evaluation s cause), { x with held := w.held }) := by
  have hlayer : Action.mapFailure (.evaluation s) (lang.evaluate c s) v =
      (.failed (.evaluation s cause), x) := by
    rw [Action.mapFailure, hs]
  exact h.visits.fails _ x hlayer

/-- A sequence takes the layer of its statement off again, when the failure has one itself. -/
theorem NodeId.steps_fails (comes : n.ComesTo lang text arguments w step v)
    (evaluates : n.Evaluates lang step v c s v')
    (hs : lang.evaluate c s v' = (.failed cause, x)) (hcause : ∀ value, cause ≠ .returning value) :
    ∃ y, n.steps lang text arguments w = (.failed (Failure.evaluation s cause).collapse, y) := by
  have hplain := cause.returned?_evaluation s hcause
  exact ⟨_, steps_eq_iff.mpr (.failed comes (evaluates.fails hs) hplain)⟩

/-- A statement that is just a call fails when the operation does. -/
theorem Context.Invokes.fails {fuel : Nat} (h : c.Invokes (.ofFuel fuel) s w m call v)
    (hcall : m.invoke (.ofFuel fuel) call v = (.failed cause, x)) :
    (Language.ofFuel (fuel + 1)).evaluate c s w = (.failed cause, { x with held := w.held }) := by
  cases h with
  | @bare operation arguments values w₁ parsed operates done =>
      have hvisits : (Expr.eval (.ofFuel fuel) c (.call operation arguments)).Visits w
          (c.this.invoke (.ofFuel fuel) ⟨operation, values⟩) (w₁.hold (Value.allNodes values)) := by
        rw [Expr.eval]
        refine Action.Visits.after values done ?_
        rw [Context.callBare_eq_invoke operates]
        exact (Action.visits_self _ _).holding
      rw [Language.evaluate_of_parse fuel c parsed]
      exact hvisits.fails cause x hcall
  | @sent receiver operation arguments values m w₁ w₂ parsed done found =>
      have hvisits : (Expr.eval (.ofFuel fuel) c (.send receiver operation arguments)).Visits w
          (m.invoke (.ofFuel fuel) ⟨operation, values⟩) (w₂.hold [m]) := by
        rw [Expr.eval_send]
        refine Action.Visits.after values done (Action.Visits.holding ?_)
        refine Action.Visits.after (Value.node m) found (Action.Visits.holding ?_)
        exact ((Action.visits_self _ _).map _).bind _
      rw [Language.evaluate_of_parse fuel c parsed]
      exact hvisits.fails cause x hcall

theorem Action.visits_of_eq {α : Type} {a b : Action α} [hb : b.Steady] (h : a w = b w) :
    a.Visits w b w where
  fails := by
    intro cause x hx
    rw [h]
    exact (Action.visits_self b w).fails cause x hx
  events := by
    rw [h]

theorem NodeId.visits_call {key : String} {value : Value} (stored : w.getRaw m key = some value)
    (present : value.isNull = false) :
    (m.call lang key arguments).Visits w (m.steps lang (w.stepsText value) arguments) w :=
  Action.visits_of_eq (call_eq_steps stored present)

theorem NodeId.visits_stepsOf (value : Value) (w : World) :
    (m.stepsOf lang value).Visits w (m.steps lang (w.stepsText value) []) w :=
  Action.visits_of_eq (stepsOf_apply value w)

/-- A handler comes to its sequence when it has told of the failure. -/
theorem NodeId.visits_handler {operations handler : Value} {w₁ : World}
    (failed : m.stepsOf lang operations w = (.failed cause, w₁)) :
    (m.tryExcept lang operations handler).Visits w
      (m.steps lang ((m.handing cause w₁).stepsText handler) (handlerArguments cause))
      (m.handing cause w₁) := by
  have hattempt : Action.attempt (m.stepsOf lang operations) w = (.done (.error cause), w₁) := by
    rw [Action.attempt, failed]
  rw [tryExcept]
  refine Action.Visits.after _ hattempt ?_
  refine Action.Visits.after _ (Action.inspect_apply _ w₁) ?_
  refine Action.Visits.after _ (m.notify_handling cause w₁) ?_
  refine Action.Visits.after _ (Action.inspect_apply _ _) ?_
  exact (Action.visits_self _ _).bind _

/-- An operation fails as the sequence does that it goes on as. -/
theorem NodeId.Enters.fails (h : m.Enters lang w call text' arguments' v)
    (hsteps : m.steps lang text' arguments' v = (.failed cause, x)) :
    ∃ y, m.invoke lang call w = (.failed cause, y) := by
  have hvisits : (m.invoke lang call).Visits w (m.steps lang text' arguments') v := by
    cases h with
    | steps script =>
        refine Action.visits_argument script ?_
        exact Action.Visits.after _ (Action.inspect_apply _ w) (Action.visits_self _ w)
    | call name stored present =>
        refine Action.visits_argument name ?_
        refine Action.Visits.after _ (Action.inspect_apply _ w) ?_
        exact visits_call stored present
    | run stored present =>
        have hrun : (m.run lang).Visits w (m.call lang (m.runsKey w) []) w :=
          Action.visits_of_eq (m.run_eq_call lang w)
        exact hrun.trans (visits_call stored present)
    | ifThen first second holds =>
        refine Action.visits_argument first (Action.visits_argument second ?_)
        refine Action.Visits.bind ?_ _
        refine Action.Visits.after true holds ?_
        exact (visits_stepsOf _ _).bind _
    | ifThenElse first second third tested =>
        refine Action.visits_argument first (Action.visits_argument second
          (Action.visits_argument third ?_))
        refine Action.Visits.bind ?_ _
        refine Action.Visits.after _ tested ?_
        exact (visits_stepsOf _ _).bind _
    | handler first second failed =>
        refine Action.visits_argument first (Action.visits_argument second ?_)
        exact (visits_handler failed).bind _
  exact ⟨_, hvisits.fails cause x hsteps⟩

end Levels

/-- A failure comes out of the outermost sequence as it comes out of the innermost one: by
induction on the sequences between them, each of which adds a layer and takes it off. -/
theorem Nested.fails {s text : String} {b : Failure} {fuel depth : Nat} {n : NodeId}
    {arguments : List (String × Value)} {w : World}
    (h : Nested s b fuel depth n text arguments w) (hb : ∀ value, b ≠ .returning value) :
    ∃ x, n.steps (.ofFuel (fuel + depth)) text arguments w =
      (.failed (Failure.evaluation s b).collapse, x) := by
  induction h with
  | innermost comes evaluates fails => exact NodeId.steps_fails comes evaluates fails hb
  | level comes evaluates invokes enters inner ih =>
      have hcategory := Failure.category_collapse_evaluation s b
      have hplain : ∀ value, (Failure.evaluation s b).collapse ≠ .returning value := by
        intro value heq
        rw [heq] at hcategory
        cases hcategory
      obtain ⟨x, hinner⟩ := ih
      obtain ⟨y, hcall⟩ := enters.fails hinner
      obtain ⟨z, hsteps⟩ := NodeId.steps_fails comes evaluates (invokes.fails hcall) hplain
      rw [Failure.collapse_evaluation_of_eq _ hcategory] at hsteps
      exact ⟨z, hsteps⟩

/-- A statement that fails in the innermost of nested sequences is what the outermost one reports,
with the failure, however many sequences there are. The fault of a script is reported as it is. -/
theorem nested_failures (s : String) (b : Failure) (fuel depth : Nat) (n : NodeId) (text : String)
    (arguments : List (String × Value)) (w : World)
    (h : Nested s b fuel depth n text arguments w) (hb : ∀ value, b ≠ .returning value) :
    (∀ fault, b = .script fault →
      (n.steps (.ofFuel (fuel + depth)) text arguments w).1 = .failed b) ∧
    (b.category ≠ .evaluation →
      (n.steps (.ofFuel (fuel + depth)) text arguments w).1 = .failed (.evaluation s b)) := by
  obtain ⟨x, hsteps⟩ := h.fails hb
  rw [hsteps]
  constructor
  · rintro fault rfl
    rw [Failure.collapse_evaluation_of_eq s rfl]
  · intro hcategory
    rw [Failure.collapse_evaluation_of_ne s hcategory]

/-! ## A chain of sequences -/

/-- Templates go on being expanded on a node with an engine. -/
theorem World.Continues.expandsOn {w w' : World} (h : w.Continues w') {n : NodeId}
    (hn : (w.cell n).engined = true) : w'.expandsOn n = w.expandsOn n := by
  rw [World.expandsOn, World.expandsOn, h.engine, h.engined n (World.lt_size_of_engined hn)]

/-- A step that expands to one statement comes to it at once. -/
theorem NodeId.Evaluates.of_expand {lang : Language} {n : NodeId} {step script s : String}
    {w w₁ : World} (expanded : n.expand lang step w = (.done script, w₁))
    (statements : Script.statements script = [s]) (evaluates : w₁.evaluatesOn n = true) :
    ∃ c v, n.Evaluates lang step w c s v ∧ c.this = n ∧ v.evaluatesOn n = true ∧
      v.expandsOn n = w₁.expandsOn n := by
  obtain ⟨c, w₂, hcontext, hthis⟩ := Context.exists_create_eq n w₁
  have hcontinues : w₁.Continues w₂ := by
    have hcreate := (Context.orderly_create n).continues w₁
    rw [hcontext] at hcreate
    exact hcreate
  have hengined := evaluates
  rw [World.evaluatesOn, Bool.and_eq_true] at hengined
  refine ⟨c, _, ⟨script, w₁, w₂, [], [], .null, _, expanded, evaluates, hcontext, statements, rfl,
    rfl⟩, hthis, ?_, ?_⟩
  · exact hcontinues.evaluatesOn evaluates
  · exact hcontinues.expandsOn hengined.1

theorem NodeId.expand_of_not_expandsOn (lang : Language) {n : NodeId} {w : World}
    (h : w.expandsOn n = false) (text : String) : n.expand lang text w = (.done text, w) := by
  rw [expand, Action.inspect_bind_apply, h]
  rfl

theorem Action.argument_bind_error {α β : Type} {argument : Except Failure α} {cause : Failure}
    (next : α → Action β) (h : argument = .error cause) (w : World) :
    ((liftM argument : Action α) >>= next) w = (.failed cause, w) := by
  rw [h]
  rfl

/-- A call that needs a text and is given a number. -/
theorem evaluate_getItem (fuel : Nat) (c : Context) (w : World) :
    ∃ x, (Language.ofFuel (fuel + 1)).evaluate c "getItem(1)" w =
      (.failed (.typeMismatch "getItem[0]" "string" "number"), x) := by
  have hparsed : Expr.parse "getItem(1)" = .ok (.call "getItem" [.literal (.number (.ofNat 1))]) := by
    cbv
  have hargument : (⟨"getItem", [.ofNat 1]⟩ : Call).text 0 =
      .error (.typeMismatch "getItem[0]" "string" "number") := by
    rfl
  have hinvoke : ∀ v, c.this.invoke (.ofFuel fuel) ⟨"getItem", [.ofNat 1]⟩ v =
      (.failed (.typeMismatch "getItem[0]" "string" "number"), v) :=
    fun v => Action.argument_bind_error _ hargument v
  have hinvokes : c.Invokes (.ofFuel fuel) "getItem(1)" w c.this ⟨"getItem", [.ofNat 1]⟩
      (w.hold (Value.allNodes [.ofNat 1])) := by
    refine .bare hparsed (by decide) ?_
    rw [Expr.evalAll, Expr.evalAll, Expr.eval]
    rfl
  exact ⟨_, hinvokes.fails (hinvoke _)⟩

/-- A call that fails behind one sequence as it does in its own. -/
theorem nested_failures_once :
    Nested "getItem(1)" (.typeMismatch "getItem[0]" "string" "number") 1 1 ⟨1⟩
        "steps('getItem(1)')" [] (.single ⟨false, true, 0⟩) ∧
      (NodeId.steps (.ofFuel 2) ⟨1⟩ "steps('getItem(1)')" [] (.single ⟨false, true, 0⟩)).1 =
        .failed (.evaluation "getItem(1)" (.typeMismatch "getItem[0]" "string" "number")) := by
  have hparsed : Expr.parse "steps('getItem(1)')" =
      .ok (.call "steps" [.literal (.text "getItem(1)")]) := by
    cbv
  have hstatements : Script.statements "getItem(1)" = ["getItem(1)"] := by decide +kernel
  have houter : Script.statements "steps('getItem(1)')" = ["steps('getItem(1)')"] := by
    decide +kernel
  have hinner : ∀ w : World, w.evaluatesOn ⟨1⟩ = true → w.expandsOn ⟨1⟩ = false →
      Nested "getItem(1)" (.typeMismatch "getItem[0]" "string" "number") 1 0 ⟨1⟩ "getItem(1)" []
        w := by
    intro w hevaluates hplain
    obtain ⟨v, hcomes, hv, hexpands⟩ := NodeId.exists_comesTo (.ofFuel 1) [] hstatements hevaluates
    obtain ⟨c, v', hevaluated, -⟩ := NodeId.Evaluates.of_expand
      (NodeId.expand_of_not_expandsOn (.ofFuel 1) (hexpands.trans hplain) _) hstatements hv
    obtain ⟨x, hfails⟩ := evaluate_getItem 0 c v'
    exact .innermost hcomes hevaluated hfails
  have hnested : Nested "getItem(1)" (.typeMismatch "getItem[0]" "string" "number") 1 1 ⟨1⟩
      "steps('getItem(1)')" [] (.single ⟨false, true, 0⟩) := by
    obtain ⟨v, hcomes, hv, hexpands⟩ := NodeId.exists_comesTo (.ofFuel 2) (n := ⟨1⟩)
      (w := .single ⟨false, true, 0⟩) [] houter rfl
    obtain ⟨c, v', hevaluated, hthis, hv', hexpands'⟩ := NodeId.Evaluates.of_expand
      (NodeId.expand_of_not_expandsOn (.ofFuel 2) hexpands _) houter hv
    have hinvokes : c.Invokes (.ofFuel 1) "steps('getItem(1)')" v' c.this
        ⟨"steps", [.text "getItem(1)"]⟩ (v'.hold (Value.allNodes [.text "getItem(1)"])) := by
      refine .bare hparsed (by decide) ?_
      rw [Expr.evalAll, Expr.evalAll, Expr.eval]
      rfl
    rw [hthis] at hinvokes
    exact .level hcomes hevaluated hinvokes (.steps rfl)
      (hinner _ hv' (hexpands'.trans hexpands))
  exact ⟨hnested, (nested_failures _ _ 1 1 ⟨1⟩ _ _ _ hnested (by simp)).2 (by decide)⟩

/-- A placeholder of a digit is expanded to the digit. -/
theorem expand_getItem {fuel : Nat} {n : NodeId} {w : World} (hexpands : w.expandsOn n = true)
    (hdepth : w.expansions < Template.depthLimit) :
    ∃ w₁, n.expand (.ofFuel (fuel + 1)) "getItem($\x7b1\x7d)" w = (.done "getItem(1)", w₁) := by
  obtain ⟨c, w₁, hcontext, -⟩ := Context.exists_create_eq n w
  have hdepth' : (w₁.hold c.nodes).expansions < Template.depthLimit := by
    have hcontinues := (Context.orderly_create n).continues w
    rw [hcontext] at hcontinues
    exact hcontinues.expansions.symm ▸ hdepth
  have hpieces : Template.pieces "getItem($\x7b1\x7d)".toList =
      [.plain "getItem(".toList, .hole "1".toList, .plain ")".toList] := by
    cbv
  have hparsed : Expr.parse "1" = .ok (.literal (.number (.ofNat 1))) := by
    cbv
  have hdigit : (Expr.literal (.number (.ofNat 1))).eval (.ofFuel fuel) c
      (Template.deeper (w₁.hold c.nodes)) =
        (.done (.ofNat 1), Template.deeper (w₁.hold c.nodes)) := by
    rw [Expr.eval]
    rfl
  have hrender : Template.inside (Template.render (.ofFuel fuel) c "1".toList) (w₁.hold c.nodes) =
      (.done "1".toList, w₁.hold c.nodes) :=
    (Template.Fills.shown hparsed hdigit (by simp [Value.ofNat])).render
  have hinner : Template.expand (.ofFuel fuel) c "getItem($\x7b1\x7d)" (w₁.hold c.nodes) =
      (.done "getItem(1)", w₁.hold c.nodes) := by
    rw [Template.expand_eq_renderAll _ c _ hdepth', hpieces]
    simp only [Template.renderAll, Template.inside_bind, Template.inside_pure, bind_assoc, pure_bind]
    rw [Action.bind_done hrender]
    rfl
  rw [NodeId.expand, Action.inspect_bind_apply, hexpands, if_pos rfl, NodeId.within,
    Action.bind_done hcontext]
  exact ⟨_, congrArg (fun r : Outcome String × World => (r.1, { r.2 with held := w₁.held })) hinner⟩

/-- What is reported is the statement that a step expands to, and not the step. Without an
evaluator, no statement is reported. -/
theorem nested_failures_renamed :
    Script.statements "getItem($\x7b1\x7d)" = ["getItem($\x7b1\x7d)"] ∧
      (NodeId.steps (.ofFuel 2) ⟨1⟩ "getItem($\x7b1\x7d)" [] (.single ⟨true, true, 0⟩)).1 =
        .failed (.evaluation "getItem(1)" (.typeMismatch "getItem[0]" "string" "number")) ∧
      (NodeId.steps (.ofFuel 2) ⟨1⟩ "1" [] (.single ⟨false, false, 0⟩)).1 =
        .failed (.noEvaluator "1") := by
  have hcall : Script.statements "getItem(1)" = ["getItem(1)"] := by decide +kernel
  have hstep : Script.statements "getItem($\x7b1\x7d)" = ["getItem($\x7b1\x7d)"] := by
    decide +kernel
  obtain ⟨v, hcomes, hevaluates, hexpands, hdepth⟩ : ∃ v,
      NodeId.ComesTo (.ofFuel 2) ⟨1⟩ "getItem($\x7b1\x7d)" [] (.single ⟨true, true, 0⟩)
        "getItem($\x7b1\x7d)" v ∧
      v.evaluatesOn ⟨1⟩ = true ∧ v.expandsOn ⟨1⟩ = true ∧ v.expansions = 0 :=
    ⟨_, ⟨[], [], .null, _, hstep, rfl, rfl⟩, rfl, rfl, rfl⟩
  obtain ⟨w₁, hexpanded⟩ := expand_getItem hexpands (hdepth ▸ by decide)
  have hcontinues : v.Continues w₁ := by
    have horderly : (NodeId.expand (.ofFuel 2) ⟨1⟩ "getItem($\x7b1\x7d)").Orderly := inferInstance
    have hexpand := horderly.continues v
    rw [hexpanded] at hexpand
    exact hexpand
  refine ⟨hstep, ?_, ?_⟩
  · -- The statement that fails is the one of the expansion.
    obtain ⟨c, v', hevaluated, -⟩ :=
      NodeId.Evaluates.of_expand hexpanded hcall (hcontinues.evaluatesOn hevaluates)
    obtain ⟨x, hfails⟩ := evaluate_getItem 1 c v'
    obtain ⟨y, hsteps⟩ := NodeId.steps_fails hcomes hevaluated hfails (by simp)
    rw [hsteps]
    rfl
  · cbv

end ScriptTree
