import ScriptTree.Proofs.Steps.Ending

/-!
# Handlers of failures

A sequence with a handler ends in one of three ways: it is done by itself, its failure is handled,
or the handler fails (`NodeId.Tries`). The handler runs once, after a failure only, in a frame that
binds nothing but the failure, and in the world that the failure has left
(`NodeId.opened_handler`). A node without an engine handles its failures too, but has nobody to tell
(`NodeId.handled_silently`).
-/

set_option autoImplicit false

namespace ScriptTree

/-- A frame with one binding is a fresh node that holds it. -/
theorem World.pushFrame_singleton (w : World) (key : String) (value : Value) :
    w.pushFrame [(key, value)] = (⟨w.cells.size⟩,
      { w with
        cells := w.cells.push ⟨none, none, [(key, value)], false⟩
        frames := ⟨w.cells.size⟩ :: w.frames }) := by
  have hcells : (w.cells.push ⟨none, none, [], false⟩).modify w.cells.size
      (fun c => { c with entries := c.entries.insert key value }) =
        w.cells.push ⟨none, none, [(key, value)], false⟩ := by
    apply Array.ext
    · simp
    · intro i h h'
      rw [Array.getElem_modify, Array.getElem_push, Array.getElem_push]
      by_cases hi : i = w.cells.size
      · subst hi
        simp [Entries.insert]
      · have hlt : i < w.cells.size := by
          rw [Array.size_push] at h'
          omega
        simp [hlt, Ne.symm hi]
  simp only [pushFrame, create, set, modifyCell, List.foldl_cons, List.foldl_nil, hcells]

/-- An argument that can be read changes nothing. -/
theorem Action.argument_bind {α β : Type} {argument : Except Failure α} {value : α}
    (next : α → Action β) (h : argument = .ok value) (w : World) :
    ((liftM argument : Action α) >>= next) w = next value w := by
  rw [h]
  rfl

namespace NodeId

variable {lang : Language} {n : NodeId} {operations handler : Value} {cause : Failure}
  {w w' : World}

/-- What the trace says of a failure that goes to its handler. -/
def handlingMessage (w : World) (cause : Failure) : String :=
  "Handling exception: [" ++ cause.category.name ++ "]: " ++ w.message cause

/-- The event of a failure that goes to its handler. -/
def handlingEvent (n : NodeId) (cause : Failure) (w : World) : TraceEvent :=
  ⟨.exceptionHandled, w.path n, handlingMessage w cause, w.frames⟩

/-- The world in which a handler comes to its turn: a node with an engine has told of the
failure. -/
def handing (n : NodeId) (cause : Failure) (w : World) : World :=
  if (w.cell n).engined then { w with trace := n.handlingEvent cause w :: w.trace } else w

/-- The binding of a handler's frame. -/
def handlerArguments (cause : Failure) : List (String × Value) := [("exception", .failure cause)]

/-- How operations with a handler end that start in `w`. -/
inductive Tries (lang : Language) (n : NodeId) (operations handler : Value) (w : World) :
    Outcome Unit → World → Prop
  /-- The operations end with a value, and the handler does not run. -/
  | undisturbed {value : Value} {w₁ : World}
      (ends : n.Ends lang (w.stepsText operations) [] w (.done value) w₁) :
      Tries lang n operations handler w (.done ()) w₁
  /-- The operations fail, and the handler ends in one way or another. -/
  | handled {cause : Failure} {w₁ w₂ : World} {outcome : Outcome Value}
      (fails : n.Ends lang (w.stepsText operations) [] w (.failed cause) w₁)
      (ends : n.Ends lang ((n.handing cause w₁).stepsText handler) (handlerArguments cause)
        (n.handing cause w₁) outcome w₂) :
      Tries lang n operations handler w (outcome.map fun _ => ()) w₂
  /-- The fuel of nested evaluation is used up in the operations. -/
  | lost {w₁ : World} (ends : n.Ends lang (w.stepsText operations) [] w .exhausted w₁) :
      Tries lang n operations handler w .exhausted w₁

theorem notify_handling (n : NodeId) (cause : Failure) (w : World) :
    n.notify .exceptionHandled (handlingMessage w cause) w = (.done (), n.handing cause w) := by
  rw [notify, Action.change_apply, handing]
  rfl

theorem stepsOf_apply (value : Value) (w : World) :
    n.stepsOf lang value w = n.steps lang (w.stepsText value) [] w := by
  rw [stepsOf, Action.inspect_bind_apply]

theorem stepsOf_eq_iff [lang.Orderly] {value : Value} {outcome : Outcome Value} :
    n.stepsOf lang value w = (outcome, w') ↔
      n.Ends lang (w.stepsText value) [] w outcome w' := by
  rw [stepsOf_apply]
  exact steps_eq_iff

/-- Operations that end with a value. -/
theorem tryExcept_of_done {value : Value}
    (h : n.stepsOf lang operations w = (.done value, w')) :
    n.tryExcept lang operations handler w = (.done (), w') := by
  rw [tryExcept, Action.bind_apply, Action.attempt, h]
  rfl

/-- Operations that fail: the failure goes to the trace, and the handler is the rest. -/
theorem tryExcept_of_failed {w₂ : World} {outcome : Outcome Value}
    (h : n.stepsOf lang operations w = (.failed cause, w'))
    (hhandler : n.steps lang ((n.handing cause w').stepsText handler) (handlerArguments cause)
      (n.handing cause w') = (outcome, w₂)) :
    n.tryExcept lang operations handler w = (outcome.map fun _ => (), w₂) := by
  have hattempt : Action.attempt (n.stepsOf lang operations) w = (.done (.error cause), w') := by
    rw [Action.attempt, h]
  have hnotify : n.notify .exceptionHandled
      ("Handling exception: [" ++ cause.category.name ++ "]: " ++ w'.message cause) w' =
        (.done (), n.handing cause w') := n.notify_handling cause w'
  have hlast : (n.steps lang ((n.handing cause w').stepsText handler)
      [("exception", .failure cause)] >>= fun _ => (pure () : Action Unit)) (n.handing cause w') =
        (outcome.map fun _ => (), w₂) := by
    rw [handlerArguments] at hhandler
    rw [Action.bind_apply, hhandler]
    cases outcome <;> rfl
  rw [tryExcept, Action.bind_done hattempt]
  dsimp only
  rw [Action.inspect_bind_apply, Action.bind_done hnotify, Action.inspect_bind_apply]
  exact hlast

theorem tryExcept_of_exhausted (h : n.stepsOf lang operations w = (.exhausted, w')) :
    n.tryExcept lang operations handler w = (.exhausted, w') := by
  rw [tryExcept, Action.bind_apply, Action.attempt, h]

/-- Operations with a handler give what one of the endings says, and nothing else. -/
theorem tryExcept_eq_iff [lang.Orderly] {outcome : Outcome Unit} :
    n.tryExcept lang operations handler w = (outcome, w') ↔
      n.Tries lang operations handler w outcome w' := by
  constructor
  · intro h
    rcases hsteps : n.stepsOf lang operations w with ⟨value | cause | _, w₁⟩
    · rw [tryExcept_of_done hsteps] at h
      obtain ⟨rfl, rfl⟩ := Prod.mk.inj h
      exact .undisturbed (stepsOf_eq_iff.mp hsteps)
    · rcases hhandler : n.steps lang ((n.handing cause w₁).stepsText handler)
        (handlerArguments cause) (n.handing cause w₁) with ⟨result, w₂⟩
      rw [tryExcept_of_failed hsteps hhandler] at h
      obtain ⟨rfl, rfl⟩ := Prod.mk.inj h
      exact .handled (stepsOf_eq_iff.mp hsteps) (steps_eq_iff.mp hhandler)
    · rw [tryExcept_of_exhausted hsteps] at h
      obtain ⟨rfl, rfl⟩ := Prod.mk.inj h
      exact .lost (stepsOf_eq_iff.mp hsteps)
  · intro h
    cases h with
    | undisturbed ends => exact tryExcept_of_done (stepsOf_eq_iff.mpr ends)
    | handled fails ends =>
        exact tryExcept_of_failed (stepsOf_eq_iff.mpr fails) (steps_eq_iff.mpr ends)
    | lost ends => exact tryExcept_of_exhausted (stepsOf_eq_iff.mpr ends)

/-- The world in which the statements of a handler start is the one that the failure has left, with
a fresh node on top of the frames that binds the failure, and with two events when the node has an
engine. -/
theorem opened_handler (n : NodeId) (cause : Failure) (w : World) :
    ∃ started, n.opened (handlerArguments cause) (n.handing cause w) =
      { w with
        cells := w.cells.push ⟨none, none, handlerArguments cause, false⟩
        frames := ⟨w.cells.size⟩ :: w.frames
        trace := if (w.cell n).engined then started :: n.handlingEvent cause w :: w.trace
          else w.trace } ∧ started.kind = .stepsStart := by
  have hpush := (n.handing cause w).pushFrame_singleton "exception" (.failure cause)
  have hcells : (n.handing cause w).cells = w.cells := by
    rw [handing]
    split <;> rfl
  have hengined : (((n.handing cause w).pushFrame (handlerArguments cause)).2.cell n).engined =
      (w.cell n).engined := by
    rw [handlerArguments, hpush]
    simp only [World.cell, hcells, Array.getD_eq_getD_getElem?, Array.getElem?_push]
    by_cases hn : n.index = w.cells.size
    · -- The frame has no engine, and neither has a node that is not there.
      simp only [hn, if_true, Array.getElem?_eq_none (Nat.le_refl _)]
      rfl
    · rw [if_neg hn]
  rw [opened, notify, Action.change_apply, hengined]
  by_cases he : (w.cell n).engined = true
  · simp only [if_pos he]
    rw [handlerArguments, hpush, handing, if_pos he]
    exact ⟨_, rfl, rfl⟩
  · simp only [if_neg he]
    rw [handlerArguments, hpush, handing, if_neg he]
    exact ⟨⟨.stepsStart, "", "", []⟩, rfl, rfl⟩

/-- A handler without statements handles every failure and changes nothing but the trace. -/
theorem tryExcept_null [lang.Orderly] (h : n.stepsOf lang operations w = (.failed cause, w')) :
    n.tryExcept lang operations .null w =
      (.done (), { n.opened (handlerArguments cause) (n.handing cause w') with
        frames := (n.handing cause w').frames }) := by
  have hstatements : Script.statements "" = [] := by decide +kernel
  have hnone : n.performAll lang (stepIndent (handlerArguments cause) (n.handing cause w'))
      (Script.statements "") .null (n.opened (handlerArguments cause) (n.handing cause w')) =
        (.done .null, n.opened (handlerArguments cause) (n.handing cause w')) := by
    rw [hstatements, performAll]
    rfl
  have hhandler : n.steps lang ((n.handing cause w').stepsText .null) (handlerArguments cause)
      (n.handing cause w') = (.done .null, { n.opened (handlerArguments cause)
        (n.handing cause w') with frames := (n.handing cause w').frames }) := by
    rw [World.stepsText, steps_eq_settled hnone, settled]
  rw [tryExcept_of_failed h hhandler, Outcome.map]

/-- The call of the operation gives the node back, whether or not the handler has run. -/
theorem invoke_tryExcept (rest : List Value) :
    n.invoke lang ⟨"tryExcept", operations :: handler :: rest⟩ w =
      ((n.tryExcept lang operations handler w).1.map fun _ => .node n,
        (n.tryExcept lang operations handler w).2) := by
  have hfirst : (⟨"tryExcept", operations :: handler :: rest⟩ : Call).value 0 = .ok operations :=
    rfl
  have hsecond : (⟨"tryExcept", operations :: handler :: rest⟩ : Call).value 1 = .ok handler := rfl
  have hcall : n.invoke lang ⟨"tryExcept", operations :: handler :: rest⟩ w =
      (n.tryExcept lang operations handler >>= fun _ => pure (Value.node n)) w :=
    (Action.argument_bind _ hfirst w).trans (Action.argument_bind _ hsecond w)
  rw [hcall, Action.bind_apply]
  rcases n.tryExcept lang operations handler w with ⟨_ | cause | _, w₁⟩
  · rfl
  · rfl
  · rfl

end NodeId

/-- Operations with a handler end in exactly one of the ways of `NodeId.Tries`, and the call gives
the node back unless the handler fails. The frames are the same afterwards however it ends, and a
handler starts in the world that the failure has left, with a fresh frame that binds the failure. -/
theorem tryExcept_classified (fuel : Nat) (n : NodeId) (operations handler : Value) (w : World) :
    (∀ outcome w', n.tryExcept (.ofFuel fuel) operations handler w = (outcome, w') ↔
      n.Tries (.ofFuel fuel) operations handler w outcome w') ∧
    (∀ rest, n.invoke (.ofFuel fuel) ⟨"tryExcept", operations :: handler :: rest⟩ w =
      ((n.tryExcept (.ofFuel fuel) operations handler w).1.map fun _ => .node n,
        (n.tryExcept (.ofFuel fuel) operations handler w).2)) ∧
    (n.tryExcept (.ofFuel fuel) operations handler w).2.frames = w.frames ∧
    (∀ cause w₁, ∃ started,
      n.opened (NodeId.handlerArguments cause) (n.handing cause w₁) =
        { w₁ with
          cells := w₁.cells.push ⟨none, none, [("exception", .failure cause)], false⟩
          frames := ⟨w₁.cells.size⟩ :: w₁.frames
          trace := if (w₁.cell n).engined then started :: n.handlingEvent cause w₁ :: w₁.trace
            else w₁.trace } ∧ started.kind = .stepsStart) := by
  refine ⟨?_, ?_, ?_, ?_⟩
  · intro outcome w'
    exact NodeId.tryExcept_eq_iff
  · intro rest
    exact NodeId.invoke_tryExcept rest
  · exact ((NodeId.orderly_tryExcept (.ofFuel fuel) n operations handler).continues w).frames
  · intro cause w₁
    exact n.opened_handler cause w₁

/-- A world with one node besides the static one, without an engine. -/
def World.unengined : World :=
  ((World.initial ⟨true, true, 0⟩ ⟨default, []⟩).create false).2

/-- The failure of operations on a node without an engine is handled without an event. -/
theorem handled_silently :
    (NodeId.stepsOf (.ofFuel 1) ⟨1⟩ (.text "1") .unengined).1 = .failed (.noEvaluator "1") ∧
      (NodeId.tryExcept (.ofFuel 1) ⟨1⟩ (.text "1") .null .unengined).1 = .done () ∧
      (NodeId.tryExcept (.ofFuel 1) ⟨1⟩ (.text "1") .null .unengined).2.trace = [] := by
  have hcause : (NodeId.stepsOf (.ofFuel 1) ⟨1⟩ (.text "1") .unengined).1 =
      .failed (.noEvaluator "1") := by
    cbv
  have htrace : (NodeId.stepsOf (.ofFuel 1) ⟨1⟩ (.text "1") .unengined).2.trace = [] := by
    cbv
  rcases hsteps : NodeId.stepsOf (.ofFuel 1) ⟨1⟩ (.text "1") .unengined with ⟨result, w₁⟩
  rw [hsteps] at hcause htrace
  obtain rfl : result = .failed (.noEvaluator "1") := hcause
  have hengined : (w₁.cell ⟨1⟩).engined = false := by
    have hcontinues := (NodeId.orderly_stepsOf (.ofFuel 1) ⟨1⟩ (.text "1")).continues .unengined
    rw [hsteps] at hcontinues
    exact hcontinues.engined ⟨1⟩ (by decide)
  obtain ⟨started, hopened, -⟩ := NodeId.opened_handler ⟨1⟩ (.noEvaluator "1") w₁
  rw [NodeId.tryExcept_null hsteps, hopened]
  refine ⟨rfl, rfl, ?_⟩
  show (if (w₁.cell ⟨1⟩).engined then _ else w₁.trace) = []
  rw [hengined]
  exact htrace

end ScriptTree
