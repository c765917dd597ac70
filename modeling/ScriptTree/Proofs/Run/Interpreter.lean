import ScriptTree.Language
import ScriptTree.Proofs.Run.Orderly

/-!
# The language of scripts is orderly

Sequences of steps, branches, loops, handlers, operations by name, expressions and templates are
orderly, each given that templates and statements inside it are. Evaluation inside evaluation takes
fuel, so the language of every fuel is orderly by induction on it (`Language.orderly_ofFuel`). A
sequence of steps is the one place where frames come and go: it ends with its own frame on top, so
dropping that leaves the frames that were there before.
-/

set_option autoImplicit false

namespace ScriptTree

/-! ## Sequences of steps -/

/-- A frame that was pushed in a world that continues the first is dropped when what ran in it has
left it on top. -/
theorem World.Continues.frames_restored {w w₀ w' : World} {f : NodeId} (h₀ : w.Continues w₀)
    (hf : w.cells.size ≤ f.index)
    (h : ({ w₀ with frames := f :: w₀.frames } : World).Continues w') :
    w.Continues (w'.dropFrame f) where
  frames := by
    have hframes : w'.frames = f :: w₀.frames := h.frames
    show Scope.below w'.frames f = w.frames
    rw [hframes, Scope.below_cons_self, h₀.frames]
  held := h.held.trans h₀.held
  loading := h.loading.trans h₀.loading
  expansions := h.expansions.trans h₀.expansions
  files := h.files.trans h₀.files
  engine := h.engine.trans h₀.engine
  static := h.static.trans h₀.static
  size := Nat.le_trans h₀.size h.size
  engined := fun n hn =>
    (h.engined n (Nat.lt_of_lt_of_le hn h₀.size)).trans (h₀.engined n hn)
  trace := by
    obtain ⟨before, ht₀, hbefore⟩ := h₀.trace
    obtain ⟨inside, ht, hinside⟩ := h.trace
    refine ⟨inside ++ before, ?_, ?_⟩
    · show w'.trace = _
      rw [ht, List.append_assoc, ← ht₀]
    · intro e he
      rcases List.mem_append.mp he with he | he
      · obtain ⟨hindented, opened, hframes, hopened⟩ := hinside e he
        refine ⟨hindented, opened ++ [f], ?_, ?_⟩
        · rw [hframes, List.append_assoc, ← h₀.frames]
          rfl
        · intro g hg
          rcases List.mem_append.mp hg with hg | hg
          · exact Nat.le_trans h₀.size (hopened g hg)
          · rw [List.mem_singleton] at hg
            exact hg ▸ hf
      · exact hbefore e he

/-- A pushed frame is a new node on top of the frames of a world that continues the one before. -/
theorem World.exists_pushFrame_eq (w : World) (arguments : List (String × Value)) :
    ∃ w₀ : World, w.Continues w₀ ∧
      w.pushFrame arguments =
        (⟨w.cells.size⟩, { w₀ with frames := ⟨w.cells.size⟩ :: w₀.frames }) := by
  refine ⟨_, ?_, rfl⟩
  refine (w.continues_create false).trans ?_
  exact World.continues_foldl _ (fun w₁ (p : String × Value) => w₁.continues_set _ p.1 p.2)
    arguments _

/-- An action in a frame of its own is orderly when it keeps what is below its frame. -/
theorem Action.orderly_withFrame {α : Type} (arguments : List (String × Value)) (a : Action α)
    (ha : ∀ w : World, w.Continues (a w).2) : (Action.withFrame arguments a).Orderly := by
  refine ⟨fun w => ?_⟩
  obtain ⟨w₀, h₀, hpush⟩ := w.exists_pushFrame_eq arguments
  rw [Action.withFrame]
  rw [hpush]
  exact h₀.frames_restored (Nat.le_refl _) (ha _)

namespace NodeId

/-- The event is added where it belongs, when its message is what the frames at that moment ask
for. -/
theorem continues_notify (n : NodeId) (kind : TraceKind) (message : String) (w : World)
    (h : TraceEvent.Indented ⟨kind, w.path n, message, w.frames⟩) :
    w.Continues (n.notify kind message w).2 := by
  rw [notify]
  rw [Action.change_apply]
  split
  · exact World.Continues.record w kind _ message h
  · exact World.Continues.refl w

/-- Events that are not about sequences of steps have no indentation. -/
theorem orderly_notify (n : NodeId) (kind : TraceKind) (message : String)
    (h : kind ≠ .stepsStart) (h' : kind ≠ .stepStart) : (n.notify kind message).Orderly := by
  refine ⟨fun w => continues_notify n kind message w ?_⟩
  cases kind with
  | stepsStart => exact absurd rfl h
  | stepStart => exact absurd rfl h'
  | whileTest | whileOperation | exceptionHandled => trivial

section Steps

variable (lang : Language) [hl : lang.Orderly]

instance orderly_perform (n : NodeId) (text : String) : (n.perform lang text).Orderly := by
  rw [perform]
  infer_instance

/-- One statement of a sequence, announced with the indentation of the frames. -/
theorem continues_announce (n : NodeId) (step : String) (last : Value) (w : World) :
    w.Continues ((Action.holding last.nodes do
      n.notify .stepStart (indentation w.frames.length ++ " -> " ++ step)
      n.perform lang step) w).2 := by
  refine Action.continues_holding (Action.continues_bind ?_ ?_)
  · exact continues_notify n .stepStart _ _ ⟨step, rfl⟩
  · intro _ w₁ _
    exact (orderly_perform lang n step).continues w₁

/-- The statements of a sequence keep its frame on top of those below, so that the indentation
computed at its start stays that of the frames. -/
theorem continues_performAll (n : NodeId) (steps : List String) (last : Value) (w : World) :
    w.Continues (n.performAll lang (indentation w.frames.length) steps last w).2 := by
  induction steps generalizing last w with
  | nil => exact World.Continues.refl w
  | cons step rest ih =>
      rw [performAll]
      refine Action.continues_bind (continues_announce lang n step last w) ?_
      intro value w₁ h₁
      rw [← h₁.frames]
      exact ih value w₁

instance orderly_settleSteps (result : Except Failure Value) : (settleSteps result).Orderly := by
  unfold settleSteps
  split
  · infer_instance
  · split <;> infer_instance

instance orderly_steps (n : NodeId) (text : String) (arguments : List (String × Value)) :
    (n.steps lang text arguments).Orderly := by
  refine Action.orderly_withFrame arguments _ fun w => ?_
  rw [Action.inspect_bind_apply, Action.inspect_bind_apply]
  refine Action.continues_bind (continues_notify n .stepsStart _ w rfl) ?_
  intro _ w₁ h₁
  refine Action.continues_bind (Action.continues_attempt ?_) ?_
  · rw [← h₁.frames]
    exact continues_performAll lang n _ .null w₁
  · intro result w₂ _
    exact (orderly_settleSteps result).continues w₂

instance orderly_stepsOf (n : NodeId) (value : Value) : (n.stepsOf lang value).Orderly := by
  rw [stepsOf]
  infer_instance

instance orderly_call (n : NodeId) (key : String) (arguments : List (String × Value)) :
    (n.call lang key arguments).Orderly := by
  rw [call]
  refine Action.Orderly.bind inferInstance fun found => ?_
  split <;> infer_instance

instance orderly_run (n : NodeId) : (n.run lang).Orderly := by
  rw [run]
  infer_instance

/-! ## Branches, loops and handlers -/

instance orderly_test (n : NodeId) (text : String) : (n.test lang text).Orderly := by
  rw [test]
  refine Action.Orderly.bind inferInstance fun value => ?_
  split <;> infer_instance

instance orderly_ifThen (n : NodeId) (test : String) (yes : Value) :
    (n.ifThen lang test yes).Orderly := by
  rw [ifThen]
  infer_instance

instance orderly_ifThenElse (n : NodeId) (test : String) (yes no : Value) :
    (n.ifThenElse lang test yes no).Orderly := by
  rw [ifThenElse]
  infer_instance

theorem orderly_skip (n : NodeId) (kind : TraceKind) (what : String) (cause : Failure)
    (h : kind ≠ .stepsStart) (h' : kind ≠ .stepStart) : (n.skip kind what cause).Orderly := by
  rw [skip]
  split
  · infer_instance
  · exact Action.Orderly.bind inferInstance fun _ => orderly_notify n kind _ h h'

instance orderly_whileTest (n : NodeId) (test : String) (tries : Nat) :
    (n.whileTest lang test tries).Orderly := by
  rw [whileTest]
  refine Action.Orderly.bind inferInstance ?_
  rintro (cause | holds)
  · exact Action.Orderly.bind (orderly_skip n _ _ cause (by decide) (by decide)) fun _ =>
      inferInstance
  · have hnotify := fun message => orderly_notify n .whileTest message (by decide) (by decide)
    dsimp only
    infer_instance

instance orderly_whileOperation (n : NodeId) (tries : Nat) (operation : String) :
    (n.whileOperation lang tries operation).Orderly := by
  rw [whileOperation]
  refine Action.Orderly.bind inferInstance ?_
  rintro (cause | value)
  · exact orderly_skip n _ _ cause (by decide) (by decide)
  · infer_instance

instance orderly_whileFrom (n : NodeId) (test : String) (operations : List String)
    (left tries : Nat) : (n.whileFrom lang test operations left tries).Orderly := by
  induction left generalizing tries with
  | zero =>
      rw [whileFrom]
      infer_instance
  | succ left ih =>
      rw [whileFrom]
      infer_instance

instance orderly_whileDo (n : NodeId) (test : String) (operations : List String) (limit : Nat) :
    (n.whileDo lang test operations limit).Orderly :=
  orderly_whileFrom lang n test operations limit 0

instance orderly_tryExcept (n : NodeId) (operations handler : Value) :
    (n.tryExcept lang operations handler).Orderly := by
  rw [tryExcept]
  refine Action.Orderly.bind inferInstance ?_
  rintro (cause | value)
  · have hnotify := fun message =>
      orderly_notify n .exceptionHandled message (by decide) (by decide)
    dsimp only
    infer_instance
  · infer_instance

end Steps

end NodeId

/-! ## Expressions and templates -/

section Expressions

variable (lang : Language) [hl : lang.Orderly]

instance NodeId.orderly_invoke (n : NodeId) (call : Call) : (n.invoke lang call).Orderly := by
  rw [NodeId.invoke]
  split <;> infer_instance

instance Action.orderly_ofFaulty {α : Type} (result : Except Script.Fault α) :
    (Action.ofFaulty result).Orderly := by
  cases result with
  | ok value => exact Action.orderly_pure value
  | error cause => exact Action.orderly_fail _

instance Action.orderly_faulty {α : Type} (cause : Script.Fault) :
    (Action.fault cause : Action α).Orderly :=
  Action.orderly_fail _

instance Value.orderly_member (name : String) (value : Value) :
    (value.member lang name).Orderly := by
  unfold Value.member
  split <;> infer_instance

instance Value.orderly_part (target key : Value) : (target.part lang key).Orderly := by
  unfold Value.part
  split <;> infer_instance

instance Context.orderly_callBare (c : Context) (call : Call) : (c.callBare lang call).Orderly := by
  rw [Context.callBare]
  split <;> infer_instance

instance Context.orderly_storeMember (c : Context) (target : Value) (name : String)
    (value : Value) : (c.storeMember target name value).Orderly := by
  unfold Context.storeMember
  split <;> infer_instance

instance Context.orderly_callMethod (receiver : Value) (call : Call) :
    (Context.callMethod lang receiver call).Orderly := by
  unfold Context.callMethod
  split
  · infer_instance
  · infer_instance
  · infer_instance
  · refine Action.Orderly.bind inferInstance ?_
    rintro (_ | value) <;> infer_instance
  · infer_instance

/-! The value of an expression, those of a list of them, and the storing of a value where an
expression is read from, by one induction on the syntax. -/

mutual

theorem Expr.orderly_eval {lang : Language} (hl : lang.Orderly) (c : Context) :
    ∀ e : Expr, (e.eval lang c).Orderly
  | .literal _ => by
      rw [Expr.eval]
      infer_instance
  | .list items => by
      have hitems := Expr.orderly_evalAll hl c items
      rw [Expr.eval]
      infer_instance
  | .name _ => by
      rw [Expr.eval]
      infer_instance
  | .member target _ => by
      have htarget := Expr.orderly_eval hl c target
      rw [Expr.eval]
      infer_instance
  | .index target key => by
      have htarget := Expr.orderly_eval hl c target
      have hkey := Expr.orderly_eval hl c key
      rw [Expr.eval]
      infer_instance
  | .call _ arguments => by
      have harguments := Expr.orderly_evalAll hl c arguments
      rw [Expr.eval]
      infer_instance
  | .send receiver _ arguments => by
      have harguments := Expr.orderly_evalAll hl c arguments
      have hreceiver := Expr.orderly_eval hl c receiver
      have hback := fun value => Expr.orderly_writeBack hl c receiver value
      rw [Expr.eval]
      refine Action.Orderly.bind inferInstance fun arguments => ?_
      refine @Action.orderly_holding _ _ _ (Action.Orderly.bind inferInstance fun target => ?_)
      refine @Action.orderly_holding _ _ _ (Action.Orderly.bind inferInstance ?_)
      rintro ⟨value, _ | changed⟩ <;> infer_instance
  | .neg operand => by
      have hoperand := Expr.orderly_eval hl c operand
      rw [Expr.eval]
      infer_instance
  | .not operand => by
      have hoperand := Expr.orderly_eval hl c operand
      rw [Expr.eval]
      infer_instance
  | .binary _ left right => by
      have hleft := Expr.orderly_eval hl c left
      have hright := Expr.orderly_eval hl c right
      rw [Expr.eval]
      infer_instance
  | .and left right => by
      have hleft := Expr.orderly_eval hl c left
      have hright := Expr.orderly_eval hl c right
      rw [Expr.eval]
      infer_instance
  | .or left right => by
      have hleft := Expr.orderly_eval hl c left
      have hright := Expr.orderly_eval hl c right
      rw [Expr.eval]
      infer_instance
  | .choice test yes no => by
      have htest := Expr.orderly_eval hl c test
      have hyes := Expr.orderly_eval hl c yes
      have hno := Expr.orderly_eval hl c no
      rw [Expr.eval]
      infer_instance
  | .assign place value => by
      have hvalue := Expr.orderly_eval hl c value
      have hback := fun value => Expr.orderly_writeBack hl c place value
      rw [Expr.eval]
      refine Action.Orderly.bind inferInstance fun value => ?_
      split <;> infer_instance

theorem Expr.orderly_evalAll {lang : Language} (hl : lang.Orderly) (c : Context) :
    ∀ es : List Expr, (Expr.evalAll lang c es).Orderly
  | [] => Action.orderly_pure _
  | e :: rest => by
      have he := Expr.orderly_eval hl c e
      have hrest := Expr.orderly_evalAll hl c rest
      rw [Expr.evalAll]
      infer_instance

theorem Expr.orderly_writeBack {lang : Language} (hl : lang.Orderly) (c : Context) :
    ∀ (place : Expr) (value : Value), (Expr.writeBack lang c value place).Orderly
  | .name _, _ => by
      rw [Expr.writeBack]
      refine Action.Orderly.bind inferInstance ?_
      rintro (_ | holder) <;> infer_instance
  | .member target _, _ => by
      have htarget := Expr.orderly_eval hl c target
      rw [Expr.writeBack]
      infer_instance
  | .index target key, _ => by
      have htarget := Expr.orderly_eval hl c target
      have hkey := Expr.orderly_eval hl c key
      have hback := fun value => Expr.orderly_writeBack hl c target value
      rw [Expr.writeBack]
      refine Action.Orderly.bind inferInstance fun key => ?_
      refine Action.Orderly.bind inferInstance fun found => ?_
      refine @Action.orderly_holding _ _ _ (Action.Orderly.bind inferInstance fun shown => ?_)
      split
      · infer_instance
      · split <;> infer_instance
      · infer_instance
  | .literal _, _ | .list _, _ | .call _ _, _ | .send _ _ _, _ | .neg _, _ | .not _, _
  | .binary _ _ _, _ | .and _ _, _ | .or _ _, _ | .choice _ _ _, _ | .assign _ _, _ =>
      Action.orderly_pure _

end

instance Template.orderly_render (c : Context) (body : List Char) :
    (Template.render lang c body).Orderly := by
  rw [Template.render]
  split
  · infer_instance
  · rename_i e _
    have he := Expr.orderly_eval hl c e
    refine Action.Orderly.bind inferInstance fun result => ?_
    split <;> infer_instance

instance Template.orderly_renderAll (c : Context) (pieces : List Template.Piece) :
    (Template.renderAll lang c pieces).Orderly := by
  induction pieces with
  | nil => exact Action.orderly_pure _
  | cons piece rest ih =>
      cases piece with
      | plain s =>
          rw [Template.renderAll]
          infer_instance
      | hole body =>
          rw [Template.renderAll]
          infer_instance

instance Template.orderly_expand (c : Context) (text : String) :
    (Template.expand lang c text).Orderly := by
  have hfilled : Action.Orderly (Action.within
      (fun w => { w with expansions := w.expansions + 1 })
      (fun w => { w with expansions := w.expansions - 1 }) do
        let filled ← Template.renderAll lang c (Template.pieces text.toList)
        pure (String.ofList filled)) :=
    Action.orderly_within_expansion _
  rw [Template.expand]
  infer_instance

instance Language.orderly_evaluateStatement (c : Context) (statement : String) :
    (lang.evaluateStatement c statement).Orderly := by
  rw [Language.evaluateStatement]
  split
  · exact Expr.orderly_eval hl c _
  · infer_instance

end Expressions

/-- The language of scripts is orderly, however far evaluation may go inside itself. -/
instance Language.orderly_ofFuel (fuel : Nat) : (Language.ofFuel fuel).Orderly := by
  induction fuel with
  | zero => exact ⟨fun _ _ => Action.orderly_exhaust, fun _ _ => Action.orderly_exhaust⟩
  | succ fuel ih =>
      exact ⟨fun c text => Template.orderly_expand (Language.ofFuel fuel) c text,
        fun c statement => Language.orderly_evaluateStatement (Language.ofFuel fuel) c statement⟩

end ScriptTree
