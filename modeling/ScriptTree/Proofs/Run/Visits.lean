import ScriptTree.Proofs.Run.Interpreter

/-!
# Failures on their way out of an expression

Evaluating an expression comes to evaluating its parts, one after another, in the worlds that the
parts before leave (`Expr.Part`). What such a part fails with is what the expression fails with, at
once, and what the part adds to the trace stays there (`Expr.visits_part`).
-/

set_option autoImplicit false

namespace ScriptTree

/-- The action that starts in `w` comes to another one in `w'`. It fails when that one does, with
the same cause and at once, and it keeps the events that that one adds. -/
structure Action.Visits {α β : Type} (a : Action α) (w : World) (b : Action β) (w' : World) :
    Prop where
  fails : ∀ cause x, b w' = (.failed cause, x) → a w = (.failed cause, { x with held := w.held })
  events : (b w').2.trace <:+ (a w).2.trace

/-- The action lets go of the nodes that it holds and keeps the events of the trace. -/
class Action.Steady {α : Type} (a : Action α) : Prop where
  held : ∀ w : World, (a w).2.held = w.held
  events : ∀ w : World, w.trace <:+ (a w).2.trace

namespace Action

variable {α β γ : Type}

instance steady_of_orderly (a : Action α) [ha : a.Orderly] : a.Steady where
  held := fun w => (ha.continues w).held
  events := fun w => (ha.continues w).trace_suffix

theorem Steady.bind {a : Action α} {next : α → Action γ} (ha : a.Steady)
    (hnext : ∀ value, (next value).Steady) : (a >>= next).Steady where
  held := by
    intro w
    have hheld := ha.held w
    rw [bind_apply]
    generalize a w = result at hheld ⊢
    rcases result with ⟨value | cause | _, w₁⟩
    · exact ((hnext value).held w₁).trans hheld
    · exact hheld
    · exact hheld
  events := by
    intro w
    have hevents := ha.events w
    rw [bind_apply]
    generalize a w = result at hevents ⊢
    rcases result with ⟨value | cause | _, w₁⟩
    · exact hevents.trans ((hnext value).events w₁)
    · exact hevents
    · exact hevents

theorem Steady.holding {a : Action α} (ha : a.Steady) (nodes : List NodeId) :
    (holding nodes a).Steady where
  held := fun _ => rfl
  events := fun w => ha.events (w.hold nodes)

theorem visits_self (a : Action α) [ha : a.Steady] (w : World) : a.Visits w a w where
  fails := by
    intro cause x hx
    have hheld := ha.held w
    rw [hx] at hheld
    rw [hx, ← hheld]
  events := List.suffix_rfl

/-- What the first of two actions comes to. -/
theorem Visits.bind {a : Action α} {b : Action β} {w w' : World} (h : a.Visits w b w')
    (next : α → Action γ) [hnext : ∀ value, (next value).Steady] :
    (a >>= next).Visits w b w' where
  fails := by
    intro cause x hx
    rw [bind_apply, h.fails cause x hx]
  events := by
    refine h.events.trans ?_
    rw [bind_apply]
    rcases a w with ⟨value | cause | _, w₁⟩
    · exact (hnext value).events w₁
    · exact List.suffix_rfl
    · exact List.suffix_rfl

/-- What the second of two actions comes to when the first is done. -/
theorem Visits.after {a : Action α} [ha : a.Steady] {next : α → Action γ} {b : Action β}
    {w w₁ w' : World} (value : α) (hdone : a w = (.done value, w₁))
    (h : (next value).Visits w₁ b w') : (a >>= next).Visits w b w' where
  fails := by
    intro cause x hx
    have hheld := ha.held w
    rw [hdone] at hheld
    rw [bind_apply, hdone]
    show next value w₁ = _
    rw [h.fails cause x hx, ← hheld]
  events := by
    rw [bind_apply, hdone]
    exact h.events

theorem Visits.holding {a : Action α} {b : Action β} {w w' : World} {nodes : List NodeId}
    (h : a.Visits (w.hold nodes) b w') : (holding nodes a).Visits w b w' where
  fails := by
    intro cause x hx
    have ha := h.fails cause x hx
    show ((a (w.hold nodes)).1, { (a (w.hold nodes)).2 with held := w.held }) = _
    rw [ha]
  events := h.events

theorem Visits.map {a : Action α} {b : Action β} {w w' : World} (h : a.Visits w b w')
    (f : α → γ) : (f <$> a).Visits w b w' :=
  h.bind fun value => pure (f value)

end Action

namespace Expr

variable (lang : Language) (c : Context)

/-- Evaluating expressions from left to right comes to evaluating the expression `e'` in `w'`. -/
inductive ItemPart : List Expr → World → Expr → World → Prop
  | head (e : Expr) (rest : List Expr) (w : World) : ItemPart (e :: rest) w e w
  | tail (e : Expr) (rest : List Expr) (w : World) (value : Value) (w₁ : World) (e' : Expr)
      (w' : World) (done : e.eval lang c w = (.done value, w₁))
      (part : ItemPart rest (w₁.hold value.nodes) e' w') : ItemPart (e :: rest) w e' w'

/-- Storing a value where an expression is read from comes to evaluating `e'` in `w'`. -/
inductive PlacePart : Value → Expr → World → Expr → World → Prop
  | target (value : Value) (target : Expr) (s : String) (w : World) :
      PlacePart value (.member target s) w target w
  | key (value : Value) (target key : Expr) (w : World) :
      PlacePart value (.index target key) w key w
  | keyed (value : Value) (target key : Expr) (w : World) (k : Value) (w₁ : World)
      (done : key.eval lang c w = (.done k, w₁)) :
      PlacePart value (.index target key) w target (w₁.hold k.nodes)
  | listed (value : Value) (target key : Expr) (w : World) (k : Value) (w₁ : World)
      (items : List Value) (w₂ : World) (i : Nat) (e' : Expr) (w' : World)
      (done : key.eval lang c w = (.done k, w₁))
      (found : target.eval lang c (w₁.hold k.nodes) = (.done (.list items), w₂))
      (place : k.index?.filter (· < items.length) = some i)
      (part : PlacePart (.list (items.set i value)) target
        (({ w₂ with held := w₁.held } : World).hold (k.nodes ++ (Value.list items).nodes)) e' w') :
      PlacePart value (.index target key) w e' w'

/-- Evaluating an expression comes to evaluating its part `e'` in `w'`. -/
inductive Part : Expr → World → Expr → World → Prop
  | item (items : List Expr) (w : World) (e' : Expr) (w' : World)
      (part : ItemPart lang c items w e' w') : Part (.list items) w e' w'
  | member (target : Expr) (s : String) (w : World) : Part (.member target s) w target w
  | indexed (target key : Expr) (w : World) : Part (.index target key) w target w
  | key (target key : Expr) (w : World) (t : Value) (w₁ : World)
      (done : target.eval lang c w = (.done t, w₁)) :
      Part (.index target key) w key (w₁.hold t.nodes)
  | argument (s : String) (arguments : List Expr) (w : World) (e' : Expr) (w' : World)
      (part : ItemPart lang c arguments w e' w') : Part (.call s arguments) w e' w'
  | sent (receiver : Expr) (s : String) (arguments : List Expr) (w : World) (e' : Expr)
      (w' : World) (part : ItemPart lang c arguments w e' w') :
      Part (.send receiver s arguments) w e' w'
  | receiver (receiver : Expr) (s : String) (arguments : List Expr) (w : World)
      (values : List Value) (w₁ : World) (done : evalAll lang c arguments w = (.done values, w₁)) :
      Part (.send receiver s arguments) w receiver (w₁.hold (Value.allNodes values))
  /-- The receiver is a list that the method changes, and the changed list is stored. -/
  | changed (receiver : Expr) (s : String) (arguments : List Expr) (w : World)
      (values : List Value) (w₁ : World) (t : Value) (w₂ : World) (value : Value)
      (items : List Value) (w₃ : World) (e' : Expr) (w' : World)
      (done : evalAll lang c arguments w = (.done values, w₁))
      (found : receiver.eval lang c (w₁.hold (Value.allNodes values)) = (.done t, w₂))
      (called : Context.callMethod lang t ⟨s, values⟩ (w₂.hold t.nodes) =
        (.done (value, some items), w₃))
      (part : PlacePart lang c (.list items) receiver (w₃.hold value.nodes) e' w') :
      Part (.send receiver s arguments) w e' w'
  | neg (operand : Expr) (w : World) : Part (.neg operand) w operand w
  | not (operand : Expr) (w : World) : Part (.not operand) w operand w
  | left (op : Operator) (left right : Expr) (w : World) : Part (.binary op left right) w left w
  | right (op : Operator) (left right : Expr) (w : World) (l : Value) (w₁ : World)
      (done : left.eval lang c w = (.done l, w₁)) :
      Part (.binary op left right) w right (w₁.hold l.nodes)
  | andLeft (left right : Expr) (w : World) : Part (.and left right) w left w
  | andRight (left right : Expr) (w : World) (l : Value) (w₁ : World)
      (done : left.eval lang c w = (.done l, w₁)) (truth : l.isTruthy = true) :
      Part (.and left right) w right w₁
  | orLeft (left right : Expr) (w : World) : Part (.or left right) w left w
  | orRight (left right : Expr) (w : World) (l : Value) (w₁ : World)
      (done : left.eval lang c w = (.done l, w₁)) (truth : l.isTruthy = false) :
      Part (.or left right) w right w₁
  | test (test yes no : Expr) (w : World) : Part (.choice test yes no) w test w
  | yes (test yes no : Expr) (w : World) (t : Value) (w₁ : World)
      (done : test.eval lang c w = (.done t, w₁)) (truth : t.isTruthy = true) :
      Part (.choice test yes no) w yes w₁
  | no (test yes no : Expr) (w : World) (t : Value) (w₁ : World)
      (done : test.eval lang c w = (.done t, w₁)) (truth : t.isTruthy = false) :
      Part (.choice test yes no) w no w₁
  | assigned (place value : Expr) (w : World) : Part (.assign place value) w value w
  | stored (place value : Expr) (w : World) (v : Value) (w₁ : World) (e' : Expr) (w' : World)
      (done : value.eval lang c w = (.done v, w₁))
      (part : PlacePart lang c v place (w₁.hold v.nodes) e' w') :
      Part (.assign place value) w e' w'

variable {lang : Language} [hl : lang.Orderly] {c : Context}

instance orderly_evaluated (e : Expr) : (e.eval lang c).Orderly := Expr.orderly_eval hl c e

instance orderly_evaluatedAll (es : List Expr) : (evalAll lang c es).Orderly :=
  Expr.orderly_evalAll hl c es

instance orderly_stored (place : Expr) (value : Value) : (writeBack lang c value place).Orderly :=
  Expr.orderly_writeBack hl c place value

/-- Storing a value under a key of what was found at a place. -/
def storeItem (lang : Language) (c : Context) (value : Value) (target : Expr) (key found : Value) :
    Action Unit := do
  let shown ← Action.inspect (·.text key)
  match found with
  | .node n => do
      let _ ← c.store n shown value
      pure ()
  | .list items =>
      match key.index?.filter (· < items.length) with
      | some i => writeBack lang c (.list (items.set i value)) target
      | none => Action.fault (.notAssignable ("index " ++ shown))
  | other => Action.fault (.notAssignable ("[" ++ shown ++ "] of " ++ other.typeName))

omit hl in
theorem writeBack_index (value : Value) (target key : Expr) :
    writeBack lang c value (.index target key) = (do
      let k ← key.eval lang c
      let found ← Action.holding k.nodes (target.eval lang c)
      Action.holding (k.nodes ++ found.nodes) (storeItem lang c value target k found)) := by
  rw [writeBack]
  rfl

/-- The value of a call, after the list that it has changed is stored. -/
def storeChanged (lang : Language) (c : Context) (receiver : Expr)
    (result : Value × Option (List Value)) : Action Value := do
  let (value, changed) := result
  match changed with
  | some items => do
      Action.holding value.nodes (writeBack lang c (.list items) receiver)
      pure value
  | none => pure value

omit hl in
theorem eval_send (receiver : Expr) (s : String) (arguments : List Expr) :
    eval lang c (.send receiver s arguments) = (do
      let values ← evalAll lang c arguments
      Action.holding (Value.allNodes values) do
        let target ← receiver.eval lang c
        Action.holding target.nodes
          (Context.callMethod lang target ⟨s, values⟩ >>= storeChanged lang c receiver)) := by
  rw [eval]
  rfl

/-- The value of an assignment, after it is stored. -/
def storeAssigned (lang : Language) (c : Context) (place : Expr) (value : Value) :
    Action Value :=
  match place with
  | .name s =>
      if (c.binding s).isSome then Action.fault (.notAssignable s)
      else do
        let _ ← c.assign s value
        pure value
  | place =>
      if place.isPlace then do
        Action.holding value.nodes (writeBack lang c value place)
        pure value
      else Action.fault (.notAssignable place.report)

omit hl in
theorem eval_assign (place value : Expr) :
    eval lang c (.assign place value) = value.eval lang c >>= storeAssigned lang c place := by
  rw [eval]
  rfl

instance orderly_storeChanged (receiver : Expr) (result : Value × Option (List Value)) :
    (storeChanged lang c receiver result).Orderly := by
  obtain ⟨value, _ | items⟩ := result
  · exact Action.orderly_pure value
  · rw [storeChanged]
    infer_instance

instance orderly_storeAssigned (place : Expr) (value : Value) :
    (storeAssigned lang c place value).Orderly := by
  unfold storeAssigned
  split <;> infer_instance

instance orderly_storeItem (value : Value) (target : Expr) (key found : Value) :
    (storeItem lang c value target key found).Orderly := by
  rw [storeItem]
  refine Action.Orderly.bind inferInstance fun shown => ?_
  split
  · infer_instance
  · split <;> infer_instance
  · infer_instance

theorem visits_itemPart {es : List Expr} {w w' : World} {e' : Expr}
    (h : ItemPart lang c es w e' w') : (evalAll lang c es).Visits w (e'.eval lang c) w' := by
  induction h with
  | head e rest w =>
      rw [evalAll]
      exact (Action.visits_self (e.eval lang c) w).bind _
  | tail e rest w value w₁ e' w' done part ih =>
      rw [evalAll]
      refine Action.Visits.after value done ?_
      exact ih.holding.bind _

theorem visits_placePart {value : Value} {place : Expr} {w w' : World} {e' : Expr}
    (h : PlacePart lang c value place w e' w') :
    (writeBack lang c value place).Visits w (e'.eval lang c) w' := by
  induction h with
  | target value target s w =>
      rw [writeBack]
      exact (Action.visits_self (target.eval lang c) w).bind _
  | key value target key w =>
      rw [writeBack_index]
      exact (Action.visits_self (key.eval lang c) w).bind _
  | keyed value target key w k w₁ done =>
      rw [writeBack_index]
      refine Action.Visits.after k done ?_
      exact (Action.visits_self (target.eval lang c) _).holding.bind _
  | listed value target key w k w₁ items w₂ i e' w' done found place part ih =>
      rw [writeBack_index]
      refine Action.Visits.after k done ?_
      have hfound : Action.holding k.nodes (target.eval lang c) w₁ =
          (.done (.list items), { w₂ with held := w₁.held }) := by
        show ((target.eval lang c (w₁.hold k.nodes)).1,
          { (target.eval lang c (w₁.hold k.nodes)).2 with held := w₁.held }) = _
        rw [found]
      refine Action.Visits.after (.list items) hfound ?_
      have hstore : (storeItem lang c value target k (.list items)).Visits
          (({ w₂ with held := w₁.held } : World).hold (k.nodes ++ (Value.list items).nodes))
          (e'.eval lang c) w' := by
        refine Action.Visits.after _ (Action.inspect_apply _ _) ?_
        simp only [place]
        exact ih
      exact hstore.holding

/-- A failure of a part is the failure of the expression, at once. -/
theorem visits_part {e e' : Expr} {w w' : World} (h : Part lang c e w e' w') :
    (e.eval lang c).Visits w (e'.eval lang c) w' := by
  cases h with
  | item items w e' w' part =>
      rw [eval]
      exact (visits_itemPart part).map _
  | member target s w =>
      rw [eval]
      exact (Action.visits_self _ _).bind _
  | indexed target key w =>
      rw [eval]
      exact (Action.visits_self _ _).bind _
  | key target key w t w₁ done =>
      rw [eval]
      refine Action.Visits.after t done ?_
      exact ((Action.visits_self _ _).bind _).holding
  | argument s arguments w e' w' part =>
      rw [eval]
      exact (visits_itemPart part).bind _
  | sent receiver s arguments w e' w' part =>
      rw [eval_send]
      exact (visits_itemPart part).bind _
  | receiver receiver s arguments w values w₁ done =>
      rw [eval_send]
      refine Action.Visits.after values done ?_
      exact ((Action.visits_self _ _).bind _).holding
  | changed receiver s arguments w values w₁ t w₂ value items w₃ e' w' done found called part =>
      rw [eval_send]
      refine Action.Visits.after values done (Action.Visits.holding ?_)
      refine Action.Visits.after t found (Action.Visits.holding ?_)
      refine Action.Visits.after (value, some items) called ?_
      exact (visits_placePart part).holding.bind _
  | neg operand w =>
      rw [eval]
      exact (Action.visits_self _ _).bind _
  | not operand w =>
      rw [eval]
      exact (Action.visits_self _ _).bind _
  | left op left right w =>
      rw [eval]
      exact (Action.visits_self _ _).bind _
  | right op left right w l w₁ done =>
      rw [eval]
      refine Action.Visits.after l done ?_
      exact ((Action.visits_self _ _).bind _).holding
  | andLeft left right w =>
      rw [eval]
      exact (Action.visits_self _ _).bind _
  | andRight left right w l w₁ done truth =>
      rw [eval]
      refine Action.Visits.after l done ?_
      rw [if_pos truth]
      exact (Action.visits_self _ _).bind _
  | orLeft left right w =>
      rw [eval]
      exact (Action.visits_self _ _).bind _
  | orRight left right w l w₁ done truth =>
      rw [eval]
      refine Action.Visits.after l done ?_
      rw [if_neg (ne_true_of_eq_false truth)]
      exact (Action.visits_self _ _).bind _
  | test test yes no w =>
      rw [eval]
      exact (Action.visits_self _ _).bind _
  | yes test yes no w t w₁ done truth =>
      rw [eval]
      refine Action.Visits.after t done ?_
      rw [if_pos truth]
      exact Action.visits_self _ _
  | no test yes no w t w₁ done truth =>
      rw [eval]
      refine Action.Visits.after t done ?_
      rw [if_neg (ne_true_of_eq_false truth)]
      exact Action.visits_self _ _
  | assigned place value w =>
      rw [eval_assign]
      exact (Action.visits_self _ _).bind _
  | stored place value w v w₁ e' w' done part =>
      rw [eval_assign]
      refine Action.Visits.after v done ?_
      have hstore := (visits_placePart part).holding.bind fun _ => pure v
      -- Only members and items have parts, so the place is one of them.
      cases place with
      | member target s => exact hstore
      | index target key => exact hstore
      | _ => cases part

end Expr

end ScriptTree
