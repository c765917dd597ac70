import ScriptTree.World.Basic

/-!
# Actions

An action runs in a world and leaves a world behind. It is done with a value, fails with a cause,
or runs out of the fuel that bounds nested evaluation; what it changed before a failure stays
changed. `attempt` turns a failure into a value, and `holding` keeps nodes alive during an action.
-/

set_option autoImplicit false

namespace ScriptTree

/-- How an action ends. -/
inductive Outcome (α : Type) where
  | done (value : α)
  | failed (cause : Failure)
  /-- The fuel of nested evaluation is used up. -/
  | exhausted

/-- An outcome with another value. -/
def Outcome.map {α β : Type} (f : α → β) : Outcome α → Outcome β
  | .done value => .done (f value)
  | .failed cause => .failed cause
  | .exhausted => .exhausted

/-- A computation that may change the world. -/
def Action (α : Type) : Type := World → Outcome α × World

namespace Action

variable {α β : Type}

/-- Nothing but a value. -/
protected def pure (value : α) : Action α := fun w => (.done value, w)

/-- One action after another. -/
protected def bind (a : Action α) (next : α → Action β) : Action β := fun w =>
  match a w with
  | (.done value, w) => next value w
  | (.failed cause, w) => (.failed cause, w)
  | (.exhausted, w) => (.exhausted, w)

instance : Monad Action where
  pure := Action.pure
  bind := Action.bind

/-- What a function sees in the world. -/
def inspect (f : World → α) : Action α := fun w => (.done (f w), w)

/-- Changes the world. -/
def change (f : World → World) : Action Unit := fun w => (.done (), f w)

/-- Changes the world and gives a value. -/
def update (f : World → α × World) : Action α := fun w =>
  let (value, w) := f w
  (.done value, w)

/-- Fails. -/
def fail (cause : Failure) : Action α := fun w => (.failed cause, w)

/-- Gives up for lack of fuel. -/
def exhaust : Action α := fun w => (.exhausted, w)

/-- The value of a result, or its failure. -/
def ofExcept : Except Failure α → Action α
  | .ok value => Action.pure value
  | .error cause => fail cause

/-- The value of an action, or the cause of its failure. -/
def attempt (a : Action α) : Action (Except Failure α) := fun w =>
  match a w with
  | (.done value, w) => (.done (.ok value), w)
  | (.failed cause, w) => (.done (.error cause), w)
  | (.exhausted, w) => (.exhausted, w)

/-- Rewords a failure of an action. -/
def mapFailure (f : Failure → Failure) (a : Action α) : Action α := fun w =>
  match a w with
  | (.failed cause, w) => (.failed (f cause), w)
  | result => result

/-- Changes the world before an action and again after it, however it ends. -/
def within (enter leave : World → World) (a : Action α) : Action α := fun w =>
  let (outcome, w) := a (enter w)
  (outcome, leave w)

/-- Keeps nodes alive during an action. -/
def holding (nodes : List NodeId) (a : Action α) : Action α := fun w =>
  let before := w.held
  let (outcome, w) := a { w with held := nodes ++ before }
  (outcome, { w with held := before })

@[simp] theorem pure_apply (value : α) (w : World) :
    (pure value : Action α) w = (.done value, w) := rfl

theorem bind_apply (a : Action α) (next : α → Action β) (w : World) :
    (a >>= next) w =
      match a w with
      | (.done value, w) => next value w
      | (.failed cause, w) => (.failed cause, w)
      | (.exhausted, w) => (.exhausted, w) := rfl

theorem bind_eq_done {a : Action α} {next : α → Action β} {w w' : World} {value : β}
    (h : (a >>= next) w = (.done value, w')) :
    ∃ first w₁, a w = (.done first, w₁) ∧ next first w₁ = (.done value, w') := by
  rw [bind_apply] at h
  rcases ha : a w with ⟨first | cause | _, w₁⟩
  · rw [ha] at h
    exact ⟨first, w₁, rfl, h⟩
  · rw [ha] at h
    cases h
  · rw [ha] at h
    cases h

@[simp] theorem inspect_apply (f : World → α) (w : World) : inspect f w = (.done (f w), w) := rfl

theorem inspect_bind_apply (f : World → α) (next : α → Action β) (w : World) :
    (inspect f >>= next) w = next (f w) w := rfl

@[simp] theorem change_apply (f : World → World) (w : World) : change f w = (.done (), f w) := rfl

@[simp] theorem fail_apply (cause : Failure) (w : World) :
    (fail cause : Action α) w = (.failed cause, w) := rfl

@[simp] theorem attempt_pure (value : α) : attempt (Action.pure value) = pure (.ok value) := rfl

@[simp] theorem attempt_fail (cause : Failure) :
    attempt (fail cause : Action α) = pure (.error cause) := rfl

theorem pure_bind (value : α) (next : α → Action β) : pure value >>= next = next value := rfl

theorem bind_pure (a : Action α) : a >>= pure = a := by
  funext w
  rw [bind_apply]
  rcases a w with ⟨_ | _ | _, w⟩ <;> rfl

theorem bind_assoc {γ : Type} (a : Action α) (f : α → Action β) (g : β → Action γ) :
    a >>= f >>= g = a >>= fun value => f value >>= g := by
  funext w
  simp only [bind_apply]
  rcases a w with ⟨_ | _ | _, w⟩ <;> rfl

instance : LawfulMonad Action :=
  LawfulMonad.mk' Action bind_pure pure_bind bind_assoc

theorem holding_held (nodes : List NodeId) (a : Action α) (w : World) :
    (holding nodes a w).2.held = w.held := rfl

end Action

end ScriptTree
