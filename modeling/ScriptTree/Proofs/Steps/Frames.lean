import ScriptTree.Proofs.Run.Interpreter

/-!
# Frames of sequences of steps

Whatever a call does and however it ends, the local frames are the same after it, in the same order,
and every event of a sequence of steps inside it is indented by two blanks for each frame at its
moment: those that were there before the call, and those of the sequences that are open then
(`operations_keep_frames`).
-/

set_option autoImplicit false

namespace ScriptTree

/-- The action leaves the frames of every world as they are. Each event that it adds stands above
those frames and others that the action itself has opened, and is indented by all of them when it
is about a sequence of steps. -/
def Action.KeepsFrames {α : Type} (a : Action α) : Prop :=
  ∀ w : World, (a w).2.frames = w.frames ∧
    ∃ emitted, (a w).2.trace = emitted ++ w.trace ∧
      ∀ e ∈ emitted, e.Indented ∧
        ∃ opened, e.frames = opened ++ w.frames ∧ ∀ f ∈ opened, w.cells.size ≤ f.index

theorem Action.keepsFrames_of_orderly {α : Type} (a : Action α) [ha : a.Orderly] :
    a.KeepsFrames := by
  intro w
  have h := ha.continues w
  obtain ⟨emitted, htrace, hemitted⟩ := h.trace
  refine ⟨h.frames, emitted, htrace, ?_⟩
  intro e he
  exact ⟨(hemitted e he).indented, (hemitted e he).opened⟩

/-- Calls keep the frames, whatever calls of the language are nested inside them. -/
theorem operations_keep_frames (fuel : Nat) (n : NodeId) :
    (∀ text arguments, (n.steps (.ofFuel fuel) text arguments).KeepsFrames) ∧
    (∀ key arguments, (n.call (.ofFuel fuel) key arguments).KeepsFrames) ∧
    (n.run (.ofFuel fuel)).KeepsFrames ∧
    (∀ test yes, (n.ifThen (.ofFuel fuel) test yes).KeepsFrames) ∧
    (∀ test yes no, (n.ifThenElse (.ofFuel fuel) test yes no).KeepsFrames) ∧
    (∀ test operations limit, (n.whileDo (.ofFuel fuel) test operations limit).KeepsFrames) ∧
    (∀ operations handler, (n.tryExcept (.ofFuel fuel) operations handler).KeepsFrames) ∧
    (∀ text, (n.eval (.ofFuel fuel) text).KeepsFrames) ∧
    (∀ text, (n.expand (.ofFuel fuel) text).KeepsFrames) ∧
    (∀ text, (n.appendJson (NodeId.introspect (.ofFuel fuel)) text).KeepsFrames) ∧
    (∀ call, (n.invoke (.ofFuel fuel) call).KeepsFrames) := by
  refine ⟨?_, ?_, ?_, ?_, ?_, ?_, ?_, ?_, ?_, ?_, ?_⟩
  all_goals intros
  all_goals exact Action.keepsFrames_of_orderly _

end ScriptTree
