import ScriptTree.World.Action

/-!
# Local frames

Each sequence of steps has a frame of its own, a node without engine that binds its arguments. The
frames stand in a stack with the innermost first. Dropping a frame drops those that were pushed
after it too, and dropping one that is gone changes nothing (`below_of_not_mem`).
-/

set_option autoImplicit false

namespace ScriptTree

namespace Scope

/-- What is left of a stack of frames after a frame is dropped. -/
def below (frames : List NodeId) (frame : NodeId) : List NodeId :=
  if frames.contains frame then (frames.dropWhile fun f => f != frame).drop 1 else frames

theorem below_of_not_mem {frames : List NodeId} {frame : NodeId} (h : frame ∉ frames) :
    below frames frame = frames := by
  simp [below, h]

@[simp] theorem below_cons_self (frames : List NodeId) (frame : NodeId) :
    below (frame :: frames) frame = frames := by
  simp [below]

theorem below_cons_of_mem {frames : List NodeId} {frame f : NodeId} (hne : f ≠ frame)
    (h : frame ∈ frames) : below (f :: frames) frame = below frames frame := by
  simp [below, h, hne]

end Scope

namespace World

/-- Pushes a frame that binds arguments. Nodes among them keep their parents. -/
def pushFrame (w : World) (arguments : List (String × Value)) : NodeId × World :=
  let (frame, w) := w.create false
  let w := arguments.foldl (fun w p => w.set frame p.1 p.2) w
  (frame, { w with frames := frame :: w.frames })

/-- Drops a frame and those inside it. -/
def dropFrame (w : World) (frame : NodeId) : World :=
  { w with frames := Scope.below w.frames frame }

end World

/-- Runs an action with a frame of its own. -/
def Action.withFrame {α : Type} (arguments : List (String × Value)) (a : Action α) : Action α :=
  fun w =>
    let (frame, w) := w.pushFrame arguments
    let (outcome, w) := a w
    (outcome, w.dropFrame frame)

end ScriptTree
