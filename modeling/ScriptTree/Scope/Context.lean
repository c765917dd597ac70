import ScriptTree.Scope.Frame
import ScriptTree.World.Lineage

/-!
# Contexts of evaluation

The nodes that a statement sees: the node itself, its parent, the local frame and the static node,
each under a reserved name. Where there is no frame, or no static node because the node has no
engine, a fresh node stands in. A `Language` says what statements and templates mean in a context.
-/

set_option autoImplicit false

namespace ScriptTree

/-- The nodes that a statement sees. -/
structure Context where
  this : NodeId
  parent : Option NodeId
  frame : NodeId
  static : NodeId
  deriving DecidableEq, Repr

/-- The meaning of templates and of statements in a context. -/
structure Language where
  expand : Context → String → Action String
  evaluate : Context → String → Action Value

namespace Context

/-- The value under a reserved name. -/
def binding (c : Context) (name : String) : Option Value :=
  if name = "$self" then some (.node c.this)
  else if name = "$parent" then some (Value.ofNode? c.parent)
  else if name = "$local" then some (.node c.frame)
  else if name = "$static" then some (.node c.static)
  else none

/-- The nodes that a context holds. -/
def nodes (c : Context) : List NodeId := c.this :: c.frame :: c.static :: c.parent.toList

/-- The context of a node. -/
def create (n : NodeId) : Action Context := fun w =>
  let parent := w.parent? n
  let (frame, w) := match w.frames with
    | frame :: _ => (frame, w)
    | [] => w.create false
  let (static, w) := if (w.cell n).engined then (w.static, w) else w.create false
  (.done ⟨n, parent, frame, static⟩, w)

end Context

/-- Runs an action in the context of a node, whose nodes it holds. -/
def NodeId.within {α : Type} (n : NodeId) (a : Context → Action α) : Action α := do
  let c ← Context.create n
  Action.holding c.nodes (a c)

end ScriptTree
