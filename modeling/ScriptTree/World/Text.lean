import ScriptTree.Value.Text
import ScriptTree.World.Lineage

/-!
# Printing in a world

The JSON object of a node, the snapshot that leaves out what is empty, and the texts of values and
failures, given the nodes of a world. Objects of nodes that hold each other in a circle are cut off
at the number of nodes.
-/

set_option autoImplicit false

namespace ScriptTree.World

/-- Details of readers are shown as they are. -/
def rendering (w : World) (object : NodeId → Json) : Rendering := ⟨w.path, object, id⟩

/-- The object of a node's entries, with nested nodes down to the depth of the fuel. -/
def objectWithin (w : World) : Nat → NodeId → Json
  | 0, _ => .object []
  | fuel + 1, n =>
      let object := w.objectWithin fuel
      .object ((w.cell n).entries.mapValues fun v => v.json (w.rendering object) object)

/-- The object of a node's entries. -/
def object (w : World) (n : NodeId) : Json := w.objectWithin (w.cells.size + 1) n

/-- What printing needs to know of this world. -/
def view (w : World) : Rendering := w.rendering w.object

/-- The JSON form of a value. -/
def json (w : World) (v : Value) : Json := v.json w.view w.object

/-- The text of a value. -/
def text (w : World) (v : Value) : String := v.show w.view

/-- The sentence that reports a failure. -/
def message (w : World) (f : Failure) : String := f.message w.view

/-- The values are equal. -/
def same (w : World) (a b : Value) : Bool := a.same w.view b

/-- Null, the empty text, the empty list and a node without entries are empty. -/
def isEmpty (w : World) : Value → Bool
  | .null => true
  | .text s => s.isEmpty
  | .list items => items.isEmpty
  | .node n => (w.cell n).entries.isEmpty
  | _ => false

/-- The object of a node's entries that are not empty, down to the depth of the fuel. -/
def snapshotWithin (w : World) : Nat → NodeId → Json
  | 0, _ => .object []
  | fuel + 1, n =>
      let kept := (w.cell n).entries.filter fun p => !w.isEmpty p.2
      .object (Entries.mapValues (fun v => v.json w.view (w.snapshotWithin fuel)) kept)

/-- The JSON form of a value without the empty entries of nodes. -/
def snapshot (w : World) (v : Value) : Json :=
  v.json w.view (w.snapshotWithin (w.cells.size + 1))

/-- The snapshot of a node as an indented text. -/
def snapshotText (w : World) (n : NodeId) : String := (w.snapshot (.node n)).pretty

end ScriptTree.World
