import ScriptTree.Json.Lenient
import ScriptTree.Node.Literal
import ScriptTree.Node.Write

/-!
# Loading JSON

A JSON object becomes a node: its objects become child nodes named after their keys, all other
members are stored first. `introspect` then carries out the instructions that a node holds, of
children before parents. `appendJson` merges such a node into another, `insertJson` stores it.
-/

set_option autoImplicit false

namespace ScriptTree

namespace World

/-- Stores the members of an object in a node, with an empty named child for each member that is an
object; the children in order. -/
def putMembers (n : NodeId) : List (String × Json) → World → List NodeId × World
  | [], w => ([], w)
  | (key, .object _) :: rest, w =>
      let (child, w) := w.create (w.cell n).engined
      let (children, w) := putMembers n rest ((w.setName child key).put n key (.node child))
      (child :: children, w)
  | (key, member) :: rest, w =>
      let (value, w) := w.build (some n) member
      putMembers n rest (w.put n key value)

end World

namespace NodeId

mutual

/-- Fills a node with the members of an object, fills its children, and introspects it. -/
def materialize (introspect : NodeId → Action Unit) (n : NodeId) : Json → Action Unit
  | .object members => do
      let children ← Action.update (World.putMembers n members)
      materializeAll introspect children members
      introspect n
  | _ => pure ()
  termination_by structural json => json

/-- Fills the children that were created for those of the members that are objects. -/
def materializeAll (introspect : NodeId → Action Unit) (children : List NodeId) :
    List (String × Json) → Action Unit
  | [] => pure ()
  | (_, member) :: rest =>
      match member, children with
      | .object _, child :: others => do
          Action.holding children (materialize introspect child member)
          materializeAll introspect others rest
      | _, _ => materializeAll introspect children rest
  termination_by structural members => members

end

/-- The node of a JSON text, whose value has to be an object. Its parent is the given node. -/
def newChild (introspect : NodeId → Action Unit) (n : NodeId) (text : String) : Action NodeId :=
  match Json.readLenient? text with
  | none => Action.fail (.invalidJson (.reader "malformed text"))
  | some (.object members) => do
      let item ← Action.update (World.createUnder · (some n))
      Action.holding [item] (item.materialize introspect (.object members))
      pure item
  | some other => Action.fail (.invalidLiteral other.typeName)

/-- Merges the entries of one node into another. -/
def mergeFrom (n item : NodeId) : Action Unit :=
  Action.change fun w => w.merge n (w.cell item).entries

/-- Merges the node of a JSON text. -/
def appendJson (introspect : NodeId → Action Unit) (n : NodeId) (text : String) : Action Unit := do
  let item ← n.newChild introspect text
  n.mergeFrom item

/-- Stores the node of a JSON text under a key. -/
def insertJson (introspect : NodeId → Action Unit) (n : NodeId) (key text : String) :
    Action Unit := do
  let item ← n.newChild introspect text
  Action.change fun w => (w.setName item key).put n key (.node item)

end NodeId

end ScriptTree
