import ScriptTree.Json.Basic
import ScriptTree.World.Action

/-!
# Nodes from JSON

The value of a JSON value, with a fresh node for each object. With an owner the nodes have an
engine when it has one, and each is linked to the node that holds it or its list; without one they
are plain.
-/

set_option autoImplicit false

namespace ScriptTree.World

/-- A fresh node, linked to its owner and with an engine when it has one. -/
def createUnder (w : World) : Option NodeId → NodeId × World
  | none => w.create false
  | some owner =>
      let (n, w) := w.create (w.cell owner).engined
      (n, w.setParent n (some owner))

mutual

/-- The value of a JSON value. -/
def build (owner : Option NodeId) : Json → World → Value × World
  | .null, w => (.null, w)
  | .bool b, w => (.bool b, w)
  | .number n, w => (.number n, w)
  | .text s, w => (.text s, w)
  | .array items, w =>
      let (values, w) := buildAll owner items w
      (.list values, w)
  | .object members, w =>
      let (n, w) := w.createUnder owner
      (.node n, buildMembers owner n members w)
  termination_by structural json => json

/-- The values of a list of JSON values. -/
def buildAll (owner : Option NodeId) : List Json → World → List Value × World
  | [], w => ([], w)
  | item :: rest, w =>
      let (value, w) := build owner item w
      let (values, w) := buildAll owner rest w
      (value :: values, w)
  termination_by structural items => items

/-- Stores the members of a JSON object in a node. -/
def buildMembers (owner : Option NodeId) (n : NodeId) : List (String × Json) → World → World
  | [], w => w
  | (key, member) :: rest, w =>
      let (value, w) := build (owner.map fun _ => n) member w
      buildMembers owner n rest (w.put n key value)
  termination_by structural members => members

end

end ScriptTree.World
