import ScriptTree.Call
import ScriptTree.Load.Directive
import ScriptTree.Steps.Control

/-!
# Operations on nodes by name

Scripts call operations of nodes by name, with values as arguments. Operations that give back the
node itself make calls in a row possible.
-/

set_option autoImplicit false

namespace ScriptTree

namespace World

/-- The operations of a loop that takes every item of a list as one, nulls included. -/
def allTexts (w : World) : Value → List String
  | .list items => items.map w.text
  | value => [w.text value]

end World

namespace NodeId

/-- Carries out the operation of a name on the node. -/
def invoke (lang : Language) (n : NodeId) (call : Call) : Action Value := do
  match call.method with
  | "whileDo" =>
      let test ← call.text 0
      let operations ← call.value 1
      let limit ← call.count 2
      let operations ← Action.inspect (·.stepsList operations)
      n.whileDo lang test operations limit
      pure (.node n)
  | "whileDoAll" =>
      let operations ← call.value 1
      let operations ← Action.inspect (·.allTexts operations)
      let test ← call.text 0
      let limit ← call.count 2
      n.whileDo lang test operations limit
      pure (.node n)
  | "ifThen" =>
      let test ← call.text 0
      let yes ← call.value 1
      n.ifThen lang test yes
      pure (.node n)
  | "ifThenElse" =>
      let test ← call.text 0
      let yes ← call.value 1
      let no ← call.value 2
      n.ifThenElse lang test yes no
      pure (.node n)
  | "tryExcept" =>
      let operations ← call.value 0
      let handler ← call.value 1
      n.tryExcept lang operations handler
      pure (.node n)
  | "steps" =>
      let script ← call.text 0
      let entries ← Action.inspect (call.entries · 1)
      n.steps lang script entries
  | "call" =>
      let key ← call.text 0
      let entries ← Action.inspect (call.entries · 1)
      n.call lang key entries
  | "run" => n.run lang
  | "getItem" =>
      let path ← call.text 0
      .node <$> n.getItem lang path
  | "path" => .text <$> Action.inspect (·.path n)
  | "getName" =>
      Action.inspect fun w => match (w.cell n).name with
        | some name => .text name
        | none => .null
  | "getParent" => Action.inspect fun w => Value.ofNode? (w.parent? n)
  | "getRoot" => Action.inspect fun w => .node (w.root n)
  | "appendFromJson" =>
      let json ← call.text 0
      n.appendJson (introspect lang) json
      pure (.node n)
  | "insertFromJson" =>
      let key ← call.text 0
      let json ← call.text 1
      n.insertJson (introspect lang) key json
      pure (.node n)
  | "appendFromXml" =>
      let document ← call.text 0
      Document.append (introspect lang) lang n "(inline)" document
      pure (.node n)
  | "toJson" => .text <$> Action.inspect (·.snapshotText n)
  | "maybeDelay" =>
      let _ ← n.delay lang
      pure (.node n)
  | "get" =>
      let key ← call.text 0
      (·.getD .null) <$> n.get lang key
  | "put" =>
      let key ← call.text 0
      let stored ← call.value 1
      (·.getD .null) <$> n.put key stored
  | "putStatic" =>
      let key ← call.text 0
      let stored ← call.value 1
      (·.getD .null) <$> n.putStatic key stored
  | "containsKey" =>
      let key ← call.text 0
      .bool <$> Action.inspect (·.containsKey n key)
  | "size" => Action.inspect fun w => Value.ofNat (w.cell n).entries.length
  | "isEmpty" => Action.inspect fun w => .bool (w.cell n).entries.isEmpty
  | "keys" => Action.inspect fun w => .list ((w.keys n).map .text)
  | "remove" =>
      let key ← call.text 0
      (·.getD .null) <$> n.remove key
  | "expand" =>
      let template ← call.text 0
      .text <$> n.expand lang template
  | "eval" =>
      let script ← call.text 0
      n.eval lang script
  | "return" => Action.fail (.returning call.first)
  | _ => do
      let path ← Action.inspect (·.path n)
      Action.fail (.script (.unknownOperation call.method path))

end NodeId

end ScriptTree
