import ScriptTree.Scope.Context
import ScriptTree.Script.Statement
import ScriptTree.World.Text

/-!
# Reading nodes

A text that a node with an engine holds is a template: reading it expands it every time, and leaves
it as it is stored. A name is resolved on the node itself, then on each ancestor. Scripts are
evaluated statement by statement, and a failure names the statement that failed.
-/

set_option autoImplicit false

namespace ScriptTree

namespace World

/-- Templates on the node are expanded. -/
def expandsOn (w : World) (n : NodeId) : Bool := (w.cell n).engined && w.engine.expands

/-- Scripts can run on the node. -/
def evaluatesOn (w : World) (n : NodeId) : Bool := (w.cell n).engined && w.engine.evaluates

end World

/-- Evaluates statements in order, with the value of the last one, or of the one before them. -/
def Language.evaluateAll (lang : Language) (c : Context) : List String → Value → Action Value
  | [], last => pure last
  | statement :: rest, last => do
      let value ← Action.holding last.nodes <|
        Action.mapFailure (.evaluation statement) (lang.evaluate c statement)
      lang.evaluateAll c rest value

namespace NodeId

/-- The text of a template on the node. -/
def expand (lang : Language) (n : NodeId) (text : String) : Action String := do
  if ← Action.inspect (·.expandsOn n) then n.within fun c => lang.expand c text
  else pure text

/-- Evaluates the statements of a script on the node in one context. -/
def eval (lang : Language) (n : NodeId) (text : String) : Action Value := do
  if ← Action.inspect (·.evaluatesOn n) then
    n.within fun c => lang.evaluateAll c (Script.statements text) .null
  else Action.fail (.noEvaluator text)

/-- A stored value as it is read: texts are expanded. -/
def readValue (lang : Language) (n : NodeId) : Value → Action Value
  | .text s => .text <$> n.expand lang s
  | value => pure value

/-- The value under a key. -/
def get (lang : Language) (n : NodeId) (key : String) : Action (Option Value) := do
  match ← Action.inspect (·.getRaw n key) with
  | some value => some <$> n.readValue lang value
  | none => pure none

/-- The text of the value under a key. -/
def getText (lang : Language) (n : NodeId) (key : String) : Action (Option String) := do
  match ← n.get lang key with
  | some value => some <$> Action.inspect (·.text value)
  | none => pure none

/-- The value under a key, of the node itself or of the nearest ancestor that holds the key. -/
def resolve (lang : Language) (n : NodeId) (key : String) : Action (Option Value) := do
  match ← Action.inspect (·.holder? n key) with
  | some holder => Action.holding [holder] (holder.get lang key)
  | none => pure none

/-- Follows names from a value: keys of nodes and positions in lists. -/
def findFrom (lang : Language) : List String → Value → Action (Option Value)
  | [], value => pure (some value)
  | name :: rest, .node m => do
      match ← Action.holding [m] (m.get lang name) with
      | some value => findFrom lang rest value
      | none => pure none
  | name :: rest, .list items =>
      match Number.readUnsigned64 name.toList with
      | .ok i =>
          match items[i.toNat]? with
          | some value => findFrom lang rest value
          | none => pure none
      | .error _ => pure none
  | _ :: _, _ => pure none

/-- The names between the points of a path, without blanks around them and without empty ones. -/
def pathNames (path : String) : List String :=
  (((Text.splitAt '.' path.toList).map Text.trim).filter (!·.isEmpty)).map String.ofList

/-- The value that a path of stored keys leads to. -/
def find (lang : Language) (n : NodeId) (path : String) : Action (Option Value) :=
  findFrom lang (pathNames path) (.node n)

/-- Evaluates a path that leads to a node. -/
def getItem (lang : Language) (n : NodeId) (path : String) : Action NodeId := do
  match ← n.eval lang path with
  | .node m => pure m
  | other => Action.fail (.typeMismatch path "node" other.typeName)

/-- The milliseconds of a setting: a number that is not negative, or a text of decimal digits. -/
def delayOf? : Value → Option Nat
  | .number x => x.unsigned?.map Int.toNat
  | .text s => (Value.text s).index?
  | _ => none

/-- The pause between operations on the node, in milliseconds. -/
def delay (lang : Language) (n : NodeId) : Action Nat := do
  let configured ← n.get lang "$delay"
  let default ← Action.inspect fun w => if (w.cell n).engined then w.engine.delay else 0
  pure ((configured.bind delayOf?).getD default)

end NodeId

namespace Context

/-- The value of a bare name: a reserved one, or of the local frame, of the node or the nearest
ancestor that holds it, or of the static node. -/
def lookup (lang : Language) (c : Context) (name : String) : Action (Option Value) := do
  match c.binding name with
  | some value => pure (some value)
  | none =>
      match ← Action.inspect (·.getRaw c.frame name) with
      | some value => pure (some value)
      | none =>
          match ← c.this.resolve lang name with
          | some value => pure (some value)
          | none => Action.inspect (·.getRaw c.static name)

/-- The node whose entry a bare name is read from. Reserved names are in no entry. -/
def holder? (c : Context) (w : World) (name : String) : Option NodeId :=
  if (c.binding name).isSome then none
  else if w.containsKey c.frame name then some c.frame
  else (w.holder? c.this name).or (if w.containsKey c.static name then some c.static else none)

end Context

end ScriptTree
