import ScriptTree.Node.Read

/-!
# Writing nodes

Storing gives back what was stored before. `put` adopts a node that it stores; a local frame only
binds values, so storing through a context (`Context.store`) adopts everywhere but there.
-/

set_option autoImplicit false

namespace ScriptTree

namespace NodeId

/-- Stores a value and adopts it when it is a node; the previous value. -/
def put (n : NodeId) (key : String) (value : Value) : Action (Option Value) :=
  Action.update fun w => (w.getRaw n key, w.put n key value)

/-- Stores a value as it is; the previous value. -/
def set (n : NodeId) (key : String) (value : Value) : Action (Option Value) :=
  Action.update fun w => (w.getRaw n key, w.set n key value)

/-- Removes a key; the previous value. -/
def remove (n : NodeId) (key : String) : Action (Option Value) :=
  Action.update fun w => (w.getRaw n key, w.remove n key)

/-- Stores a value in the static node; the previous value. Without an engine nothing happens. -/
def putStatic (n : NodeId) (key : String) (value : Value) : Action (Option Value) :=
  Action.update fun w =>
    if (w.cell n).engined then (w.getRaw w.static key, w.put w.static key value) else (none, w)

/-- The starts of keys that are instructions to the loader. -/
def directiveStarts : List String :=
  ["$onload", "$json", "$xml", "$properties", "$currentDirectory"]

/-- The key is an instruction to the loader. -/
def isDirectiveKey (key : String) : Bool :=
  directiveStarts.any fun start => start.toList.isPrefixOf key.toList

end NodeId

namespace World

/-- Stores values in order, without instructions to the loader and without keys that the node
holds already. -/
def merge (w : World) (n : NodeId) (entries : List (String × Value)) : World :=
  entries.foldl
    (fun w p => if NodeId.isDirectiveKey p.1 || w.containsKey n p.1 then w else w.put n p.1 p.2) w

/-- Stores a flat property: follows the names of the key while they lead to nodes, and stores the
value under the names that are left. Nothing is stored when none is left. -/
def storeProperty (w : World) (n : NodeId) (value : String) : List (List Char) → World
  | [] => w
  | name :: rest =>
      match w.getRaw n (String.ofList name) with
      | some (.node next) => w.storeProperty next value rest
      | _ => w.put n (String.ofList (Text.join ['.'] (name :: rest))) (.text value)

/-- The names of a property's key. -/
def propertyNames (key : String) : List (List Char) :=
  (Text.splitAt '.' (Text.trim key.toList)).map Text.trim

/-- The value of a property as it is stored. -/
def propertyValue (value : String) : String :=
  String.ofList (Properties.upToPlaceholder (Text.trim value.toList))

/-- Stores flat properties in the tree below a node. -/
def flatten (w : World) (n : NodeId) (properties : List (String × String)) : World :=
  properties.foldl (fun w p => w.storeProperty n (propertyValue p.2) (propertyNames p.1)) w

end World

namespace Context

/-- Stores a value in a node; the previous value. The local frame does not adopt. -/
def store (c : Context) (target : NodeId) (key : String) (value : Value) : Action (Option Value) :=
  if target = c.frame then target.set key value else target.put key value

/-- Assigns to a bare name, always in the node itself; the previous value. -/
def assign (c : Context) (name : String) (value : Value) : Action (Option Value) :=
  c.this.put name value

end Context

end ScriptTree
