import ScriptTree.Json.Basic
import ScriptTree.Value.Basic

/-!
# Values as text and as JSON

A node prints as its path and turns into an object of its entries, which only a store of nodes
knows; `Rendering` stands for that knowledge. Lists print as compact JSON.
-/

set_option autoImplicit false

namespace ScriptTree

/-- What printing needs to know: the path of a node, the object of a node inside a printed list,
and how a detail from a reader is shown. -/
structure Rendering where
  path : NodeId → String
  object : NodeId → Json
  reader : String → String

/-- A detail in a report. -/
def Detail.show (r : Rendering) : Detail → String
  | .own text => text
  | .reader text => r.reader text

/-- Whether a truth value prints as `true` or `false`. -/
def boolText (b : Bool) : String := if b then "true" else "false"

mutual

/-- The JSON form of a value, with nodes turned into objects by the given function. Values that
JSON does not know become their text. -/
def Value.json (r : Rendering) (object : NodeId → Json) : Value → Json
  | .null => .null
  | .bool b => .bool b
  | .number n => .number n
  | .text s => .text s
  | .date d => .text d.text
  | .dateTime t => .text t.text
  | .duration d => .text d.text
  | .list items => .array (Value.allJson r object items)
  | .node id => object id
  | .failure cause => .text (cause.message r)

/-- The JSON forms of a list of values. -/
def Value.allJson (r : Rendering) (object : NodeId → Json) : List Value → List Json
  | [] => []
  | v :: rest => v.json r object :: Value.allJson r object rest

/-- The text of a value. -/
def Value.show (r : Rendering) : Value → String
  | .null => "null"
  | .bool b => boolText b
  | .number n => n.text
  | .text s => s
  | .date d => d.text
  | .dateTime t => t.text
  | .duration d => d.text
  | .list items => (Json.array (Value.allJson r r.object items)).compact
  | .node id => r.path id
  | .failure cause => cause.message r

/-- The sentence that reports a failure. -/
def Failure.message (r : Rendering) : Failure → String
  | .missingFile directory name => "local file does not exist: " ++ directory ++ "/" ++ name
  | .unreadableFile path detail => "invalid file: " ++ path ++ ": " ++ detail.show r
  | .missingDirectory path => "directory does not exist: " ++ path
  | .notDirectory path => "not a directory: " ++ path
  | .invalidJson detail => "JSON text failed to materialize: " ++ detail.show r
  | .invalidLiteral found => "expected a JSON object at the top level but found " ++ found
  | .invalidXml source detail => "invalid XML in " ++ source ++ ": " ++ detail.show r
  | .invalidProperties path detail => "invalid properties in " ++ path ++ ": " ++ detail.show r
  | .invalidEntry tag text detail =>
      "invalid <" ++ tag ++ "> entry '" ++ text ++ "': " ++ detail.show r
  | .circular path => "File: '" ++ path ++ "' is already on the stack"
  | .typeMismatch path expected found =>
      "Object at path '" ++ path ++ "' is not a " ++ expected ++ ": '" ++ found ++ "'"
  | .outOfTries tries test => "Ran out of tries (" ++ toString tries ++ ") but: " ++ test
  | .returning value => "Returning: " ++ value.show r
  | .evaluation statement cause =>
      "failed to evaluate '" ++ statement ++ "': " ++ cause.message r
  | .script fault => fault.message
  | .noEvaluator text => "no evaluator configured for '" ++ text ++ "'"

end

mutual

/-- Equality of values. Numbers are compared by value, nodes by identity, and failures by the
sentences that report them. -/
def Value.same (r : Rendering) : Value → Value → Bool
  | .null, .null => true
  | .bool a, .bool b => a == b
  | .number a, .number b => a.same b
  | .text a, .text b => a == b
  | .date a, .date b => a == b
  | .dateTime a, .dateTime b => a == b
  | .duration a, .duration b => a == b
  | .list as, .list bs => Value.allSame r as bs
  | .node a, .node b => a == b
  | .failure a, .failure b => a.message r == b.message r
  | _, _ => false

/-- Equality of lists of values, item by item. -/
def Value.allSame (r : Rendering) : List Value → List Value → Bool
  | [], [] => true
  | a :: as, b :: bs => a.same r b && Value.allSame r as bs
  | _, _ => false

end

end ScriptTree
