import ScriptTree.Expr.Syntax
import ScriptTree.Number.Basic
import ScriptTree.Properties.Basic
import ScriptTree.Script.Fault
import ScriptTree.Time.Calendar
import ScriptTree.Time.Duration

/-!
# Values and failures

A node holds values under keys. A value may be a reference to a node, and a caught failure is a
value too, so values and failures are defined together: the signal of an early return is a failure
that carries a value (`Failure.returned?`, `Failure.signal?`).
-/

set_option autoImplicit false

namespace ScriptTree

/-- The identity of a node. -/
structure NodeId where
  index : Nat
  deriving DecidableEq, Repr, Inhabited

/-- Part of a report: a sentence of this library, or what the reader of a format or of files found
wrong. -/
inductive Detail where
  | own (text : String)
  | reader (text : String)
  deriving DecidableEq, Repr

/-- The kinds of failures that callers tell apart. -/
inductive Category where
  /-- A missing or invalid file, directory or source text. -/
  | configuration
  /-- A file that is loaded while it is being loaded. -/
  | circularity
  /-- A value of another type than asked for. -/
  | typeMismatch
  /-- A bounded loop whose test still holds. -/
  | outOfTries
  /-- The signal of an early return. -/
  | returning
  /-- A failure of a statement, or one that passed through it. -/
  | evaluation
  deriving DecidableEq, Repr

/-- The name of a category in reports. -/
def Category.name : Category → String
  | .configuration => "Configuration"
  | .circularity => "Circularity"
  | .typeMismatch => "TypeMismatch"
  | .outOfTries => "OutOfTries"
  | .returning => "Return"
  | .evaluation => "Evaluation"

mutual

/-- A value of the model. -/
inductive Value where
  | null
  | bool (b : Bool)
  | number (n : Number)
  | text (s : String)
  | date (d : Time.Date)
  | dateTime (t : Time.DateTime)
  | duration (d : Time.Duration)
  | list (items : List Value)
  | node (id : NodeId)
  /-- A caught failure. -/
  | failure (cause : Failure)

/-- Why an operation failed, or the signal of an early return. -/
inductive Failure where
  | missingFile (directory name : String)
  | unreadableFile (path : String) (detail : Detail)
  | missingDirectory (path : String)
  | notDirectory (path : String)
  | invalidJson (detail : Detail)
  /-- A text whose value is no object. -/
  | invalidLiteral (found : String)
  | invalidXml (source : String) (detail : Detail)
  | invalidProperties (path : String) (detail : Detail)
  /-- An element's text that is no value of the element's type. -/
  | invalidEntry (tag text : String) (detail : Detail)
  /-- A file that is being loaded. -/
  | circular (path : String)
  | typeMismatch (path expected found : String)
  | outOfTries (tries : Nat) (test : String)
  /-- The signal of an early return. -/
  | returning (value : Value)
  /-- A failure of a statement, with its cause. -/
  | evaluation (statement : String) (cause : Failure)
  | script (fault : Script.Fault)
  | noEvaluator (text : String)

end

namespace Value

instance : Inhabited Value := ⟨.null⟩

/-- The name of a value's type in reports. -/
def typeName : Value → String
  | .null => "null"
  | .bool _ => "boolean"
  | .number _ => "number"
  | .text _ => "string"
  | .date _ => "date"
  | .dateTime _ => "datetime"
  | .duration _ => "duration"
  | .list _ => "list"
  | .node _ => "node"
  | .failure _ => "failure"

/-- The value is null. -/
def isNull : Value → Bool
  | .null => true
  | _ => false

/-- The value of a literal. -/
def ofLiteral : Expr.Literal → Value
  | .null => .null
  | .bool b => .bool b
  | .number n => .number n
  | .text s => .text s

/-- A number that may be missing; null then. -/
def ofNumber? : Option Number → Value
  | some n => .number n
  | none => .null

/-- A count. -/
def ofNat (n : Nat) : Value := .number (Number.ofNat n)

/-- A node that may be missing; null then. -/
def ofNode? : Option NodeId → Value
  | some n => .node n
  | none => .null

/-- False are null, `false`, zero and the empty text; every other value is true. -/
def isTruthy : Value → Bool
  | .null => false
  | .bool b => b
  | .number n => n.toFloat != 0.0
  | .text s => !s.isEmpty
  | _ => true

/-- The number of a value that is one. -/
def number? : Value → Option Number
  | .number n => some n
  | _ => none

/-- A list position: a signed integer that is not negative, or a text of decimal digits with an
optional plus sign and blanks around it. -/
def index? : Value → Option Nat
  | .number n => (n.signed?.filter fun i => 0 ≤ i).map Int.toNat
  | .text s =>
      match Number.readUnsigned64 (Text.trim s.toList) with
      | .ok n => some n.toNat
      | .error _ => none
  | _ => none

end Value

namespace Failure

/-- The category of a failure. -/
def category : Failure → Category
  | .circular _ => .circularity
  | .typeMismatch _ _ _ => .typeMismatch
  | .outOfTries _ _ => .outOfTries
  | .returning _ => .returning
  | .evaluation _ _ => .evaluation
  | .script _ => .evaluation
  | _ => .configuration

/-- The failure that this one wraps. -/
def cause? : Failure → Option Failure
  | .evaluation _ cause => some cause
  | _ => none

/-- The value of an early return, of this failure itself or of the one it wraps. -/
def returned? : Failure → Option Value
  | .returning v => some v
  | .evaluation _ (.returning v) => some v
  | _ => none

/-- The signal of an early return without what wraps it, when there is at most one layer. -/
def signal? (f : Failure) : Option Failure := f.returned?.map .returning

/-- Drops the outer of two layers of the same category. -/
def collapse : Failure → Failure
  | .evaluation statement cause =>
      if cause.category = .evaluation then cause else .evaluation statement cause
  | f => f

end Failure

mutual

/-- The value refers to a node, at any depth of lists and failures. -/
def Value.mentions (n : NodeId) : Value → Bool
  | .node id => id == n
  | .list items => Value.anyMentions n items
  | .failure cause => cause.mentions n
  | _ => false

/-- A value of the list refers to a node. -/
def Value.anyMentions (n : NodeId) : List Value → Bool
  | [] => false
  | v :: rest => v.mentions n || Value.anyMentions n rest

/-- The failure carries a value that refers to a node. -/
def Failure.mentions (n : NodeId) : Failure → Bool
  | .returning v => v.mentions n
  | .evaluation _ cause => cause.mentions n
  | _ => false

end

mutual

/-- The nodes that a value refers to, at any depth of lists and failures. -/
def Value.nodes : Value → List NodeId
  | .node id => [id]
  | .list items => Value.allNodes items
  | .failure cause => cause.nodes
  | _ => []

/-- The nodes that a list of values refers to. -/
def Value.allNodes : List Value → List NodeId
  | [] => []
  | v :: rest => v.nodes ++ Value.allNodes rest

/-- The nodes that a failure refers to. -/
def Failure.nodes : Failure → List NodeId
  | .returning v => v.nodes
  | .evaluation _ cause => cause.nodes
  | _ => []

end

end ScriptTree
