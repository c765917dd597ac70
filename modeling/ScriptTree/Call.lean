import ScriptTree.Number.Arithmetic
import ScriptTree.World.Action

/-!
# Calls by name

A call has a name and values as arguments. Reading an argument fails when it is missing or of
another type than the call needs.
-/

set_option autoImplicit false

namespace ScriptTree

/-- A call of an operation or a method by its name. -/
structure Call where
  method : String
  arguments : List Value

namespace Call

/-- An argument of any type. -/
def value (c : Call) (i : Nat) : Except Failure Value :=
  match c.arguments[i]? with
  | some v => .ok v
  | none => .error (.script (.missingArgument c.method (i + 1) c.arguments.length))

/-- Reports an argument of another type than the expected one. -/
def mismatch {α : Type} (c : Call) (i : Nat) (expected : String) (found : Value) :
    Except Failure α :=
  .error (.typeMismatch (c.method ++ "[" ++ toString i ++ "]") expected found.typeName)

/-- An argument that has to be a text. -/
def text (c : Call) (i : Nat) : Except Failure String := do
  match ← c.value i with
  | .text s => .ok s
  | other => c.mismatch i "string" other

/-- An argument that has to be a natural number. -/
def count (c : Call) (i : Nat) : Except Failure Nat := do
  let v ← c.value i
  match v.number?.bind Number.count? with
  | some n => .ok n
  | none => c.mismatch i "count" v

/-- An argument that has to be a list position. -/
def index (c : Call) (i : Nat) : Except Failure Nat := do
  let v ← c.value i
  match v.index? with
  | some n => .ok n
  | none => c.mismatch i "index" v

/-- The first argument, or null. -/
def first (c : Call) : Value := c.arguments.head?.getD .null

/-- Reports that values of a type have no method of the name. -/
def unknown {α : Type} (c : Call) (found : String) : Except Failure α :=
  .error (.script (.noSuchMethod c.method found))

/-- The entries of an argument that is a node; any other argument has none. -/
def entries (c : Call) (w : World) (i : Nat) : List (String × Value) :=
  match c.arguments[i]? with
  | some (.node m) => (w.cell m).entries
  | _ => []

end Call

instance : MonadLift (Except Failure) Action := ⟨Action.ofExcept⟩

end ScriptTree
