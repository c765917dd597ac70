import ScriptTree.Call
import ScriptTree.Text.Casing
import ScriptTree.Text.Search
import ScriptTree.World.Text

/-!
# Methods of texts and lists

Texts count in characters. Methods that change a list give the changed list beside their result,
for the caller to store where the list came from.
-/

set_option autoImplicit false

namespace ScriptTree

namespace World

/-- An argument of any type, as a text. -/
def shown (w : World) (call : Call) (i : Nat) : Except Failure (List Char) := do
  let v ← call.value i
  pure (w.text v).toList

/-- A method of a text. -/
def textMethod (w : World) (s : List Char) (call : Call) : Except Failure Value :=
  match call.method with
  | "length" | "size" => .ok (Value.ofNat s.length)
  | "isEmpty" => .ok (.bool s.isEmpty)
  | "trim" => .ok (.text (String.ofList (Text.trim s)))
  | "toUpperCase" => .ok (.text (String.ofList (Text.upperCase s)))
  | "toLowerCase" => .ok (.text (String.ofList (Text.lowerCase s)))
  | "contains" => do
      let t ← w.shown call 0
      pure (.bool (Text.containsText t s))
  | "startsWith" => do
      let t ← w.shown call 0
      pure (.bool (t.isPrefixOf s))
  | "endsWith" => do
      let t ← w.shown call 0
      pure (.bool (Text.endsWith t s))
  | "equals" => do
      let t ← w.shown call 0
      pure (.bool (s == t))
  | "indexOf" => do
      let t ← w.shown call 0
      pure <| match Text.indexOf? t s with
        | some i => Value.ofNat i
        | none => .number Number.minusOne
  | "replace" => do
      let target ← w.shown call 0
      let replacement ← w.shown call 1
      pure (.text (String.ofList (Text.replace target replacement s)))
  | "split" => do
      let t ← w.shown call 0
      pure (.list ((Text.split t s).map fun piece => .text (String.ofList piece)))
  | "substring" => do
      let start ← call.index 0
      if call.arguments.length ≤ 1 then pure (.text (String.ofList (s.drop start)))
      else
        let stop ← call.index 1
        pure (.text (String.ofList ((s.drop start).take (stop - start))))
  | _ => call.unknown "string"

/-- A result without a change of the list. -/
def unchanged (v : Value) : Except Failure (Value × Option (List Value)) := .ok (v, none)

/-- The position of the first item that equals a value. -/
def position? (w : World) (items : List Value) (v : Value) : Option Nat :=
  items.findIdx? fun item => w.same item v

/-- A method of a list, with the changed list when it changes. -/
def listMethod (w : World) (items : List Value) (call : Call) :
    Except Failure (Value × Option (List Value)) :=
  match call.method with
  | "size" | "length" => unchanged (Value.ofNat items.length)
  | "isEmpty" => unchanged (.bool items.isEmpty)
  | "contains" => do
      let v ← call.value 0
      unchanged (.bool (items.any fun item => w.same item v))
  | "get" => do
      let i ← call.index 0
      unchanged (items[i]?.getD .null)
  | "indexOf" => do
      let v ← call.value 0
      unchanged <| match w.position? items v with
        | some i => Value.ofNat i
        | none => .number Number.minusOne
  | "join" =>
      let separator := match call.arguments.head? with
        | some v => (w.text v).toList
        | none => []
      unchanged (.text (String.ofList (Text.join separator (items.map fun v => (w.text v).toList))))
  | "add" => do
      let v ← call.value 0
      pure (.bool true, some (items ++ [v]))
  | "remove" => do
      let v ← call.value 0
      match w.position? items v with
      | some i => pure (.bool true, some (items.eraseIdx i))
      | none => unchanged (.bool false)
  | "removeAt" => do
      let i ← call.index 0
      match items[i]? with
      | some v => pure (v, some (items.eraseIdx i))
      | none => unchanged .null
  | "clear" => .ok (.null, some [])
  | _ => call.unknown "list"

/-- A named part of a failure. -/
def failureMember? (w : World) (cause : Failure) (name : String) : Option Value :=
  match name with
  | "message" => some (.text (w.message cause))
  | "category" => some (.text cause.category.name)
  | "cause" => some (match cause.cause? with
      | some inner => .failure inner
      | none => .null)
  | _ => none

end World

namespace Value

/-- The item at a position, or null. -/
def itemAt (items : List Value) (position : Option Nat) : Value :=
  (position.bind fun i => items[i]?).getD .null

end Value

end ScriptTree
