import ScriptTree.Operation
import ScriptTree.Value.Method
import ScriptTree.Value.Operator

/-!
# Evaluation of expressions

The value of an expression in a context. Names that nothing holds, and parts that a value does not
have, are null. Arguments are evaluated before the receiver of a call. A method that changes a list
stores the changed list where the receiver was read from (`Expr.writeBack`).
-/

set_option autoImplicit false

namespace ScriptTree

/-- Fails with a fault of the statement. -/
def Action.fault {α : Type} (cause : Script.Fault) : Action α := Action.fail (.script cause)

/-- A result that may be a fault of the statement. -/
def Action.ofFaulty {α : Type} : Except Script.Fault α → Action α
  | .ok value => pure value
  | .error cause => Action.fault cause

namespace Value

/-- A named part of a value: an entry of a node, an item of a list, a size or a part of a
failure. -/
def member (lang : Language) (name : String) : Value → Action Value
  | .node n => (·.getD .null) <$> n.get lang name
  | .list items =>
      pure <|
        if name = "length" ∨ name = "size" then ofNat items.length
        else itemAt items (Value.text name).index?
  | .text s => pure (if name = "length" then ofNat s.toList.length else .null)
  | .failure cause => Action.inspect fun w => (w.failureMember? cause name).getD .null
  | _ => pure .null

/-- The part of a value under a key: an entry of a node, an item of a list, or a character. -/
def part (lang : Language) (target key : Value) : Action Value :=
  match target with
  | .node n => do
      let name ← Action.inspect (·.text key)
      (·.getD .null) <$> n.get lang name
  | .list items => pure (itemAt items key.index?)
  | .text s =>
      pure <| match key.index?.bind fun i => s.toList[i]? with
        | some c => .text (String.ofList [c])
        | none => .null
  | _ => pure .null

end Value

namespace Context

/-- A call without receiver: an early return, a failure raised by the script, or an operation of
the node itself. -/
def callBare (lang : Language) (c : Context) (call : Call) : Action Value :=
  match call.method with
  | "return" => Action.fail (.returning call.first)
  | "raise" => do
      let message ← Action.inspect fun w =>
        match call.arguments.head? with
        | some v => w.text v
        | none => ""
      Action.fault (.raised message)
  | _ => c.this.invoke lang call

/-- Stores a value under a name of the target of a member expression. -/
def storeMember (c : Context) (target : Value) (name : String) (value : Value) : Action Unit :=
  match target with
  | .node n => do
      let _ ← c.store n name value
      pure ()
  | other => Action.fault (.notAssignable (name ++ " of " ++ other.typeName))

/-- A call of a method of a value; the second result is the changed list, when the receiver is a
list that the method changes. -/
def callMethod (lang : Language) (receiver : Value) (call : Call) :
    Action (Value × Option (List Value)) :=
  match receiver with
  | .node n => (·, none) <$> n.invoke lang call
  | .text s => do
      let w ← Action.inspect id
      (·, none) <$> Action.ofExcept (w.textMethod s.toList call)
  | .list items => do
      let w ← Action.inspect id
      Action.ofExcept (w.listMethod items call)
  | .failure cause => do
      match ← Action.inspect (·.failureMember? cause call.method) with
      | some value => pure (value, none)
      | none => Action.ofExcept (call.unknown receiver.typeName)
  | other => Action.ofExcept (call.unknown other.typeName)

end Context

namespace Expr

mutual

/-- The value of an expression. -/
def eval (lang : Language) (c : Context) : Expr → Action Value
  | .literal value => pure (Value.ofLiteral value)
  | .list items => .list <$> evalAll lang c items
  | .name s => (·.getD .null) <$> c.lookup lang s
  | .member target s => do
      let target ← eval lang c target
      Action.holding target.nodes (target.member lang s)
  | .index target key => do
      let target ← eval lang c target
      Action.holding target.nodes do
        let key ← eval lang c key
        Action.holding key.nodes (target.part lang key)
  | .call s arguments => do
      let arguments ← evalAll lang c arguments
      Action.holding (Value.allNodes arguments) (c.callBare lang ⟨s, arguments⟩)
  | .send receiver s arguments => do
      let arguments ← evalAll lang c arguments
      Action.holding (Value.allNodes arguments) do
        let target ← eval lang c receiver
        Action.holding target.nodes do
          let (value, changed) ← Context.callMethod lang target ⟨s, arguments⟩
          match changed with
          | some items => do
              Action.holding value.nodes (writeBack lang c (.list items) receiver)
              pure value
          | none => pure value
  | .neg operand => do
      let operand ← eval lang c operand
      Action.ofFaulty operand.negate
  | .not operand => do
      let operand ← eval lang c operand
      pure (.bool !operand.isTruthy)
  | .binary op left right => do
      let left ← eval lang c left
      Action.holding left.nodes do
        let right ← eval lang c right
        Action.holding right.nodes do
          let result ← Action.inspect (·.binary op left right)
          Action.ofFaulty result
  | .and left right => do
      let left ← eval lang c left
      if left.isTruthy then
        let right ← eval lang c right
        pure (.bool right.isTruthy)
      else pure (.bool false)
  | .or left right => do
      let left ← eval lang c left
      if left.isTruthy then pure (.bool true)
      else
        let right ← eval lang c right
        pure (.bool right.isTruthy)
  | .choice test yes no => do
      let test ← eval lang c test
      if test.isTruthy then eval lang c yes else eval lang c no
  | .assign place value => do
      let value ← eval lang c value
      match place with
      | .name s =>
          if (c.binding s).isSome then Action.fault (.notAssignable s)
          else
            let _ ← c.assign s value
            pure value
      | place =>
          if place.isPlace then
            Action.holding value.nodes (writeBack lang c value place)
            pure value
          else Action.fault (.notAssignable place.report)

/-- The values of expressions from left to right. -/
def evalAll (lang : Language) (c : Context) : List Expr → Action (List Value)
  | [] => pure []
  | e :: rest => do
      let value ← eval lang c e
      let values ← Action.holding value.nodes (evalAll lang c rest)
      pure (value :: values)

/-- Stores a value where an expression is read from: a name where it is held, a member or item in
its target. Any other expression has no place, and nothing is stored. -/
def writeBack (lang : Language) (c : Context) (value : Value) : Expr → Action Unit
  | .name s => do
      match ← Action.inspect (c.holder? · s) with
      | some holder => do
          let _ ← c.store holder s value
          pure ()
      | none => pure ()
  | .member target s => do
      let target ← eval lang c target
      Action.holding target.nodes (c.storeMember target s value)
  -- The key comes before the target here, unlike in reading.
  | .index target key => do
      let key ← eval lang c key
      let found ← Action.holding key.nodes (eval lang c target)
      Action.holding (key.nodes ++ found.nodes) do
        let shown ← Action.inspect (·.text key)
        match found with
        | .node n => do
            let _ ← c.store n shown value
            pure ()
        | .list items =>
            -- The list is a copy, so the changed one has to be stored where it was read.
            match key.index?.filter (· < items.length) with
            | some i => writeBack lang c (.list (items.set i value)) target
            | none => Action.fault (.notAssignable ("index " ++ shown))
        | other => Action.fault (.notAssignable ("[" ++ shown ++ "] of " ++ other.typeName))
  | _ => pure ()

end

end Expr

end ScriptTree
