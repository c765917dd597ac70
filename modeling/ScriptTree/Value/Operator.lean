import ScriptTree.Number.Arithmetic
import ScriptTree.World.Text

/-!
# Operators on values

Any two values can be compared for equality; an order is there only for two values of one ordered
type. `+` joins texts as soon as one side is a text. All other arithmetic is on numbers.
-/

set_option autoImplicit false

namespace ScriptTree

namespace Value

/-- The order of two values of the same ordered type; false comes before true. -/
def order? : Value → Value → Option Ordering
  | .number a, .number b => some (a.order b)
  | .text a, .text b => some (compare a b)
  | .bool a, .bool b => some (compare a.toNat b.toNat)
  | .date a, .date b => some (a.order b)
  | .dateTime a, .dateTime b => some (a.order b)
  | .duration a, .duration b => some (a.order b)
  | _, _ => none

/-- The value is a text. -/
def isText : Value → Bool
  | .text _ => true
  | _ => false

/-- Reports types that an operator does not take. -/
def badOperands {α : Type} (op : Expr.Operator) (left right : Value) : Except Script.Fault α :=
  .error (.badOperands op.symbol left.typeName right.typeName)

/-- The order that two values need for an operator, tested. -/
def ordered (op : Expr.Operator) (test : Ordering → Bool) (left right : Value) :
    Except Script.Fault Value :=
  match order? left right with
  | some o => .ok (.bool (test o))
  | none => badOperands op left right

/-- Arithmetic on two numbers. -/
def arithmetic (op : Expr.Operator) (compute : Number → Number → Option Number)
    (left right : Value) : Except Script.Fault Value :=
  match left, right with
  | .number a, .number b => .ok (ofNumber? (compute a b))
  | _, _ => badOperands op left right

/-- Arithmetic on two numbers of which the second must not be zero. -/
def division (op : Expr.Operator) (compute : Number → Number → Option Number)
    (left right : Value) : Except Script.Fault Value :=
  match left, right with
  | .number a, .number b =>
      if b.isZero then .error .divisionByZero else .ok (ofNumber? (compute a b))
  | _, _ => badOperands op left right

/-- The value with the opposite sign. -/
def negate : Value → Except Script.Fault Value
  | .number a => .ok (ofNumber? a.neg)
  | other => .error (.badOperands "-" "nothing" other.typeName)

end Value

/-- The value of a binary operator on two values. -/
def World.binary (w : World) (op : Expr.Operator) (left right : Value) :
    Except Script.Fault Value :=
  match op with
  | .eq => .ok (.bool (w.same left right))
  | .ne => .ok (.bool (!w.same left right))
  | .lt => Value.ordered op Ordering.isLT left right
  | .le => Value.ordered op Ordering.isLE left right
  | .gt => Value.ordered op Ordering.isGT left right
  | .ge => Value.ordered op Ordering.isGE left right
  | .add =>
      if left.isText || right.isText then .ok (.text (w.text left ++ w.text right))
      else Value.arithmetic op Number.add left right
  | .sub => Value.arithmetic op Number.sub left right
  | .mul => Value.arithmetic op Number.mul left right
  | .div => Value.division op Number.div left right
  | .mod => Value.division op Number.mod left right

end ScriptTree
