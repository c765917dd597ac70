import ScriptTree.Number.Basic

/-!
# Arithmetic on numbers

Two integers in the signed range give the exact integer when it is in that range again; every
other case is computed on the nearest doubles. A result that is not finite is no number.
-/

set_option autoImplicit false

namespace ScriptTree.Number

/-- The exact integer result, when both sides are signed integers and the result is one. -/
def wholeResult? (op : Int → Int → Option Int) (a b : Number) : Option Number :=
  match a.signed?, b.signed? with
  | some x, some y => ((op x y).filter fitsSigned).bind ofInt?
  | _, _ => none

/-- The exact integer result where there is one, else the result on doubles. -/
def combine (op : Int → Int → Option Int) (approximate : Float → Float → Float) (a b : Number) :
    Option Number :=
  (wholeResult? op a b).or (ofFloat? (approximate a.toFloat b.toFloat))

/-- The sum. -/
def add : Number → Number → Option Number := combine (fun x y => some (x + y)) (· + ·)

/-- The difference. -/
def sub : Number → Number → Option Number := combine (fun x y => some (x - y)) (· - ·)

/-- The product. -/
def mul : Number → Number → Option Number := combine (fun x y => some (x * y)) (· * ·)

/-- The quotient by a divisor other than zero: an integer when the division is even. -/
def div : Number → Number → Option Number :=
  combine (fun x y => if Int.tmod x y = 0 then some (Int.tdiv x y) else none) (· / ·)

/-- The remainder by a divisor other than zero, with the sign of the dividend. -/
def mod : Number → Number → Option Number :=
  combine (fun x y => some (Int.tmod x y)) Decimal.remainder

/-- The number is zero, of either shape and sign. -/
def isZero (a : Number) : Bool := a.toFloat == 0.0

/-- The negation: exact for signed integers other than the least, else on doubles. -/
def neg (a : Number) : Option Number :=
  match a.signed?.bind fun x => if fitsSigned (-x) then ofInt? (-x) else none with
  | some n => some n
  | none => ofFloat? (-a.toFloat)

/-- The order of the nearest doubles. -/
def order (a b : Number) : Ordering :=
  if a.toFloat < b.toFloat then .lt else if a.toFloat == b.toFloat then .eq else .gt

/-- The natural number that a number of either shape denotes, cut to 64 bits. -/
def count? (a : Number) : Option Nat :=
  let x := a.toFloat
  if 0.0 ≤ x && Decimal.isWhole x then some x.toUInt64.toNat else none

end ScriptTree.Number
