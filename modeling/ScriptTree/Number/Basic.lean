import ScriptTree.Decimal.Shortest

/-!
# Numbers

A number is an integer of at most 64 bits, signed or unsigned, or a finite double. The two shapes
are kept apart: `3` and `3.0` are equal (`Number.same`) but print differently (`Number.text`).
-/

set_option autoImplicit false

namespace ScriptTree

/-- A number of the model: a 64-bit integer or a finite double. -/
inductive Number where
  | integer (n : Int) (fits : -0x8000000000000000 ≤ n ∧ n < 0x10000000000000000)
  | floating (x : Float) (finite : x.isFinite = true)
  deriving DecidableEq

namespace Number

/-- The integer as a number, when it has a signed or an unsigned 64-bit form. -/
def ofInt? (n : Int) : Option Number :=
  if fits : -0x8000000000000000 ≤ n ∧ n < 0x10000000000000000 then some (.integer n fits)
  else none

/-- The double as a number; NaN and the infinities are none. -/
def ofFloat? (x : Float) : Option Number :=
  if finite : x.isFinite = true then some (.floating x finite) else none

/-- A count as a number. A count past 64 bits, which no list in memory reaches, is cut to the
greatest integer. -/
def ofNat (n : Nat) : Number :=
  .integer (min (n : Int) 0xFFFFFFFFFFFFFFFF) (by omega)

/-- The number minus one. -/
def minusOne : Number := .integer (-1) (by decide)

/-- A whole number within the signed 64-bit range. -/
def fitsSigned (n : Int) : Bool := decide (-0x8000000000000000 ≤ n ∧ n < 0x8000000000000000)

/-- The value of a number of integer shape within the signed 64-bit range. -/
def signed? : Number → Option Int
  | .integer n _ => if fitsSigned n then some n else none
  | .floating _ _ => none

/-- The value of a number of integer shape that is not negative. -/
def unsigned? : Number → Option Int
  | .integer n _ => if 0 ≤ n then some n else none
  | .floating _ _ => none

/-- The double nearest to the number. -/
def toFloat : Number → Float
  | .integer n _ => Float.ofInt n
  | .floating x _ => x

/-- Equality of numbers: exact within each 64-bit integer range, else of the nearest doubles. -/
def same (a b : Number) : Bool :=
  match a.signed?, b.signed? with
  | some x, some y => x == y
  | _, _ =>
      match a.unsigned?, b.unsigned? with
      | some x, some y => x == y
      | _, _ => a.toFloat == b.toFloat

/-- Doubles print positionally from `10 ^ -5` up to below `10 ^ 16`, with a decimal at least. -/
def layout : Decimal.Layout := ⟨fun k => -5 ≤ k && k < 16, ['.', '0']⟩

/-- The text of a number. -/
def text : Number → String
  | .integer n _ => toString n
  | .floating x _ => String.ofList (Decimal.floatText layout x)

end Number

end ScriptTree
