import ScriptTree.Decimal.Power

/-!
# Shortest decimals of binary floating-point values

A finite double is `mantissa * 2 ^ exponent`. `shortest` gives the fewest decimal digits that read
back as the same double, and of those the digits nearest to it; an exact tie goes to the even
last digit. All of it is arithmetic on naturals.
-/

set_option autoImplicit false

namespace ScriptTree.Decimal

/-- The magnitude of a finite double: `mantissa * 2 ^ exponent`. -/
structure Binary where
  mantissa : Nat
  exponent : Int
  deriving DecidableEq, Repr

/-- A decimal `digits * 10 ^ exponent`. -/
structure Scaled where
  digits : Nat
  exponent : Int
  deriving DecidableEq, Repr

/-- The sign bit of a double. -/
def isNegative (x : Float) : Bool := x.toBits >>> 63 == 1

/-- The magnitude of a finite double. -/
def magnitude (x : Float) : Binary :=
  let bits : Nat := x.toBits.toNat % twoTo 63
  let field : Nat := bits / twoTo 52
  let fraction : Nat := bits % twoTo 52
  if field = 0 then ⟨fraction, -1074⟩ else ⟨twoTo 52 + fraction, (field : Int) - 1075⟩

/-- The double of a sign, a mantissa below `2 ^ 53` and an exponent at which it is exact. The
mantissa moves up while there is room, at most `room` places. -/
def ofMagnitude (negative : Bool) (b : Binary) : Float :=
  let rec raise : Nat → Nat → Int → Nat × Int
    | 0, m, q => (m, q)
    | room + 1, m, q => if m < twoTo 52 ∧ -1074 < q then raise room (2 * m) (q - 1) else (m, q)
  let (m, q) := raise 53 b.mantissa b.exponent
  let bits := if m < twoTo 52 then m else (q + 1075).toNat * twoTo 52 + (m - twoTo 52)
  let unsigned := if b.mantissa = 0 then 0 else bits
  Float.ofBits (UInt64.ofNat (if negative then twoTo 63 + unsigned else unsigned))

/-- The exact remainder of `a` by `b`, with the sign of `a`, for a divisor other than zero. -/
def remainder (a b : Float) : Float :=
  let x := magnitude a
  let y := magnitude b
  let unit := min x.exponent y.exponent
  let r := (x.mantissa <<< (x.exponent - unit).toNat) % (y.mantissa <<< (y.exponent - unit).toNat)
  ofMagnitude (isNegative a) ⟨r, unit⟩

/-- The double is a whole number. -/
def isWhole (x : Float) : Bool :=
  let b := magnitude x
  0 ≤ b.exponent || b.mantissa % twoTo (-b.exponent).toNat == 0

/-- Four times the magnitude, and the ends of the interval of reals that read back as it, all in
units of a quarter of the last binary place. -/
structure Interval where
  low : Nat
  value : Nat
  high : Nat
  closed : Bool

/-- The reals nearer to `b` than to its neighbours; below a power of two the gap is half as wide. -/
def Interval.around (b : Binary) : Interval where
  low := 4 * b.mantissa - (if b.mantissa = twoTo 52 ∧ -1074 < b.exponent then 1 else 2)
  value := 4 * b.mantissa
  high := 4 * b.mantissa + 2
  closed := b.mantissa % 2 == 0

/-- The point `n * 10 ^ s` lies in the interval, whose unit is `2 ^ q`. -/
def Interval.holds (i : Interval) (q : Int) (n : Nat) (s : Int) : Bool :=
  let point := n * tenTo s.toNat * twoTo (-q).toNat
  let unit := tenTo (-s).toNat * twoTo q.toNat
  if i.closed then i.low * unit ≤ point && point ≤ i.high * unit
  else i.low * unit < point && point < i.high * unit

/-- The number of decimal digits of a natural, at least one. -/
def digitCount (n : Nat) : Nat := (Nat.toDigits 10 n).length

/-- The number of places that bring a proper fraction `num / den` to one or above, at most
`limit`. -/
def leadingZeros (num den : Nat) : Nat → Nat
  | 0 => 0
  | limit + 1 => if den ≤ num then 0 else leadingZeros (10 * num) den limit + 1

/-- The least `e` with the magnitude below `10 ^ e`. -/
def decimalPoint (num den : Nat) : Int :=
  if den ≤ num then (digitCount (num / den) : Int) else 1 - (leadingZeros num den 400 : Int)

/-- The first grid `10 ^ s`, from coarse to fine, on which a neighbour of the value reads back. -/
def searchGrid (i : Interval) (q : Int) : Nat → Int → Scaled
  | 0, s => ⟨i.value * twoTo q.toNat * tenTo (-s).toNat / (twoTo (-q).toNat * tenTo s.toNat), s⟩
  | grids + 1, s =>
      let num := i.value * twoTo q.toNat * tenTo (-s).toNat
      let den := twoTo (-q).toNat * tenTo s.toNat
      let floor := num / den
      let twice := 2 * (num % den)
      let down := i.holds q floor s
      let up := i.holds q (floor + 1) s
      -- When both neighbours read back the nearer one wins, and a tie goes to the even one.
      if down && up then
        if twice < den || (twice == den && floor % 2 == 0) then ⟨floor, s⟩ else ⟨floor + 1, s⟩
      else if down then ⟨floor, s⟩
      else if up then ⟨floor + 1, s⟩
      else searchGrid i q grids (s - 1)

/-- The shortest decimal that reads back as the magnitude. The coarsest grid has the value below
its first point, and the finest shows 17 digits, which always suffice. -/
def shortest (b : Binary) : Scaled :=
  if b.mantissa = 0 then ⟨0, 0⟩
  else
    let i := Interval.around b
    let q := b.exponent - 2
    let point := decimalPoint (i.value * twoTo q.toNat) (twoTo (-q).toNat)
    searchGrid i q 18 point

/-- How the digits of a decimal are laid out. A decimal whose leading digit has the place `10 ^ k`
is written positionally when `positional k`. -/
structure Layout where
  positional : Int → Bool
  /-- What follows the digits of a positional whole number. -/
  wholeEnd : List Char

/-- The decimal in the given layout. -/
def Scaled.text (layout : Layout) (d : Scaled) : List Char :=
  let digits := Nat.toDigits 10 d.digits
  let leading := d.exponent + digits.length - 1
  if layout.positional leading then
    if 0 ≤ d.exponent then
      digits ++ List.replicate d.exponent.toNat '0' ++ layout.wholeEnd
    else if 0 ≤ leading then
      digits.take (leading.toNat + 1) ++ '.' :: digits.drop (leading.toNat + 1)
    else
      '0' :: '.' :: List.replicate (-leading - 1).toNat '0' ++ digits
  else
    digits.take 1 ++ (if digits.length = 1 then [] else '.' :: digits.drop 1) ++
      'e' :: (if leading < 0 then '-' else '+') :: Nat.toDigits 10 leading.natAbs

/-- The text of a finite double in the given layout; minus zero keeps its sign. -/
def floatText (layout : Layout) (x : Float) : List Char :=
  (if isNegative x then ['-'] else []) ++ (shortest (magnitude x)).text layout

end ScriptTree.Decimal
