import ScriptTree.Number.Basic

/-!
# Reading numbers

Three readers. `readInteger` takes a sign and decimal digits within a range and says what is wrong
with any other text. `readFloat?` takes a decimal with an optional point and exponent, and the
names of the infinities and of NaN. `readNumber?` takes the number grammar of JSON.
-/

set_option autoImplicit false

namespace ScriptTree.Number

/-- Why a text is no integer of a range. -/
inductive IntegerFault where
  | empty
  | invalidDigit
  | tooLarge
  | tooSmall
  deriving DecidableEq, Repr

/-- The sentence for a text that is no integer. -/
def IntegerFault.message : IntegerFault → String
  | .empty => "cannot parse integer from empty string"
  | .invalidDigit => "invalid digit found in string"
  | .tooLarge => "number too large to fit in target type"
  | .tooSmall => "number too small to fit in target type"

/-- The value of a decimal digit. -/
def digit? (c : Char) : Option Nat := if c.isDigit then some (c.toNat - '0'.toNat) else none

/-- Adds digits to `value`, downwards when `negative`, and stops at the first fault: a character
that is no digit, or a digit that takes the value out of `low .. high`. -/
def readDigits (low high : Int) (negative : Bool) : Int → List Char → Except IntegerFault Int
  | value, [] => .ok value
  | value, c :: rest =>
      match digit? c with
      | none => .error .invalidDigit
      | some d =>
          let next := if negative then 10 * value - d else 10 * value + d
          if next < low then .error .tooSmall
          else if high < next then .error .tooLarge
          else readDigits low high negative next rest

/-- An integer within `low .. high`, with an optional sign; a minus only where the range has
negative values. -/
def readInteger (low high : Int) : List Char → Except IntegerFault Int
  | [] => .error .empty
  | '+' :: c :: rest => readDigits low high false 0 (c :: rest)
  | '-' :: c :: rest =>
      if low < 0 then readDigits low high true 0 (c :: rest) else .error .invalidDigit
  | s => readDigits low high false 0 s

/-- An integer of 32 bits. -/
def readInt32 : List Char → Except IntegerFault Int := readInteger (-0x80000000) 0x7FFFFFFF

/-- A signed integer of 64 bits. -/
def readInt64 : List Char → Except IntegerFault Int :=
  readInteger (-0x8000000000000000) 0x7FFFFFFFFFFFFFFF

/-- An unsigned integer of 64 bits. -/
def readUnsigned64 : List Char → Except IntegerFault Int := readInteger 0 0xFFFFFFFFFFFFFFFF

/-- The integer of a text of digits that fits one of the two 64-bit ranges. One plus sign in front
of the integer, which may have a sign of its own, is skipped. -/
def readWide? (s : List Char) : Option Number :=
  let s := match s with
    | '+' :: rest => rest
    | _ => s
  match readInt64 s with
  | .ok n => ofInt? n
  | .error _ =>
      match readUnsigned64 s with
      | .ok n => ofInt? n
      | .error _ => none

/-- The value of a text of decimal digits. -/
def digitsValue (s : List Char) : Nat := s.foldl (fun n c => 10 * n + (c.toNat - '0'.toNat)) 0

/-- The digits at the front of a text, and the rest. -/
def takeDigits (s : List Char) : List Char × List Char :=
  (s.takeWhile Char.isDigit, s.dropWhile Char.isDigit)

/-- An optional sign at the front of a text: whether it is a minus, and the rest. -/
def takeSign : List Char → Bool × List Char
  | '+' :: rest => (false, rest)
  | '-' :: rest => (true, rest)
  | s => (false, s)

/-- The exponent part of a decimal, which ends the text: `e` or `E`, an optional sign and at least
one digit. The empty text is the exponent zero. -/
def readExponent? : List Char → Option Int
  | [] => some 0
  | c :: rest =>
      if c == 'e' || c == 'E' then
        let (negative, digits) := takeSign rest
        if !digits.isEmpty && digits.all Char.isDigit then
          some (if negative then -(digitsValue digits : Int) else digitsValue digits)
        else none
      else none

/-- The double `digits * 10 ^ exponent`, correctly rounded. -/
def scientific (digits : Nat) (exponent : Int) : Float :=
  Float.ofScientific digits (exponent < 0) exponent.natAbs

/-- A decimal without a sign: digits around an optional point, at least one, and an exponent. -/
def readDecimal? (s : List Char) : Option Float :=
  let (whole, rest) := takeDigits s
  let (fraction, rest) := match rest with
    | '.' :: rest => takeDigits rest
    | _ => ([], rest)
  if whole.isEmpty && fraction.isEmpty then none
  else
    (readExponent? rest).map fun e =>
      scientific (digitsValue (whole ++ fraction)) (e - fraction.length)

/-- A double: an optional sign and a decimal, or a name of infinity or NaN in any case. -/
def readFloat? (s : List Char) : Option Float :=
  let (negative, body) := takeSign s
  let name := body.map Char.toLower
  let unsigned :=
    if name == "inf".toList || name == "infinity".toList then some (1.0 / 0.0)
    else if name == "nan".toList then some (0.0 / 0.0)
    else readDecimal? body
  unsigned.map fun x => if negative then -x else x

/-- Appends digits to a significand while it stays within 64 bits; with it the number of digits
taken. The first digit that does not fit ends the significand. -/
def absorb : Nat → List Char → Nat × Nat
  | significand, [] => (significand, 0)
  | significand, c :: rest =>
      let next := 10 * significand + (c.toNat - '0'.toNat)
      if next < 0x10000000000000000 then
        let (result, taken) := absorb next rest
        (result, taken + 1)
      else (significand, 0)

/-- Scales a significand by a power of ten with one rounding per step; far below one in steps of
`10 ^ 308`, of which three reach zero. Past the greatest double there is no result. -/
def scaleDown : Nat → Float → Int → Option Float
  | 0, _, _ => some 0.0
  | steps + 1, x, e =>
      if e.natAbs ≤ 308 then
        let power := Float.ofScientific 1 false e.natAbs
        if 0 ≤ e then (if (x * power).isFinite then some (x * power) else none)
        else some (x / power)
      else if x == 0.0 then some x
      else if 0 ≤ e then none
      else scaleDown steps (x / 1e308) (e + 308)

/-- The parts of a number text: sign, whole digits, fraction digits and the exponent text. -/
structure Parts where
  negative : Bool
  whole : List Char
  fraction : List Char
  exponent : List Char

/-- Splits a number text by the grammar of JSON: no leading zeros, digits on both sides of a
point. -/
def Parts.of? (s : List Char) : Option Parts :=
  let (negative, body) := match s with
    | '-' :: rest => (true, rest)
    | _ => (false, s)
  let (whole, rest) := takeDigits body
  if whole.isEmpty || (whole.head? == some '0' && whole.length != 1) then none
  else
    match rest with
    | '.' :: rest =>
        let (fraction, rest) := takeDigits rest
        if fraction.isEmpty then none else some ⟨negative, whole, fraction, rest⟩
    | _ => some ⟨negative, whole, [], rest⟩

/-- The number of a text in the grammar of JSON. Whole numbers without fraction and exponent are
integers where they fit, minus zero apart. Every other number is a double, computed from the
digits that fit 64 bits. -/
def readNumber? (s : List Char) : Option Number := do
  let parts ← Parts.of? s
  let exponent ← readExponent? parts.exponent
  let (significand, taken) := absorb 0 parts.whole
  let (full, decimals) := absorb significand parts.fraction
  let scale : Int := (parts.whole.length - taken : Nat) - (decimals : Int) + exponent
  let plain := parts.fraction.isEmpty && parts.exponent.isEmpty && taken == parts.whole.length
  let value : Int := if parts.negative then -(significand : Int) else significand
  -- Minus zero and negatives below the signed range have no integer shape.
  if plain && !(parts.negative && (significand == 0 || significand > 0x8000000000000000)) then
    ofInt? value
  else
    let magnitude ← scaleDown 4 (Float.ofNat full) scale
    ofFloat? (if parts.negative then -magnitude else magnitude)

end ScriptTree.Number
