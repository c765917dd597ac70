import ScriptTree.Number.Reading
import ScriptTree.Text.Blank

/-!
# Durations

A duration is a whole number of nanoseconds whose magnitude is at most `2 ^ 63 - 1` milliseconds.
Its written form is `PnDTnHnMn.nS`, with a sign on each component and one in front; a day has 24
hours. `Duration.chars` writes hours, minutes and seconds only, and `Duration.ofChars?` reads.
-/

set_option autoImplicit false

namespace ScriptTree.Time

/-- The greatest magnitude of a duration, in nanoseconds. -/
def durationLimit : Nat := 0x7FFFFFFFFFFFFFFF * 1000000

/-- An elapsed time. -/
structure Duration where
  nanos : Int
  bounded : nanos.natAbs ≤ durationLimit
  deriving DecidableEq

namespace Duration

/-- The duration of a number of nanoseconds within the bounds. -/
def ofNanos? (n : Int) : Option Duration :=
  if h : n.natAbs ≤ durationLimit then some ⟨n, h⟩ else none

/-- The sum, when it is within the bounds. -/
def add? (a b : Duration) : Option Duration := ofNanos? (a.nanos + b.nanos)

/-- The opposite duration. -/
def neg (d : Duration) : Duration := ⟨-d.nanos, by rw [Int.natAbs_neg]; exact d.bounded⟩

/-- The order by length. -/
def order (a b : Duration) : Ordering := compare a.nanos b.nanos

/-- Drops the zeros at the end of a fraction of nine digits. -/
def fractionDigits (nanos : Nat) : List Char :=
  let digits := Nat.toDigits 10 nanos
  let padded := List.replicate (9 - digits.length) '0' ++ digits
  (padded.reverse.dropWhile (· == '0')).reverse

/-- One component: nothing for zero, else the sign, the number and the unit. -/
def component (sign : List Char) (n : Nat) (unit : Char) : List Char :=
  if n = 0 then [] else sign ++ Nat.toDigits 10 n ++ [unit]

/-- The text of a duration in hours, minutes and seconds; a negative duration has the sign on each
component. -/
def chars (d : Duration) : List Char :=
  let n := d.nanos.natAbs
  let sign := if d.nanos < 0 then ['-'] else []
  let whole := n / 1000000000
  let fraction := n % 1000000000
  let seconds := whole % 60
  if n = 0 then "PT0S".toList
  else
    'P' :: 'T' :: component sign (whole / 3600) 'H' ++ component sign (whole / 60 % 60) 'M' ++
      if seconds = 0 ∧ fraction = 0 then []
      else
        sign ++ Nat.toDigits 10 seconds ++
          (if fraction = 0 then [] else '.' :: fractionDigits fraction) ++ ['S']

/-- The text of a duration. -/
def text (d : Duration) : String := String.ofList d.chars

/-- An optional sign and digits, kept as written, and the rest. -/
def takeSigned (s : List Char) : List Char × List Char :=
  let (sign, body) := match s with
    | '+' :: rest => (['+'], rest)
    | '-' :: rest => (['-'], rest)
    | _ => ([], s)
  (sign ++ body.takeWhile Char.isDigit, body.dropWhile Char.isDigit)

/-- The written number has a digit. -/
def hasDigit (number : List Char) : Bool := number.any Char.isDigit

/-- A component that ends with one of the unit's letters: its number as written and the rest of
the text. A text without it stays as it is. -/
def takeComponent (units : List Char) (s : List Char) : Option (List Char) × List Char :=
  match takeSigned s with
  | (number, u :: rest) =>
      if hasDigit number && units.contains u then (some number, rest) else (none, s)
  | (_, []) => (none, s)

/-- The letters of the unit of seconds: case is ignored, the long `s` included. -/
def secondUnits : List Char := ['S', 's', Char.ofNat 0x17F]

/-- The seconds with an optional fraction of at most nine digits after a point or a comma. -/
def takeSeconds (s : List Char) : Option (List Char × List Char) × List Char :=
  match takeSigned s with
  | (number, mark :: rest) =>
      if !hasDigit number then (none, s)
      else if secondUnits.contains mark then (some (number, []), rest)
      else if mark == '.' || mark == ',' then
        match rest.takeWhile Char.isDigit, rest.dropWhile Char.isDigit with
        | digits, u :: rest =>
            if digits.length ≤ 9 && secondUnits.contains u then (some (number, digits), rest)
            else (none, s)
        | _, [] => (none, s)
      else (none, s)
  | (_, []) => (none, s)

/-- The components of a written duration, as written. -/
structure Parts where
  negative : Bool
  days : Option (List Char)
  hours : Option (List Char)
  minutes : Option (List Char)
  seconds : Option (List Char × List Char)

/-- Splits a whole text into the components of a duration. -/
def Parts.of? (s : List Char) : Option Parts :=
  let (negative, body) := Number.takeSign s
  match body with
  | p :: rest =>
      if p == 'P' || p == 'p' then
        let (days, rest) := takeComponent ['D', 'd'] rest
        match rest with
        | [] => some ⟨negative, days, none, none, none⟩
        | t :: rest =>
            if t == 'T' || t == 't' then
              let (hours, rest) := takeComponent ['H', 'h'] rest
              let (minutes, rest) := takeComponent ['M', 'm'] rest
              let (seconds, rest) := takeSeconds rest
              if rest.isEmpty then some ⟨negative, days, hours, minutes, seconds⟩ else none
            else none
      else none
  | [] => none

/-- The length of a component in a unit of `scale` nanoseconds; the number must have 64 bits. -/
def componentOf? (scale : Nat) : Option (List Char) → Option Duration
  | none => ofNanos? 0
  | some number =>
      match Number.readInt64 number with
      | .ok n => ofNanos? (n * scale)
      | .error _ => none

/-- The nanoseconds of a fraction, with the sign that its seconds are written with. -/
def fractionOf (number digits : List Char) : Int :=
  let n := Number.digitsValue digits * Decimal.tenTo (9 - digits.length)
  if number.head? == some '-' then -(n : Int) else n

/-- The sum of the components from the left, each sum within the bounds. -/
def Parts.total? (p : Parts) : Option Duration := do
  let days ← componentOf? (86400 * 1000000000) p.days
  let hours ← componentOf? (3600 * 1000000000) p.hours
  let minutes ← componentOf? (60 * 1000000000) p.minutes
  let seconds ← componentOf? 1000000000 (p.seconds.map (·.1))
  let fraction ← ofNanos? ((p.seconds.map fun s => fractionOf s.1 s.2).getD 0)
  let sum ← (← (← (← days.add? hours).add? minutes).add? seconds).add? fraction
  some (if p.negative then sum.neg else sum)

/-- The duration that a text without blanks around it writes. There is at least one component, and
a time part that is announced is not empty. -/
def ofTrimmed? (s : List Char) : Option Duration := do
  let parts ← Parts.of? s
  if parts.days.isNone && parts.hours.isNone && parts.minutes.isNone && parts.seconds.isNone then
    none
  -- The grammar alone would take a bare `T` after the days.
  else if s.getLast? == some 'T' || s.getLast? == some 't' then none
  else parts.total?

/-- The duration that a text writes, blanks at its ends aside. -/
def ofChars? (s : List Char) : Option Duration := ofTrimmed? (Text.trim s)

end Duration

end ScriptTree.Time
