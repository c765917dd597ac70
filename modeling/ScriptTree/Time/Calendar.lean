import ScriptTree.Number.Reading
import ScriptTree.Text.Blank

/-!
# Dates and times of day

Days of the proleptic Gregorian calendar within a fixed span of years, and local date-times with a
precision of nanoseconds. Dates are written `year-month-day`; a year outside `0 .. 9999` has a
sign. A reader skips blanks before each number.
-/

set_option autoImplicit false

namespace ScriptTree.Time

/-- Leap years of the Gregorian calendar. -/
def isLeap (year : Int) : Bool := year % 4 == 0 && (year % 100 != 0 || year % 400 == 0)

/-- The number of days of a month. -/
def daysIn (year : Int) (month : Nat) : Nat :=
  match month with
  | 2 => if isLeap year then 29 else 28
  | 4 | 6 | 9 | 11 => 30
  | _ => 31

/-- The year is in the supported span, and the month and the day exist. -/
def isDay (year : Int) (month day : Nat) : Bool :=
  -262143 ≤ year && year ≤ 262142 && 1 ≤ month && month ≤ 12 && 1 ≤ day && day ≤ daysIn year month

/-- A day of the calendar. -/
structure Date where
  year : Int
  month : Nat
  day : Nat
  real : isDay year month day = true
  deriving DecidableEq

/-- A day and a time of that day; the second 60 is a leap second. -/
structure DateTime where
  date : Date
  hour : Nat
  minute : Nat
  second : Nat
  nanos : Nat
  inDay : hour < 24 ∧ minute < 60 ∧ second ≤ 60 ∧ nanos < 1000000000
  deriving DecidableEq

/-- The order by the first component that differs. -/
def Date.order (a b : Date) : Ordering :=
  (compare a.year b.year).then ((compare a.month b.month).then (compare a.day b.day))

/-- The order by the first component that differs. -/
def DateTime.order (a b : DateTime) : Ordering :=
  (a.date.order b.date).then ((compare a.hour b.hour).then ((compare a.minute b.minute).then
    ((compare a.second b.second).then (compare a.nanos b.nanos))))

/-- The digits of a natural, with zeros in front up to a width. -/
def padded (width n : Nat) : List Char :=
  let digits := Nat.toDigits 10 n
  List.replicate (width - digits.length) '0' ++ digits

/-- A year: four digits in `0 .. 9999`, else a sign and at least four digits. -/
def yearText (year : Int) : List Char :=
  if year < 0 then '-' :: padded 4 year.natAbs
  else if 9999 < year then '+' :: padded 4 year.natAbs
  else padded 4 year.natAbs

/-- The text of a date. -/
def Date.chars (d : Date) : List Char :=
  yearText d.year ++ '-' :: padded 2 d.month ++ '-' :: padded 2 d.day

/-- The fraction of a second, in the fewest digits of 3, 6 and 9 that show it; nothing for zero. -/
def fractionText (nanos : Nat) : List Char :=
  if nanos = 0 then []
  else if nanos % 1000000 = 0 then '.' :: padded 3 (nanos / 1000000)
  else if nanos % 1000 = 0 then '.' :: padded 6 (nanos / 1000)
  else '.' :: padded 9 nanos

/-- The text of a date-time. -/
def DateTime.chars (t : DateTime) : List Char :=
  t.date.chars ++ 'T' :: padded 2 t.hour ++ ':' :: padded 2 t.minute ++ ':' :: padded 2 t.second ++
    fractionText t.nanos

/-- The text of a date. -/
def Date.text (d : Date) : String := String.ofList d.chars

/-- The text of a date-time. -/
def DateTime.text (t : DateTime) : String := String.ofList t.chars

/-- At least one digit, and at most `width`. -/
def readDigits? (width : Nat) (s : List Char) : Option (Nat × List Char) :=
  let digits := (s.take width).takeWhile Char.isDigit
  if digits.isEmpty then none else some (Number.digitsValue digits, s.drop digits.length)

/-- A number of at most two digits, after any blanks. -/
def readField? (s : List Char) : Option (Nat × List Char) := readDigits? 2 (Text.trimStart s)

/-- A year after any blanks: at most four digits, or a sign and any number of digits. -/
def readYear? (s : List Char) : Option (Int × List Char) :=
  match Text.trimStart s with
  | '-' :: rest => (readDigits? rest.length rest).map fun (n, rest) => (-(n : Int), rest)
  | '+' :: rest => (readDigits? rest.length rest).map fun (n, rest) => ((n : Int), rest)
  | s => (readDigits? 4 s).map fun (n, rest) => ((n : Int), rest)

/-- The rest of a text after one given character. -/
def readMark? (mark : Char) : List Char → Option (List Char)
  | c :: rest => if c == mark then some rest else none
  | [] => none

/-- A date at the front of a text. -/
def readDate? (s : List Char) : Option (Date × List Char) := do
  let (year, s) ← readYear? s
  let (month, s) ← readField? (← readMark? '-' s)
  let (day, s) ← readField? (← readMark? '-' s)
  if h : isDay year month day = true then some (⟨year, month, day, h⟩, s) else none

/-- A fraction of a second at the front of a text: nothing, or a point and digits, of which the
first nine count. -/
def readFraction? : List Char → Option (Nat × List Char)
  | '.' :: rest =>
      let digits := rest.takeWhile Char.isDigit
      if digits.isEmpty then none
      else
        let kept := digits.take 9
        some (Number.digitsValue kept * Decimal.tenTo (9 - kept.length), rest.drop digits.length)
  | s => some (0, s)

/-- Seconds and their fraction at the front of a text. -/
def readSeconds? (s : List Char) : Option (Nat × Nat × List Char) := do
  let (second, s) ← readField? (← readMark? ':' s)
  let (nanos, s) ← readFraction? s
  some (second, nanos, s)

/-- A whole text that is a date. -/
def Date.ofChars? (s : List Char) : Option Date := do
  let (date, rest) ← readDate? s
  if rest.isEmpty then some date else none

/-- A whole text that is a date-time; the seconds may be left out. -/
def DateTime.ofChars? (s : List Char) : Option DateTime := do
  let (date, s) ← readDate? s
  let (hour, s) ← readField? (← readMark? 'T' s)
  let (minute, s) ← readField? (← readMark? ':' s)
  let (second, nanos, rest) ← if s.isEmpty then some (0, 0, []) else readSeconds? s
  if !rest.isEmpty then none
  else if h : hour < 24 ∧ minute < 60 ∧ second ≤ 60 ∧ nanos < 1000000000 then
    some ⟨date, hour, minute, second, nanos, h⟩
  else none

end ScriptTree.Time
