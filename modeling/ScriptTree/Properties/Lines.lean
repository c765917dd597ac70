import ScriptTree.Json.Lenient
import ScriptTree.Properties.Basic
import ScriptTree.Text.Blank
import ScriptTree.Text.Lines

/-!
# Properties by lines

One property per line: a key, a separator (`=`, `:` or blanks) and a value. Lines that start with
`#` or `!` are comments, a line that ends with an odd number of backslashes goes on in the next
one, and backslashes write controls, codes and characters with a meaning of their own.
-/

set_option autoImplicit false

namespace ScriptTree.Properties

/-- The line goes on: it ends with an odd number of backslashes. -/
def continues (line : List Char) : Bool :=
  (line.reverse.takeWhile (· == '\\')).length % 2 == 1

/-- The line holds no property. -/
def isSkipped (line : List Char) : Bool :=
  line.isEmpty || line.head? == some '#' || line.head? == some '!'

/-- The lines that hold a property, each joined with the lines that it goes on in without blanks at
their start. The first argument is a line that goes on, without its last backslash. -/
def logicalLines : Option (List Char) → List (List Char) → List (List Char)
  | none, [] => []
  | some pending, [] => [pending]
  | none, line :: rest =>
      let start := Text.trimStart line
      if isSkipped start then logicalLines none rest
      else if continues start then logicalLines (some start.dropLast) rest
      else start :: logicalLines none rest
  | some pending, line :: rest =>
      let joined := pending ++ Text.trimStart line
      if continues joined then logicalLines (some joined.dropLast) rest
      else joined :: logicalLines none rest

/-- A blank between key and value. -/
def isSeparatorBlank (c : Char) : Bool := c == ' ' || c == '\t' || c.toNat == 0x0C

/-- A character that ends a key. -/
def endsKey (c : Char) : Bool := c == '=' || c == ':' || isSeparatorBlank c

/-- The characters of the key as written, and the rest of the line. -/
def cutKey : List Char → List Char × List Char
  | '\\' :: escaped :: rest =>
      let (key, rest) := cutKey rest
      ('\\' :: escaped :: key, rest)
  | c :: rest =>
      if endsKey c then ([], c :: rest)
      else
        let (key, rest) := cutKey rest
        (c :: key, rest)
  | [] => ([], [])

/-- The value as written, from the rest of a line after its key. -/
def dropSeparator (s : List Char) : List Char :=
  match s.dropWhile isSeparatorBlank with
  | c :: rest => if c == '=' || c == ':' then rest.dropWhile isSeparatorBlank else c :: rest
  | [] => []

/-- The code unit of an escape's four characters; a plus sign may stand for the first digit. -/
def codeUnit (digits : List Char) : Except Fault Nat :=
  if (String.ofList digits).utf8ByteSize ≠ 4 then .error (.malformedEscape none)
  else
    match digits with
    | '+' :: rest =>
        match Json.Lenient.hexValue? rest with
        | some n => .ok n
        | none => .error (.malformedEscape (some (String.ofList digits)))
    | _ =>
        match Json.Lenient.hexValue? digits with
        | some n => .ok n
        | none => .error (.malformedEscape (some (String.ofList digits)))

/-- The character of a code. -/
def character (code : Nat) : Except Fault Char :=
  if code.isValidChar then .ok (Char.ofNat code) else .error (.invalidCode code)

/-- The unit is the first half of a surrogate pair. -/
def isHigh (unit : Nat) : Bool := 0xD800 ≤ unit && unit < 0xDC00

/-- The code of a pair; of the second unit only the last ten bits count. -/
def pairCode (high low : Nat) : Nat := 0x10000 + 0x400 * (high - 0xD800) + low % 0x400

/-- The character of a one-letter escape: a control, or the character itself. -/
def escaped (c : Char) : Char :=
  match c with
  | 't' => '\t'
  | 'n' => '\n'
  | 'r' => '\r'
  | 'f' => Char.ofNat 0x0C
  | _ => c

/-- Resolves the escapes of a key or value. -/
def unescape : List Char → Except Fault (List Char)
  | [] => .ok []
  | c :: rest =>
      if c != '\\' then (unescape rest).map (c :: ·)
      else
        match rest with
        | [] => .ok []
        | 'u' :: a :: b :: c :: d :: rest => do
            let unit ← codeUnit [a, b, c, d]
            if isHigh unit then
              match rest with
              | '\\' :: 'u' :: e :: f :: g :: h :: rest =>
                  let low ← codeUnit [e, f, g, h]
                  let x ← character (pairCode unit low)
                  (unescape rest).map (x :: ·)
              -- Too few characters are left, which `codeUnit` refuses.
              | '\\' :: 'u' :: short => (codeUnit short).map fun _ => []
              | _ => .error (.unpairedSurrogate unit)
            else
              let x ← character unit
              (unescape rest).map (x :: ·)
        | 'u' :: short => (codeUnit short).map fun _ => []
        | e :: rest => (unescape rest).map (escaped e :: ·)

/-- The property of a joined line. -/
def property (line : List Char) : Except Fault (String × String) := do
  let (key, rest) := cutKey line
  let key ← unescape key
  let value ← unescape (dropSeparator rest)
  return (String.ofList key, String.ofList value)

/-- The properties of a text, in order and with repetitions. -/
def ofLines (text : String) : Except Fault (List (String × String)) :=
  (logicalLines none (Text.lines text.toList)).mapM property

end ScriptTree.Properties
