import ScriptTree.Json.Basic
import ScriptTree.Number.Reading
import ScriptTree.Text.Alphabet

/-!
# Lenient JSON

A reader for JSON with comments, bare member names, single quotes, trailing commas, hexadecimal
integers and numbers with a bare point or a plus sign. Integers must have signed 64-bit values; a
member named twice keeps its first place and its last value.
-/

set_option autoImplicit false

namespace ScriptTree.Json.Lenient

/-- A character that ends a line. -/
def isLineEnd (c : Char) : Bool :=
  c == '\n' || c == '\r' || c.toNat == 0x2028 || c.toNat == 0x2029

/-- A character that may stand between tokens. -/
def isGap (c : Char) : Bool :=
  c == ' ' || c == '\t' || c.toNat == 0x0B || c.toNat == 0x0C || c.toNat == 0xA0 ||
    c.toNat == 0xFEFF || isLineEnd c ||
    Text.inRanges [(0x1680, 0x1680), (0x2000, 0x200A), (0x202F, 0x202F), (0x205F, 0x205F),
      (0x3000, 0x3000)] c

/-- Where the reader is while it skips: between tokens, or within a comment. -/
inductive Gap where
  | blank
  | line
  | block

/-- Skips blanks and comments; a block comment that does not end is malformed. -/
def skipFrom : Gap → List Char → Option (List Char)
  | .blank, '/' :: '/' :: rest => skipFrom .line rest
  | .blank, '/' :: '*' :: rest => skipFrom .block rest
  | .blank, c :: rest => if isGap c then skipFrom .blank rest else some (c :: rest)
  | .line, c :: rest => if isLineEnd c then skipFrom .blank rest else skipFrom .line rest
  | .block, '*' :: '/' :: rest => skipFrom .blank rest
  | .block, _ :: rest => skipFrom .block rest
  | .block, [] => none
  | _, [] => some []

/-- Skips blanks and comments. -/
def skip (s : List Char) : Option (List Char) := skipFrom .blank s

/-- The value of a hexadecimal digit. -/
def hexDigit? (c : Char) : Option Nat :=
  if c.isDigit then some (c.toNat - '0'.toNat)
  else if 'a' ≤ c && c ≤ 'f' then some (c.toNat - 'a'.toNat + 10)
  else if 'A' ≤ c && c ≤ 'F' then some (c.toNat - 'A'.toNat + 10)
  else none

/-- The value of a text of hexadecimal digits. -/
def hexValue? (s : List Char) : Option Nat :=
  s.foldlM (fun n c => (hexDigit? c).map (16 * n + ·)) 0

/-- The letter escapes of strings. -/
def letterEscape? (c : Char) : Option Char :=
  match c with
  | 'b' => some (Char.ofNat 0x08)
  | 'f' => some (Char.ofNat 0x0C)
  | 'n' => some '\n'
  | 'r' => some '\r'
  | 't' => some '\t'
  | 'v' => some (Char.ofNat 0x0B)
  | '0' => some (Char.ofNat 0)
  | _ => none

/-- The code of two units. The bit that lifts a pair past the 16-bit codes is set, not added, so a
pair whose first unit has that bit already denotes a code of the plane below the usual one. -/
def pairCode (high low : Nat) : Nat :=
  0x400 * ((high - 0xD800) ||| 0x40) + (low - 0xDC00)

/-- The text after the line ends at its front that a backslash takes out of a string. -/
def dropContinuations : List Char → List Char
  | '\\' :: '\r' :: '\n' :: rest => dropContinuations rest
  | '\\' :: c :: rest => if isLineEnd c then dropContinuations rest else '\\' :: c :: rest
  | s => s

/-- The character of a UTF-16 code escape, which the text after the `u` goes on with: one unit, or
two (see `pairCode`). What `between` drops may stand in front of the second one. -/
def unicodeEscape? (between : List Char → List Char) : List Char → Option (Char × List Char)
  | a :: b :: c :: d :: rest => do
      let high ← hexValue? [a, b, c, d]
      if 0xDC00 ≤ high && high ≤ 0xDFFF then none
      else if 0xD800 ≤ high && high ≤ 0xDBFF then
        match between rest with
        | '\\' :: 'u' :: e :: f :: g :: h :: rest =>
            let low ← hexValue? [e, f, g, h]
            if 0xDC00 ≤ low && low ≤ 0xDFFF then
              some (Char.ofNat (pairCode high low), rest)
            else none
        | _ => none
      else some (Char.ofNat high, rest)
  | _ => none

/-- Reads a string up to its closing quote. The fuel bounds the number of characters. -/
def readString (quote : Char) : Nat → List Char → Option (List Char × List Char)
  | 0, _ => none
  | fuel + 1, s =>
      let put (c : Char) (rest : List Char) : Option (List Char × List Char) :=
        (readString quote fuel rest).map fun (cs, rest) => (c :: cs, rest)
      match s with
      | [] => none
      -- A line that ends with a backslash goes on in the next one.
      | '\\' :: '\r' :: '\n' :: rest => readString quote fuel rest
      | '\\' :: 'u' :: rest => do
          let (c, rest) ← unicodeEscape? dropContinuations rest
          put c rest
      | '\\' :: 'x' :: a :: b :: rest => do
          let n ← hexValue? [a, b]
          put (Char.ofNat n) rest
      | '\\' :: c :: rest =>
          if isLineEnd c then readString quote fuel rest
          else
            match letterEscape? c with
            | some e => put e rest
            | none => if c.isDigit || c == 'x' then none else put c rest
      | c :: rest =>
          if c == quote then some ([], rest)
          else if isLineEnd c || c == '\\' then none
          else put c rest

/-- The characters of a bare name, and the rest. -/
def readNameRest : Nat → List Char → Option (List Char × List Char)
  | 0, _ => none
  | fuel + 1, s =>
      match s with
      | '\\' :: 'u' :: rest => do
          let (c, rest) ← unicodeEscape? id rest
          let (cs, rest) ← readNameRest fuel rest
          some (c :: cs, rest)
      | c :: rest =>
          if Text.isNamePart c then
            (readNameRest fuel rest).map fun (cs, rest) => (c :: cs, rest)
          else some ([], s)
      | [] => some ([], [])

/-- A bare name at the front of a text. -/
def readName (s : List Char) : Option (String × List Char) :=
  match s with
  | c :: _ =>
      if Text.isNameStart c || c == '\\' then
        match readNameRest (s.length + 1) s with
        | some (name, rest) => if name.isEmpty then none else some (String.ofList name, rest)
        | none => none
      else none
  | [] => none

/-- A member name: a bare name or a string. -/
def readKey (s : List Char) : Option (String × List Char) :=
  match s with
  | c :: rest =>
      if c == '"' || c == '\'' then
        (readString c (rest.length + 1) rest).map fun (cs, rest) => (String.ofList cs, rest)
      else readName s
  | [] => none

/-- An exponent at the front of a text, as written; nothing when none is there. -/
def takeExponent (s : List Char) : List Char × List Char :=
  match s with
  | e :: rest =>
      if e == 'e' || e == 'E' then
        let (sign, body) := match rest with
          | '+' :: body => (['+'], body)
          | '-' :: body => (['-'], body)
          | _ => ([], rest)
        let digits := body.takeWhile Char.isDigit
        if digits.isEmpty then ([], s) else (e :: sign ++ digits, body.drop digits.length)
      else ([], s)
  | [] => ([], [])

/-- A decimal at the front of a text, as written: whole digits without a leading zero, or a point
and digits. -/
def takeDecimal (s : List Char) : Option (List Char × List Char) :=
  let withExponent (taken rest : List Char) : Option (List Char × List Char) :=
    let (e, rest) := takeExponent rest
    some (taken ++ e, rest)
  let fraction (whole rest : List Char) : Option (List Char × List Char) :=
    let digits := rest.takeWhile Char.isDigit
    withExponent (whole ++ '.' :: digits) (rest.drop digits.length)
  match s with
  | '.' :: rest =>
      if rest.takeWhile Char.isDigit |>.isEmpty then none else fraction [] rest
  | c :: rest =>
      if c.isDigit then
        let whole := if c == '0' then ['0'] else c :: rest.takeWhile Char.isDigit
        match s.drop whole.length with
        | '.' :: rest => fraction whole rest
        | rest => withExponent whole rest
      else none
  | [] => none

/-- The value of a written decimal: an integer when it has neither point nor exponent, else a
finite double. -/
def decimalValue (sign : List Char) (written : List Char) : Option Json :=
  if written.any fun c => c == '.' || c == 'e' || c == 'E' then
    (Number.readFloat? (sign ++ written)).bind fun x => (Number.ofFloat? x).map .number
  else
    match Number.readInt64 (sign ++ written) with
    | .ok n => (Number.ofInt? n).map .number
    | .error _ => none

/-- The rest of a text after a given word at its front. -/
def afterWord (word : String) (s : List Char) : Option (List Char) :=
  if word.toList.isPrefixOf s then some (s.drop word.length) else none

/-- A number at the front of a text. The infinities and NaN have no number and are null. -/
def readNumber (s : List Char) : Option (Json × List Char) :=
  let (sign, body) := match s with
    | '+' :: body => (['+'], body)
    | '-' :: body => (['-'], body)
    | _ => ([], s)
  match afterWord "Infinity" body, afterWord "NaN" body with
  | some rest, _ => if sign == ['+'] then none else some (.null, rest)
  | _, some rest => if sign == ['+'] then none else some (.null, rest)
  | none, none =>
      let hex := match body with
        | '0' :: x :: digits =>
            if x == 'x' || x == 'X' then digits.takeWhile fun c => (hexDigit? c).isSome else []
        | _ => []
      if hex.isEmpty then do
        let (written, rest) ← takeDecimal body
        let value ← decimalValue sign written
        some (value, rest)
      else do
        let n ← hexValue? hex
        if sign.isEmpty && n < 0x100000000 then
          (Number.ofInt? n).map fun n => (.number n, body.drop (hex.length + 2))
        else none

mutual

/-- A value at the front of a text, after blanks and comments. -/
def readValue : Nat → List Char → Option (Json × List Char)
  | 0, _ => none
  | fuel + 1, s => do
      let s ← skip s
      match s with
      | '[' :: rest =>
          let (items, rest) ← readItems fuel rest
          some (.array items, rest)
      | '\x7b' :: rest =>
          let (members, rest) ← readMembers fuel rest
          some (.object (Entries.ofPairs members), rest)
      | c :: rest =>
          if c == '"' || c == '\'' then
            let (cs, rest) ← readString c (rest.length + 1) rest
            some (.text (String.ofList cs), rest)
          else
            match afterWord "null" s, afterWord "true" s, afterWord "false" s with
            | some rest, _, _ => some (.null, rest)
            | _, some rest, _ => some (.bool true, rest)
            | _, _, some rest => some (.bool false, rest)
            | none, none, none => readNumber s
      | [] => none

/-- The items of an array and its closing bracket. -/
def readItems : Nat → List Char → Option (List Json × List Char)
  | 0, _ => none
  | fuel + 1, s => do
      match ← skip s with
      | ']' :: rest => some ([], rest)
      | s =>
          let (item, rest) ← readValue fuel s
          match ← skip rest with
          | ',' :: rest =>
              let (items, rest) ← readItems fuel rest
              some (item :: items, rest)
          | ']' :: rest => some ([item], rest)
          | _ => none

/-- The members of an object and its closing brace. -/
def readMembers : Nat → List Char → Option (List (String × Json) × List Char)
  | 0, _ => none
  | fuel + 1, s => do
      match ← skip s with
      | '\x7d' :: rest => some ([], rest)
      | s =>
          let (key, rest) ← readKey s
          match ← skip rest with
          | ':' :: rest =>
              let (value, rest) ← readValue fuel rest
              match ← skip rest with
              | ',' :: rest =>
                  let (members, rest) ← readMembers fuel rest
                  some ((key, value) :: members, rest)
              | '\x7d' :: rest => some ([(key, value)], rest)
              | _ => none
          | _ => none

end

end ScriptTree.Json.Lenient

namespace ScriptTree.Json

/-- The value of a whole lenient text. -/
def readLenient? (s : String) : Option Json := do
  let cs := s.toList
  let (value, rest) ← Lenient.readValue (2 * cs.length + 2) cs
  match ← Lenient.skip rest with
  | [] => some value
  | _ :: _ => none

end ScriptTree.Json
