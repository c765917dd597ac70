import ScriptTree.Expr.Token
import ScriptTree.Number.Reading
import ScriptTree.Script.Fault
import ScriptTree.Text.Alphabet
import ScriptTree.Text.Blank

/-!
# From text to tokens

`tokenize` splits a statement into tokens, with blanks allowed between any two. Places in reports
count characters from the start.
-/

set_option autoImplicit false

namespace ScriptTree.Expr

open ScriptTree.Script (Fault)

/-- A character that starts a word. -/
def startsWord (c : Char) : Bool := Text.isAlphabetic c || c == '_' || c == '$'

/-- A character that continues a word. -/
def continuesWord (c : Char) : Bool := Text.isAlphanumeric c || c == '_' || c == '$'

/-- The parts of a written number: whole digits; the digits after a point, if there are any; and
the sign and digits after an `e`, if there is one. -/
structure Written where
  whole : List Char
  fraction : Option (List Char)
  exponent : Option (Bool × List Char)
  deriving DecidableEq, Repr

/-- Digits after a point at the front of a text. A point without a digit is no part of the
number. -/
def takeFraction (s : List Char) : Option (List Char) × List Char :=
  match s with
  | '.' :: rest =>
      let digits := rest.takeWhile Char.isDigit
      if digits.isEmpty then (none, s) else (some digits, rest.drop digits.length)
  | _ => (none, s)

/-- The sign and digits after an `e` at the front of a text; the digits may be missing. -/
def takeExponent (s : List Char) : Option (Bool × List Char) × List Char :=
  match s with
  | c :: rest =>
      if c == 'e' || c == 'E' then
        let (negative, body) := Number.takeSign rest
        (some (negative, body.takeWhile Char.isDigit), body.dropWhile Char.isDigit)
      else (none, s)
  | [] => (none, [])

/-- A number at the front of a text that starts with a digit, and the rest. -/
def takeNumber (s : List Char) : Written × List Char :=
  let (fraction, rest) := takeFraction (s.dropWhile Char.isDigit)
  let (exponent, rest) := takeExponent rest
  (⟨s.takeWhile Char.isDigit, fraction, exponent⟩, rest)

/-- The double of a written number; NaN when its exponent has no digits. -/
def Written.toFloat (w : Written) : Float :=
  let fraction := w.fraction.getD []
  let scaled (e : Int) : Float :=
    Number.scientific (Number.digitsValue (w.whole ++ fraction)) (e - fraction.length)
  match w.exponent with
  | none => scaled 0
  | some (negative, digits) =>
      if digits.isEmpty then 0.0 / 0.0
      else
        let e : Int := Number.digitsValue digits
        scaled (if negative then -e else e)

/-- The token of a written number: digits alone are an integer when they fit 63 bits. -/
def Written.token (w : Written) : Token :=
  let n := Number.digitsValue w.whole
  if w.fraction.isNone && w.exponent.isNone && n < 0x8000000000000000 then .int n
  else .float w.toFloat

/-- The character of an escape in a quoted text. -/
def escaped (c : Char) : Char :=
  match c with
  | 'n' => '\n'
  | 't' => '\t'
  | 'r' => '\r'
  | _ => c

/-- The characters of a quoted text up to its closing quote, and the rest. -/
def takeQuoted (quote : Char) : List Char → Option (List Char × List Char)
  | [] => none
  | c :: rest =>
      if c == '\\' then
        match rest with
        | [] => none
        | e :: rest => (takeQuoted quote rest).map fun (cs, rest) => (escaped e :: cs, rest)
      else if c == quote then some ([], rest)
      else (takeQuoted quote rest).map fun (cs, rest) => (c :: cs, rest)

/-- The mark at the front of a text; the longer of two wins. -/
def takeMark? (c : Char) (rest : List Char) : Option (Mark × List Char) :=
  match c, rest with
  | '=', '=' :: rest => some (.eq, rest)
  | '!', '=' :: rest => some (.ne, rest)
  | '<', '=' :: rest => some (.le, rest)
  | '>', '=' :: rest => some (.ge, rest)
  | '&', '&' :: rest => some (.and, rest)
  | '|', '|' :: rest => some (.or, rest)
  | '+', _ => some (.plus, rest)
  | '-', _ => some (.minus, rest)
  | '*', _ => some (.star, rest)
  | '/', _ => some (.slash, rest)
  | '%', _ => some (.percent, rest)
  | '?', _ => some (.question, rest)
  | ':', _ => some (.colon, rest)
  | ',', _ => some (.comma, rest)
  | '.', _ => some (.dot, rest)
  | '(', _ => some (.openParen, rest)
  | ')', _ => some (.closeParen, rest)
  | '[', _ => some (.openBracket, rest)
  | ']', _ => some (.closeBracket, rest)
  | '=', _ => some (.assign, rest)
  | '!', _ => some (.bang, rest)
  | '<', _ => some (.lt, rest)
  | '>', _ => some (.gt, rest)
  | _, _ => none

/-- The token that a text without blanks at its start begins with, and the rest. -/
def firstToken (place : Nat) (c : Char) (rest : List Char) : Except Fault (Token × List Char) :=
  if c.isDigit then
    let (written, rest) := takeNumber (c :: rest)
    .ok (written.token, rest)
  else if c == '\'' || c == '"' then
    match takeQuoted c rest with
    | some (cs, rest) => .ok (.text (String.ofList cs), rest)
    | none => .error (.unterminatedString place)
  else if startsWord c then
    .ok (.word (String.ofList (c :: rest.takeWhile continuesWord)), rest.dropWhile continuesWord)
  else
    match takeMark? c rest with
    | some (m, rest) => .ok (.mark m, rest)
    | none => .error (.unexpectedChar c place)

/-- The tokens of a text that ends a text of `total` characters. Each token takes a character, so
the length of the text is fuel enough. -/
def tokensFrom (total : Nat) : Nat → List Char → Except Fault (List Token)
  | 0, _ => .ok [.finish]
  | fuel + 1, s =>
      match Text.trimStart s with
      | [] => .ok [.finish]
      | c :: rest => do
          let (token, rest) ← firstToken (total - (rest.length + 1)) c rest
          let tokens ← tokensFrom total fuel rest
          return token :: tokens

/-- The tokens of a text. -/
def tokenizeChars (s : List Char) : Except Fault (List Token) :=
  tokensFrom s.length (s.length + 1) s

/-- The tokens of a text, ended by `finish`. -/
def tokenize (text : String) : Except Fault (List Token) := tokenizeChars text.toList

end ScriptTree.Expr
