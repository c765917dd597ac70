import ScriptTree.Text.Search

/-!
# Flat properties

A properties source is a list of keys and values. This module holds why a source is refused, and
the cut of a value at its placeholder.
-/

set_option autoImplicit false

namespace ScriptTree.Properties

/-- Why a properties source is refused. -/
inductive Fault where
  /-- A code escape that is cut short, or whose four characters, which are given, are no code. -/
  | malformedEscape (digits : Option String)
  /-- The first half of a surrogate pair without a second escape. -/
  | unpairedSurrogate (high : Nat)
  /-- A code escape that is no character. -/
  | invalidCode (code : Nat)
  /-- An entry element without a key. -/
  | missingKey
  /-- Malformed markup. -/
  | markup
  deriving DecidableEq, Repr

/-- Hexadecimal digits in upper case. -/
def upperHex (n : Nat) : List Char := (Nat.toDigits 16 n).map Char.toUpper

/-- The sentence for a refused source. -/
def Fault.message : Fault → String
  | .malformedEscape none => "malformed \\uxxxx encoding"
  | .malformedEscape (some digits) => "malformed \\uxxxx encoding: " ++ digits
  | .unpairedSurrogate high => "unpaired surrogate \\u" ++ String.ofList (upperHex high)
  | .invalidCode code => "invalid code point 0x" ++ String.ofList (upperHex code)
  | .missingKey => "<entry> without a key attribute"
  | .markup => "malformed markup"

/-- The mark at which a value ends. -/
def placeholder : List Char := "\x7b0\x7d".toList

/-- The value up to its first placeholder. -/
def upToPlaceholder (value : List Char) : List Char :=
  match Text.indexOf? placeholder value with
  | some k => value.take k
  | none => value

end ScriptTree.Properties
