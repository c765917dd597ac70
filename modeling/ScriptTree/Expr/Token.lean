import ScriptTree.Decimal.Shortest

/-!
# Tokens of the expression language

A token is a number, a quoted text, a word or a mark; the end of the input is a token of its own.
-/

set_option autoImplicit false

namespace ScriptTree.Expr

/-- Operators and punctuation. -/
inductive Mark where
  | plus | minus | star | slash | percent
  | eq | ne | lt | le | gt | ge
  | bang | and | or
  | assign | question | colon | comma | dot
  | openParen | closeParen | openBracket | closeBracket
  deriving DecidableEq, Repr

/-- The name of a mark in reports. -/
def Mark.name : Mark → String
  | .plus => "Plus"
  | .minus => "Minus"
  | .star => "Star"
  | .slash => "Slash"
  | .percent => "Percent"
  | .eq => "Eq"
  | .ne => "Ne"
  | .lt => "Lt"
  | .le => "Le"
  | .gt => "Gt"
  | .ge => "Ge"
  | .bang => "Bang"
  | .and => "And"
  | .or => "Or"
  | .assign => "Assign"
  | .question => "Question"
  | .colon => "Colon"
  | .comma => "Comma"
  | .dot => "Dot"
  | .openParen => "LParen"
  | .closeParen => "RParen"
  | .openBracket => "LBracket"
  | .closeBracket => "RBracket"

/-- A token. A number that is no double reads as NaN. -/
inductive Token where
  | int (n : Nat)
  | float (x : Float)
  | text (s : String)
  | word (s : String)
  | mark (m : Mark)
  | finish
  deriving DecidableEq

/-- Doubles in reports are written positionally, and whole ones without a point. -/
def reportLayout : Decimal.Layout := ⟨fun _ => true, []⟩

/-- A double in reports. -/
def reportFloat (x : Float) : String :=
  if x.isNaN then "NaN"
  else if x.isInf then (if x < 0.0 then "-inf" else "inf")
  else String.ofList (Decimal.floatText reportLayout x)

/-- How reports name a token. -/
def Token.describe : Token → String
  | .int n => toString n
  | .float x => reportFloat x
  | .text s => "'" ++ s ++ "'"
  | .word s => s
  | .mark m => m.name
  | .finish => "end of input"

end ScriptTree.Expr
