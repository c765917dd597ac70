/-!
# Faults of scripts

What can be wrong with a statement, from its characters to the operation it asks for, with the
sentence that reports it.
-/

set_option autoImplicit false

namespace ScriptTree.Script

/-- Why a statement cannot be read or carried out. -/
inductive Fault where
  /-- A character that starts no token, and its place. -/
  | unexpectedChar (c : Char) (place : Nat)
  /-- A quoted text without an end, and its place. -/
  | unterminatedString (place : Nat)
  /-- A token where the grammar has another one. -/
  | unexpectedToken (expected found : String)
  /-- An expression that is no place to store to. -/
  | notAssignable (place : String)
  /-- A method that values of the type do not have. -/
  | noSuchMethod (method found : String)
  /-- An operator on types that it does not take. -/
  | badOperands (operator left right : String)
  | divisionByZero
  /-- Raised by the script itself. -/
  | raised (message : String)
  /-- A call with too few arguments. -/
  | missingArgument (method : String) (needed given : Nat)
  /-- An operation that nodes do not have, on the node at a path. -/
  | unknownOperation (method path : String)
  deriving DecidableEq, Repr

/-- The sentence that reports a fault. -/
def Fault.message : Fault → String
  | .unexpectedChar c place => "unexpected character '" ++ c.toString ++ "' at " ++ toString place
  | .unterminatedString place => "unterminated string starting at " ++ toString place
  | .unexpectedToken expected found => "expected " ++ expected ++ " but found " ++ found
  | .notAssignable place => "cannot assign to " ++ place
  | .noSuchMethod method found => "cannot call " ++ method ++ "() on " ++ found
  | .badOperands operator left right =>
      "cannot apply '" ++ operator ++ "' to " ++ left ++ " and " ++ right
  | .divisionByZero => "DIVISION_BY_ZERO"
  | .raised message => message
  | .missingArgument method needed given =>
      method ++ ": expected at least " ++ toString needed ++ " argument(s) but got " ++
        toString given
  | .unknownOperation method path => "no operation '" ++ method ++ "' on node '" ++ path ++ "'"

end ScriptTree.Script
