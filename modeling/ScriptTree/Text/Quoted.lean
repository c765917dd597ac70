import ScriptTree.Text.Printable

/-!
# Quoted texts in diagnostics

A diagnostic shows a text between double quotes. Quotes, backslashes and the usual controls are
written with a backslash; other characters without a form of their own by code.
-/

set_option autoImplicit false

namespace ScriptTree.Text

/-- How a quoted text shows one character. -/
def quotedChar (c : Char) : List Char :=
  if c == '"' || c == '\\' then ['\\', c]
  else if c == '\n' then ['\\', 'n']
  else if c == '\r' then ['\\', 'r']
  else if c == '\t' then ['\\', 't']
  else if c.toNat == 0 then ['\\', '0']
  else if isShown c then [c]
  else "\\u\x7b".toList ++ Nat.toDigits 16 c.toNat ++ ['\x7d']

/-- The text between double quotes. -/
def quoted (s : String) : String :=
  String.ofList ('"' :: s.toList.flatMap quotedChar ++ ['"'])

end ScriptTree.Text
