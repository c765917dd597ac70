import ScriptTree.Entries
import ScriptTree.Number.Basic

/-!
# JSON values and their text

JSON values with objects in member order, the compact text on one line, and the text with one
member per line indented by two blanks.
-/

set_option autoImplicit false

namespace ScriptTree

/-- A JSON value; the members of an object keep their order. -/
inductive Json where
  | null
  | bool (b : Bool)
  | number (n : Number)
  | text (s : String)
  | array (items : List Json)
  | object (members : List (String × Json))

namespace Json

/-- The name of a value's type. -/
def typeName : Json → String
  | .null => "null"
  | .bool _ => "boolean"
  | .number _ => "number"
  | .text _ => "string"
  | .array _ => "array"
  | .object _ => "object"

/-- Four hexadecimal digits. -/
def hex4 (n : Nat) : List Char :=
  let digits := Nat.toDigits 16 n
  List.replicate (4 - digits.length) '0' ++ digits

/-- How a JSON string writes one character. -/
def escapedChar (c : Char) : List Char :=
  if c == '"' || c == '\\' then ['\\', c]
  else if c.toNat == 0x08 then ['\\', 'b']
  else if c.toNat == 0x0C then ['\\', 'f']
  else if c == '\n' then ['\\', 'n']
  else if c == '\r' then ['\\', 'r']
  else if c == '\t' then ['\\', 't']
  else if c.toNat < 0x20 then '\\' :: 'u' :: hex4 c.toNat
  else [c]

/-- A JSON string. -/
def textChars (s : String) : List Char := '"' :: s.toList.flatMap escapedChar ++ ['"']

/-- The literal of a truth value. -/
def boolChars (b : Bool) : List Char := if b then "true".toList else "false".toList

mutual

/-- The text of a value on one line, without blanks. -/
def compactChars : Json → List Char
  | .null => "null".toList
  | .bool b => boolChars b
  | .number n => n.text.toList
  | .text s => textChars s
  | .array items => '[' :: compactItems items ++ [']']
  | .object members => '\x7b' :: compactMembers members ++ ['\x7d']

/-- Array items with commas between them. -/
def compactItems : List Json → List Char
  | [] => []
  | item :: rest =>
      compactChars item ++ match rest with
        | [] => []
        | _ :: _ => ',' :: compactItems rest

/-- Object members with commas between them. -/
def compactMembers : List (String × Json) → List Char
  | [] => []
  | (key, value) :: rest =>
      textChars key ++ ':' :: compactChars value ++ match rest with
        | [] => []
        | _ :: _ => ',' :: compactMembers rest

end

/-- A line break and the indent of a depth. -/
def newline (depth : Nat) : List Char := '\n' :: List.replicate (2 * depth) ' '

mutual

/-- The text of a value with one item or member per line, at a depth of nesting. -/
def prettyChars (depth : Nat) : Json → List Char
  | .null => "null".toList
  | .bool b => boolChars b
  | .number n => n.text.toList
  | .text s => textChars s
  | .array [] => "[]".toList
  | .array items => '[' :: prettyItems (depth + 1) items ++ newline depth ++ [']']
  | .object [] => "\x7b\x7d".toList
  | .object members => '\x7b' :: prettyMembers (depth + 1) members ++ newline depth ++ ['\x7d']

/-- Array items, each on a line of its own. -/
def prettyItems (depth : Nat) : List Json → List Char
  | [] => []
  | item :: rest =>
      newline depth ++ prettyChars depth item ++ match rest with
        | [] => []
        | _ :: _ => ',' :: prettyItems depth rest

/-- Object members, each on a line of its own. -/
def prettyMembers (depth : Nat) : List (String × Json) → List Char
  | [] => []
  | (key, value) :: rest =>
      newline depth ++ textChars key ++ ':' :: ' ' :: prettyChars depth value ++ match rest with
        | [] => []
        | _ :: _ => ',' :: prettyMembers depth rest

end

/-- The compact text of a value. -/
def compact (j : Json) : String := String.ofList j.compactChars

/-- The indented text of a value. -/
def pretty (j : Json) : String := String.ofList (prettyChars 0 j)

end Json

end ScriptTree
