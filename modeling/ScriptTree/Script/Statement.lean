import ScriptTree.Text.Blank
import ScriptTree.Text.Lines

/-!
# Statements of a script

A script is a text of statements. A statement ends at a semicolon or at the end of a line, except
inside quotes and open brackets, where it goes on across both; the lines of one statement are
joined with a blank. Blank lines and lines that start with `#` outside a statement are dropped.
`statements` gives the statements in order, each without blanks at its ends and none of them empty.
-/

set_option autoImplicit false

namespace ScriptTree.Script

/-- What is open at a place of a script: a quote, and a number of brackets. -/
structure Nesting where
  quote : Option Char
  depth : Nat
  deriving DecidableEq, Repr

/-- A quote or a bracket is open. -/
def Nesting.isOpen (n : Nesting) : Bool := n.quote.isSome || n.depth != 0

/-- A character that starts a quoted text. -/
def isQuote (c : Char) : Bool := c == '\'' || c == '"'

/-- An opening bracket. -/
def isOpening (c : Char) : Bool := c == '(' || c == '[' || c == '\x7b'

/-- A closing bracket. -/
def isClosing (c : Char) : Bool := c == ')' || c == ']' || c == '\x7d'

/-- Progress in a script: the statements that have ended, the last one first; the characters of the
statement under way, the last one first; and what is open. -/
structure Splitter where
  ended : List (List Char)
  current : List Char
  nesting : Nesting
  deriving DecidableEq, Repr

namespace Splitter

/-- At the start of a script. -/
def start : Splitter := ⟨[], [], ⟨none, 0⟩⟩

/-- Adds a character to the statement under way. -/
def push (s : Splitter) (c : Char) : Splitter := { s with current := c :: s.current }

/-- Ends the statement under way; blanks alone are no statement. -/
def flush (s : Splitter) : Splitter :=
  let statement := Text.trim s.current.reverse
  { s with ended := if statement.isEmpty then s.ended else statement :: s.ended, current := [] }

/-- One character outside quotes. -/
def outside (s : Splitter) (c : Char) : Splitter :=
  if isQuote c then { s.push c with nesting := ⟨some c, s.nesting.depth⟩ }
  else if isOpening c then { s.push c with nesting := ⟨none, s.nesting.depth + 1⟩ }
  else if isClosing c then { s.push c with nesting := ⟨none, s.nesting.depth - 1⟩ }
  else if c == ';' && s.nesting.depth == 0 then s.flush
  else s.push c

/-- One character inside a quote, other than a backslash. -/
def inside (s : Splitter) (quote c : Char) : Splitter :=
  if c == quote then { s.push c with nesting := ⟨none, s.nesting.depth⟩ } else s.push c

/-- Takes the characters of a line. Inside quotes a backslash keeps the next character from ending
the quote. -/
def scan (s : Splitter) : List Char → Splitter
  | [] => s
  | c :: rest =>
      match s.nesting.quote with
      | none => scan (s.outside c) rest
      | some q =>
          if c == '\\' then
            match rest with
            -- At the end of a line there is no character to keep.
            | [] => s.push c
            | e :: rest => scan ((s.push c).push e) rest
          else scan (s.inside q c) rest

/-- Takes a line. -/
def line (s : Splitter) (raw : List Char) : Splitter :=
  let text := Text.trim raw
  if s.nesting.isOpen then
    let s := (s.push ' ').scan text
    if s.nesting.isOpen then s else s.flush
  else if text.isEmpty || text.head? == some '#' then s
  else
    let s := s.scan text
    if s.nesting.isOpen then s else s.flush

end Splitter

/-- The statements of a script, as lists of characters. -/
def split (text : List Char) : List (List Char) :=
  ((Text.lines text).foldl Splitter.line Splitter.start).flush.ended.reverse

/-- The statements of a script. -/
def statements (text : String) : List String := (split text.toList).map String.ofList

end ScriptTree.Script
