import ScriptTree.Json.Lenient
import ScriptTree.Node.Literal
import ScriptTree.Node.Read

/-!
# Kinds of entries

The typed elements of a document: each reads the text between its tags, without the blanks around
it, as a value of its kind, or reports what is wrong with it.
-/

set_option autoImplicit false

namespace ScriptTree

/-- The kinds of typed elements. -/
inductive EntryKind where
  /-- An expression, evaluated where it stands. -/
  | expression
  | json
  | entry
  /-- A script, with its statements on one line. -/
  | steps
  | text
  | date
  | dateTime
  | duration
  | integer
  | long
  | double
  | boolean
  | bigInteger
  | bigDecimal
  deriving DecidableEq, Repr

namespace EntryKind

/-- The name of the element. -/
def tag : EntryKind → String
  | .expression => "el"
  | .json => "json"
  | .entry => "entry"
  | .steps => "steps"
  | .text => "text"
  | .date => "date"
  | .dateTime => "datetime"
  | .duration => "duration"
  | .integer => "integer"
  | .long => "long"
  | .double => "double"
  | .boolean => "boolean"
  | .bigInteger => "big-integer"
  | .bigDecimal => "big-decimal"

/-- All kinds. -/
def all : List EntryKind :=
  [.expression, .json, .entry, .steps, .text, .date, .dateTime, .duration, .integer, .long,
    .double, .boolean, .bigInteger, .bigDecimal]

/-- The kind of an element by its name. -/
def ofTag? (tag : String) : Option EntryKind := all.find? fun kind => kind.tag == tag

theorem ofTag?_tag (kind : EntryKind) : ofTag? kind.tag = some kind := by
  cases kind <;> decide

/-- The text has a mark of a decimal fraction or an exponent. -/
def hasFractionMark (s : List Char) : Bool := s.any fun c => c == '.' || c == 'e' || c == 'E'

/-- An integer entry, given what reads it. -/
def integerValue (result : Except Number.IntegerFault Int) : Except Detail Value :=
  match result with
  | .ok n => .ok (Value.ofNumber? (Number.ofInt? n))
  | .error fault => .error (.own fault.message)

/-- The value of an element of a kind that needs nothing but its trimmed text. -/
def scalar (kind : EntryKind) (s : List Char) : Except Detail Value :=
  match kind with
  | .steps =>
      .ok (.text (String.ofList (Text.join [' ', ';', ' '] (Script.split s))))
  | .boolean => .ok (.bool (s.map Char.toLower == "true".toList))
  | .integer => integerValue (Number.readInt32 s)
  | .long => integerValue (Number.readInt64 s)
  | .double =>
      match Number.readFloat? s with
      | some x => .ok (Value.ofNumber? (Number.ofFloat? x))
      | none =>
          .error <| .own <|
            if s.isEmpty then "cannot parse float from empty string" else "invalid float literal"
  | .bigInteger =>
      match Number.readWide? s with
      | some n => .ok (.number n)
      | none => .error (.own "not an integer within 64 bits")
  | .bigDecimal =>
      if hasFractionMark s then
        match Number.readNumber? s with
        | some n => .ok (.number n)
        | none => .error (.reader "malformed number")
      else
        match Number.readWide? s with
        | some n => .ok (.number n)
        | none => .error (.own "integer wider than 64 bits")
  | .date =>
      match Time.Date.ofChars? s with
      | some d => .ok (.date d)
      | none => .error (.reader "malformed date")
  | .dateTime =>
      match Time.DateTime.ofChars? s with
      | some t => .ok (.dateTime t)
      | none => .error (.reader "malformed date and time")
  | .duration =>
      match Time.Duration.ofChars? s with
      | some d => .ok (.duration d)
      | none => .error (.own "not an ISO-8601 duration")
  | .expression | .json | .entry | .text => .ok (.text (String.ofList s))

/-- The value of an element's text, for an element inside the given node. -/
def read (lang : Language) (kind : EntryKind) (n : NodeId) (text : String) : Action Value :=
  let trimmed := Text.trimmed text
  match kind with
  | .expression => n.eval lang trimmed
  | .json =>
      match Json.readLenient? trimmed with
      | some found => Action.update (World.build (some n) found)
      | none => Action.fail (.invalidJson (.reader "malformed text"))
  | kind =>
      match kind.scalar trimmed.toList with
      | .ok value => pure value
      | .error detail => Action.fail (.invalidEntry kind.tag trimmed detail)

end EntryKind

end ScriptTree
