/-!
# Events of a marked-up text

What a reader of XML meets from left to right. A tag keeps the attributes up to the first one that
is malformed, and a value or text whose references cannot be resolved has no content, so that a
consumer can take the events in order and stop at the first fault that concerns it.
-/

set_option autoImplicit false

namespace ScriptTree.Xml

/-- An attribute; its value is absent when a reference in it cannot be resolved. -/
structure Attribute where
  key : String
  value : Option String
  deriving DecidableEq, Repr

/-- The name and attributes of an element. When `sound` is false, the attribute after those listed
is malformed or repeats a key. -/
structure Tag where
  name : String
  attributes : List Attribute
  sound : Bool
  deriving DecidableEq, Repr

/-- One step of a marked-up text. -/
inductive Event where
  /-- A start tag. -/
  | start (tag : Tag)
  /-- An element without content in one tag. -/
  | empty (tag : Tag)
  /-- The end tag of the innermost open element, by its name. -/
  | stop (name : String)
  /-- Text between markup, without blanks at its ends. -/
  | text (content : Option String)
  /-- A section of character data, as written. -/
  | data (content : String)
  /-- A comment, declaration, document type or processing instruction. -/
  | aside
  deriving DecidableEq, Repr

/-- The events of a text. When `complete` is false, the text is malformed after them. -/
structure Reading where
  events : List Event
  complete : Bool
  deriving DecidableEq, Repr

/-- Puts an event in front of a reading. -/
def Reading.cons (event : Event) (reading : Reading) : Reading :=
  { reading with events := event :: reading.events }

end ScriptTree.Xml
