import ScriptTree.Properties.Basic
import ScriptTree.Xml.Markup

/-!
# Properties in markup

Each `entry` element is a property: its `key` attribute, and the text and character data inside it.
Everything else of the document is ignored.
-/

set_option autoImplicit false

namespace ScriptTree.Properties

/-- The element of a property. -/
def entryTag : String := "entry"

/-- The key of an entry. -/
def entryKey (tag : Xml.Tag) : Except Fault String :=
  match tag.attributes.find? fun a => a.key == "key" with
  | some a =>
      match a.value with
      | some key => .ok key
      | none => .error .markup
  | none => .error (if tag.sound then .missingKey else .markup)

/-- Progress through the events: the entries that have ended, and the entry under way. -/
structure Collector where
  entries : List (String × String)
  current : Option (String × String)

namespace Collector

/-- Adds text to the entry under way, if there is one. -/
def append (c : Collector) (text : String) : Collector :=
  { c with current := c.current.map fun (key, value) => (key, value ++ text) }

/-- Takes one event. -/
def step (c : Collector) : Xml.Event → Except Fault Collector
  | .start tag =>
      if tag.name == entryTag then
        (entryKey tag).map fun key => { c with current := some (key, "") }
      else .ok c
  | .empty tag =>
      if tag.name == entryTag then
        (entryKey tag).map fun key => { c with entries := c.entries ++ [(key, "")] }
      else .ok c
  | .text content =>
      match c.current, content with
      | none, _ => .ok c
      | some _, some text => .ok (c.append text)
      | some _, none => .error .markup
  | .data content => .ok (c.append content)
  | .stop name =>
      if name == entryTag then .ok ⟨c.entries ++ c.current.toList, none⟩ else .ok c
  | .aside => .ok c

end Collector

/-- The properties that a sequence of events holds. -/
def ofEvents (events : List Xml.Event) : Except Fault (List (String × String)) :=
  (events.foldlM Collector.step ⟨[], none⟩).map Collector.entries

/-- The properties of a document. -/
def ofMarkup (text : String) : Except Fault (List (String × String)) := do
  let reading := Xml.read text
  let entries ← ofEvents reading.events
  if reading.complete then return entries else .error .markup

end ScriptTree.Properties
