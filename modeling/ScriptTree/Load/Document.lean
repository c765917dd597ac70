import ScriptTree.Load.EntryKind
import ScriptTree.Node.Write
import ScriptTree.Xml.Markup

/-!
# Loading documents

A document names a tree of nodes in XML. The outermost element stands for the receiving node and
may have any name; `model` elements are child nodes; every other element is a typed entry under its
key. Attributes of the outermost element and of models are instructions, kept under `$` and their
name. Each node is introspected when its element ends, so children come before parents.
-/

set_option autoImplicit false

namespace ScriptTree.Document

/-- An element that is open. -/
inductive Element where
  /-- The element of a node. -/
  | model (n : NodeId)
  /-- A typed entry of a node, with the text so far. -/
  | entry (kind : EntryKind) (key : String) (owner : NodeId) (text : String)

/-- The node that an element belongs to. -/
def Element.node : Element → NodeId
  | .model n => n
  | .entry _ _ owner _ => owner

/-- What reading a document needs: how nodes are introspected, what its statements mean, its name
in reports, and the node that it fills. -/
structure Setting where
  introspect : NodeId → Action Unit
  lang : Language
  source : String
  root : NodeId

namespace Setting

/-- Fails with a sentence about the document. -/
def fault {α : Type} (s : Setting) (detail : Detail) : Action α :=
  Action.fail (.invalidXml s.source detail)

/-- The attributes of a tag without blanks around keys and values, when all of them are sound. -/
def attributes? (tag : Xml.Tag) : Option (List (String × String)) :=
  if tag.sound then
    tag.attributes.mapM fun a => a.value.map fun v => (Text.trimmed a.key, Text.trimmed v)
  else none

/-- Stores attributes other than the key as instructions. -/
def putDirectives (n : NodeId) (attributes : List (String × String)) : Action Unit :=
  Action.change fun w =>
    w.putAll n ((attributes.filter fun a => a.1 != "key").map fun a => ("$" ++ a.1, .text a.2))

/-- A child element of a node. -/
def openInside (s : Setting) (parent : NodeId) (name : String)
    (attributes : List (String × String)) : Action Element := do
  match (attributes.find? fun a => a.1 == "key").map Prod.snd with
  | none => s.fault (.own ("<" ++ name ++ "> has no key attribute"))
  | some key =>
      if name == "model" then
        let child ← Action.update fun w =>
          let (child, w) := w.create (w.cell parent).engined
          (child, (w.setName child key).put parent key (.node child))
        putDirectives child attributes
        pure (.model child)
      else
        match EntryKind.ofTag? name with
        | some kind => pure (.entry kind key parent "")
        | none => s.fault (.own ("unknown element <" ++ name ++ ">"))

/-- A start tag inside the open elements. -/
def openTag (s : Setting) (stack : List Element) (tag : Xml.Tag) : Action (List Element) := do
  match attributes? tag with
  | none => s.fault (.reader "malformed attribute")
  | some attributes =>
      match stack with
      | [] =>
          -- The outermost element stands for the receiving node, whatever its name.
          putDirectives s.root attributes
          pure [.model s.root]
      | .entry kind _ _ _ :: _ =>
          s.fault (.own ("<" ++ tag.name ++ "> is not allowed inside <" ++ kind.tag ++ ">"))
      | .model parent :: _ => do
          let element ← s.openInside parent tag.name attributes
          pure (element :: stack)

/-- Text inside the open elements; it counts only inside an entry. -/
def addText (stack : List Element) (text : String) : List Element :=
  match stack with
  | .entry kind key owner before :: rest => .entry kind key owner (before ++ text) :: rest
  | stack => stack

/-- The end of the innermost open element. -/
def close (s : Setting) : List Element → Action (List Element)
  | [] => s.fault (.own "unbalanced closing element")
  | .model n :: rest => do
      s.introspect n
      pure rest
  | .entry kind key owner text :: rest => do
      let value ← kind.read s.lang owner text
      let _ ← owner.put key value
      pure rest

/-- One event. -/
def step (s : Setting) (stack : List Element) : Xml.Event → Action (List Element)
  | .start tag => s.openTag stack tag
  | .empty tag => do
      let stack ← s.openTag stack tag
      Action.holding (stack.map Element.node) (s.close stack)
  | .stop _ => s.close stack
  | .text (some content) => pure (addText stack content)
  | .text none => s.fault (.reader "unknown reference")
  | .data content => pure (addText stack content)
  | .aside => pure stack

/-- The events in order. -/
def steps (s : Setting) (stack : List Element) : List Xml.Event → Action (List Element)
  | [] => pure stack
  | event :: rest => do
      let stack ← Action.holding (stack.map Element.node) (s.step stack event)
      s.steps stack rest

/-- Reads the document of a text. -/
def read (s : Setting) (text : String) : Action Unit := do
  let reading := Xml.read text
  let stack ← s.steps [] reading.events
  if !reading.complete then s.fault (.reader "malformed markup")
  else if !stack.isEmpty then s.fault (.own "unexpected end of document")
  else pure ()

end Setting

/-- Merges the node of a document into another. -/
def append (introspect : NodeId → Action Unit) (lang : Language) (n : NodeId)
    (source text : String) : Action Unit := do
  let item ← Action.update (World.createUnder · (some n))
  Action.holding [item] (Setting.read ⟨introspect, lang, source, item⟩ text)
  Action.change fun w => w.merge n (w.cell item).entries

end ScriptTree.Document
