import ScriptTree.Load.Document
import ScriptTree.Load.Literal
import ScriptTree.Node.Directory
import ScriptTree.Properties.Lines
import ScriptTree.Properties.Markup
import ScriptTree.Steps.Text

/-!
# Instructions of nodes

A freshly filled node may name files to merge into it, and steps to run when that is done. A file
may name further files; one that is being loaded cannot be loaded again, so loads inside each other
are at most as many as there are files. Relative names start from the directory of the file that
holds them.
-/

set_option autoImplicit false

namespace ScriptTree

/-- The names in a list with commas between them, without blanks around them and without empty
ones. -/
def fileList (text : String) : List String :=
  (((Text.splitAt ',' text.toList).map Text.trim).filter (!·.isEmpty)).map String.ofList

/-- A fault of a properties source in a report. -/
def Properties.Fault.detail : Properties.Fault → Detail
  | .markup => .reader Properties.Fault.markup.message
  | fault => .own fault.message

namespace World

/-- Marks a file as being loaded. -/
def enterFile (w : World) (path : String) : World := { w with loading := path :: w.loading }

/-- Takes the mark of a file away. -/
def leaveFile (w : World) (path : String) : World := { w with loading := w.loading.erase path }

end World

/-- The absolute names of a file that is about to be loaded, which must not be under way. -/
def Action.locateFile (path : String) : Action (List String) := do
  match ← Action.inspect (·.files.locate path) with
  | .error fault => Action.fail (.unreadableFile path (.reader fault.message))
  | .ok names =>
      if ← Action.inspect (·.loading.contains (Files.absolute names)) then
        Action.fail (.circular (Files.absolute names))
      else pure names

/-- The text of a file. -/
def Action.readFile (path : String) : Action String := do
  match ← Action.inspect (·.files.read path) with
  | .ok text => pure text
  | .error fault => Action.fail (.unreadableFile path (.reader fault.message))

namespace NodeId

/-- Takes in the text of a file while the file is marked as being loaded, with the node's relative
names starting from the file's directory. The action is given the file's full path and its text. -/
def loadFile (lang : Language) (n : NodeId) (path : String)
    (take : String → String → Action Unit) : Action Unit := do
  let names ← Action.locateFile path
  let full := Files.absolute names
  Action.within (·.enterFile full) (·.leaveFile full) do
    n.setDirectory lang (Files.parentPath names)
    let text ← Action.readFile path
    take full text

/-- Stores the properties of a file in the tree below the node. -/
def loadProperties (n : NodeId) (read : String → Except Properties.Fault (List (String × String)))
    (path : String) : Action Unit := do
  let text ← Action.readFile path
  match read text with
  | .ok properties => Action.change (·.flatten n properties)
  | .error fault => Action.fail (.invalidProperties path fault.detail)

/-- Takes in every file that the value under a key lists. -/
def eachFile (lang : Language) (n : NodeId) (key : String) (take : String → Action Unit) :
    Action Unit := do
  match ← n.getText lang key with
  | none => pure ()
  | some text =>
      (fileList text).forM fun name => do
        let path ← n.localFile lang name
        take path

/-- Carries out the instructions of a node, given how those of nodes in its files are. -/
def introspectWith (introspect : NodeId → Action Unit) (lang : Language) (n : NodeId) :
    Action Unit := do
  -- Files come in the order of the keys here, whatever the order of the node's entries.
  n.eachFile lang "$json" fun path =>
    n.loadFile lang path fun _ text => n.appendJson introspect text
  n.eachFile lang "$xml" fun path =>
    n.loadFile lang path fun full text => Document.append introspect lang n full text
  n.eachFile lang "$properties" (n.loadProperties Properties.ofLines)
  n.eachFile lang "$properties-xml" (n.loadProperties Properties.ofMarkup)
  match ← Action.inspect (·.getRaw n "$onload") with
  | none => pure ()
  | some steps =>
      let text ← Action.inspect (·.stepsText steps)
      let script ← n.expand lang text
      let _ ← n.eval lang script
      pure ()

/-- Carries out the instructions of a node, with at most as many loads inside each other as the
fuel. -/
def introspectWithin (lang : Language) : Nat → NodeId → Action Unit
  | 0, _ => Action.exhaust
  | fuel + 1, n => n.introspectWith (introspectWithin lang fuel) lang

/-- Carries out the instructions of a node. -/
def introspect (lang : Language) (n : NodeId) : Action Unit := do
  let limit ← Action.inspect (·.files.loadLimit)
  introspectWithin lang (limit + 1) n

end NodeId

end ScriptTree
