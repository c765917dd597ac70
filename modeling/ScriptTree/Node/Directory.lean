import ScriptTree.Node.Write

/-!
# Directories of nodes

A node may name the directory that relative file names start from; its descendants inherit it. A
file name is taken as it stands when that exists, else from the node's directory.
-/

set_option autoImplicit false

namespace ScriptTree

/-- The key of a node's directory. -/
def directoryKey : String := "$currentDirectory"

namespace NodeId

/-- The directory that relative file names start from: of the nearest node of the lineage whose
directory is a text, else the working directory. -/
def directory (lang : Language) (n : NodeId) : Action String := do
  let lineage ← Action.inspect (·.lineage n)
  let named ← Action.inspect fun w =>
    lineage.findSome? fun m =>
      match w.getRaw m directoryKey with
      | some (.text s) => some (m, s)
      | _ => none
  match named with
  | some (m, s) => Action.holding [m] (m.expand lang s)
  | none => pure "."

/-- Makes relative file names start from a directory. Nothing is stored when they do already. -/
def setDirectory (lang : Language) (n : NodeId) (path : String) : Action Unit := do
  let files ← Action.inspect (·.files)
  if !files.hasPlace path then Action.fail (.missingDirectory path)
  else if !files.hasDirectory path then Action.fail (.notDirectory path)
  else
    let current ← n.directory lang
    if Files.samePath current path then pure ()
    else
      let _ ← n.put directoryKey (.text path)
      pure ()

/-- The path of the file that a name stands for. -/
def localFile (lang : Language) (n : NodeId) (name : String) : Action String := do
  let files ← Action.inspect (·.files)
  -- A name that exists as it stands wins over the node's directory.
  if files.hasPlace name then pure name
  else
    let directory ← n.directory lang
    let relative := Files.joinPath directory name
    if files.hasPlace relative then pure relative
    else Action.fail (.missingFile directory name)

end NodeId

end ScriptTree
