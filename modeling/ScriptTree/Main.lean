import ScriptTree.CommandLine

/-!
# The program

Reads the files next to a model file and below it, runs the model, and prints the tree or the
failure.
-/

set_option autoImplicit false

namespace ScriptTree.Program

/-- How far below the model file its files are read. -/
def depth : Nat := 16

/-- The fuel of evaluation inside evaluation. -/
def fuel : Nat := 100000

/-- The place of a directory entry, with directories down to a depth. A file that cannot be read
has no text. -/
def readEntry : Nat → IO.FS.DirEntry → IO (String × Files.Place)
  | 0, entry => pure (entry.fileName, .directory [])
  | depth + 1, entry => do
      if ← entry.path.isDir then
        let inner ← entry.path.readDir
        let members ← inner.toList.mapM (readEntry depth)
        pure (entry.fileName, .directory members)
      else
        let text ← try
            let bytes ← IO.FS.readBinFile entry.path
            pure (String.fromUTF8? bytes)
          catch _ => pure none
        pure (entry.fileName, .file text)

/-- The files next to a model file and below it, seen from the working directory. -/
def readFiles (file : String) : IO Files.Tree := do
  let working ← IO.currentDir
  let names (path : String) := (Files.components path).drop 1
  let root := Files.Place.insert (.directory []) (names working.toString) (.directory [])
  try
    let full ← IO.FS.realPath file
    let directory := full.parent.getD working
    let entries ← directory.readDir
    let members ← entries.toList.mapM (readEntry depth)
    let root := members.foldl
      (fun root p => Files.Place.insert p.2 (names directory.toString ++ [p.1]) root) root
    pure ⟨root, names working.toString⟩
  catch _ => pure ⟨root, names working.toString⟩

/-- Prints how a run ended; the exit code. -/
def report : CommandLine.Report → IO UInt32
  | .printed text => do
      IO.println text
      pure 0
  | .refused fault => do
      IO.eprintln ("Error: " ++ fault.message)
      pure 1
  | .failed cause w => do
      IO.eprintln ("Error: " ++ w.message cause)
      pure 1
  | .exhausted => do
      IO.eprintln "Error: evaluation goes too deep"
      pure 1

end ScriptTree.Program

/-- Runs a model file with the steps that are given, or with its own. -/
def main : List String → IO UInt32
  | [] => do
      IO.eprintln "usage: model-run <file.json|file.xml> [steps]"
      pure 1
  | file :: rest => do
      let files ← ScriptTree.Program.readFiles file
      ScriptTree.Program.report
        (ScriptTree.CommandLine.run ScriptTree.Program.fuel files file rest.head?)
