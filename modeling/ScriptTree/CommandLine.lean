import ScriptTree.Language

/-!
# Running a model file

Loads a model file into a fresh tree with the language of scripts, runs the given steps or those
that the model holds for that, and prints the tree. The ending of the file's name tells its format.
-/

set_option autoImplicit false

namespace ScriptTree.CommandLine

/-- The formats of model files. -/
inductive Format where
  | json
  | xml
  deriving DecidableEq, Repr

/-- Why a model file is not even opened. -/
inductive Fault where
  | noFile
  | unknownFormat (ending : String)
  deriving DecidableEq, Repr

/-- The sentence for a model file that is not opened. -/
def Fault.message : Fault → String
  | .noFile => "First argument must be a model file."
  | .unknownFormat ending => "Unknown model format: " ++ ending

/-- How a run ends. -/
inductive Report where
  | printed (text : String)
  | refused (fault : Fault)
  /-- A failure, in the world that it left behind. -/
  | failed (cause : Failure) (w : World)
  | exhausted

/-- The format of a model file. -/
def format? (file : String) : Except Fault Format :=
  if file.isEmpty then .error .noFile
  else
    match Files.extension? file with
    | some "json" => .ok .json
    | some "xml" => .ok .xml
    | ending => .error (.unknownFormat (ending.getD ""))

/-- Merges a model file into a node. -/
def load (lang : Language) (root : NodeId) (file : String) : Format → Action Unit
  | .json =>
      root.loadFile lang file fun _ text => root.appendJson (NodeId.introspect lang) text
  | .xml =>
      root.loadFile lang file fun full text =>
        Document.append (NodeId.introspect lang) lang root full text

/-- Loads a model file, runs it and prints the tree. -/
def runModel (lang : Language) (root : NodeId) (file : String) (format : Format)
    (steps : Option String) : Action String := do
  load lang root file format
  let _ ← match steps with
    | some script => root.steps lang script []
    | none => root.run lang
  Action.inspect (·.snapshotText root)

/-- The engine with the language of scripts for templates and statements. -/
def engine : Engine := ⟨true, true, 100⟩

/-- Runs a model file among the given files. -/
def run (fuel : Nat) (files : Files.Tree) (file : String) (steps : Option String) : Report :=
  match format? file with
  | .error fault => .refused fault
  | .ok format =>
      let (root, w) := (World.initial engine files).create true
      match Action.holding [root] (runModel (Language.ofFuel fuel) root file format steps) w with
      | (.done text, _) => .printed text
      | (.failed cause, w) => .failed cause w
      | (.exhausted, _) => .exhausted

end ScriptTree.CommandLine
