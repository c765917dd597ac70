import ScriptTree.Node.Read
import ScriptTree.Steps.Text

/-!
# Sequences of steps

A sequence runs its statements one after another in a frame of its own that binds its arguments.
Each statement is expanded before it is evaluated. An early return ends the sequence with the
returned value; a failure of a statement that only passes on a failure of evaluation is reported
without the outer layer.
-/

set_option autoImplicit false

namespace ScriptTree

namespace NodeId

/-- Adds an event about the node to the trace, when the node has an engine. -/
def notify (n : NodeId) (kind : TraceKind) (message : String) : Action Unit :=
  Action.change fun w =>
    if (w.cell n).engined then w.record kind (w.path n) message else w

/-- The indentation of a sequence's events, two blanks for each frame. -/
def indentation (depth : Nat) : String := String.ofList (List.replicate (2 * depth) ' ')

/-- The event of the start of a sequence. -/
def startMessage (indent path : String) : String :=
  indent ++ (if path.isEmpty then "" else path ++ ":") ++ " (inline)"

/-- Expands and evaluates one text. -/
def perform (lang : Language) (n : NodeId) (text : String) : Action Value := do
  let script ← n.expand lang text
  n.eval lang script

/-- Runs statements in order, with the value of the last one, or of the one before them. -/
def performAll (lang : Language) (n : NodeId) (indent : String) : List String → Value → Action Value
  | [], last => pure last
  | step :: rest, last => do
      let value ← Action.holding last.nodes do
        n.notify .stepStart (indent ++ " -> " ++ step)
        n.perform lang step
      performAll lang n indent rest value

/-- What a sequence gives back, from how its statements ended. -/
def settleSteps : Except Failure Value → Action Value
  | .ok value => pure value
  | .error cause =>
      match cause.returned? with
      | some value => pure value
      | none => Action.fail cause.collapse

/-- Runs a script as a sequence with arguments. -/
def steps (lang : Language) (n : NodeId) (text : String)
    (arguments : List (String × Value)) : Action Value :=
  Action.withFrame arguments do
    let indent ← Action.inspect fun w => indentation w.frames.length
    let path ← Action.inspect (·.path n)
    n.notify .stepsStart (startMessage indent path)
    let result ← Action.attempt (n.performAll lang indent (Script.statements text) .null)
    settleSteps result

/-- Runs a value as a sequence without arguments. -/
def stepsOf (lang : Language) (n : NodeId) (value : Value) : Action Value := do
  let text ← Action.inspect (·.stepsText value)
  n.steps lang text []

/-- Runs the steps under a key. -/
def call (lang : Language) (n : NodeId) (key : String) (arguments : List (String × Value)) :
    Action Value := do
  match (← Action.inspect (·.getRaw n key)).filter fun value => !value.isNull with
  | some value =>
      let text ← Action.inspect (·.stepsText value)
      n.steps lang text arguments
  | none => Action.fail (.typeMismatch key "steps" "null")

/-- The key of the steps that a run prefers. -/
def runKey : String := "$$run"

/-- The key of the steps that a run takes when the preferred key is missing. -/
def stepsKey : String := "$steps"

/-- Runs the steps that the node holds for that. -/
def run (lang : Language) (n : NodeId) : Action Value := do
  if ← Action.inspect fun w => w.containsKey n runKey || !w.containsKey n stepsKey then
    n.call lang runKey []
  else n.call lang stepsKey []

end NodeId

end ScriptTree
