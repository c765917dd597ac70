import ScriptTree.Steps.Sequence

/-!
# Branches, loops and handlers

Tests have to give a truth value. A bounded loop takes a failing test for true and goes on after a
failing operation, with both in the trace; only an early return leaves it. A handler runs when a
sequence fails, with the failure bound to `exception`.
-/

set_option autoImplicit false

namespace ScriptTree.NodeId

/-- The truth value of a test. -/
def test (lang : Language) (n : NodeId) (text : String) : Action Bool := do
  match ← n.perform lang text with
  | .bool b => pure b
  | other => Action.fail (.typeMismatch text "boolean" other.typeName)

/-- Runs steps when a test holds. -/
def ifThen (lang : Language) (n : NodeId) (test : String) (yes : Value) : Action Unit := do
  if ← n.test lang test then
    let _ ← n.stepsOf lang yes
    pure ()
  else pure ()

/-- Runs one of two values as steps. -/
def ifThenElse (lang : Language) (n : NodeId) (test : String) (yes no : Value) : Action Unit := do
  let holds ← n.test lang test
  let _ ← n.stepsOf lang (if holds then yes else no)
  pure ()

/-- A failure in the trace, with its category. -/
def failureReport (w : World) (cause : Failure) : String :=
  "[" ++ cause.category.name ++ "] " ++ w.message cause

/-- Raises an early return again, without what wraps it; other failures go to the trace. -/
def skip (n : NodeId) (kind : TraceKind) (what : String) (cause : Failure) : Action Unit :=
  match cause.signal? with
  | some signal => Action.fail signal
  | none => do
      let report ← Action.inspect (failureReport · cause)
      n.notify kind ("whileDo: " ++ what ++ "; " ++ report)

/-- The test of a loop after a number of tries. -/
def whileTest (lang : Language) (n : NodeId) (test : String) (tries : Nat) : Action Bool := do
  match ← Action.attempt (n.test lang test) with
  | .ok holds =>
      if tries > 0 || !holds then
        n.notify .whileTest <|
          "whileDo [" ++ toString tries ++ "]: test: '" ++ test ++ "' == " ++ boolText holds
      pure holds
  | .error cause =>
      n.skip .whileTest ("test [" ++ toString tries ++ ": " ++ test ++ "]") cause
      pure true

/-- One operation of a loop in a try. -/
def whileOperation (lang : Language) (n : NodeId) (tries : Nat) (operation : String) :
    Action Unit := do
  match ← Action.attempt (n.perform lang operation) with
  | .ok _ => pure ()
  | .error cause =>
      n.skip .whileOperation ("operation [" ++ toString tries ++ ": " ++ operation ++ "]") cause

/-- The rest of a loop after a number of tries, with at most `left` more. -/
def whileFrom (lang : Language) (n : NodeId) (test : String) (operations : List String) :
    (left tries : Nat) → Action Unit
  | left, tries => do
      if ← n.whileTest lang test tries then
        match left with
        | 0 => Action.fail (.outOfTries tries test)
        | left + 1 =>
            operations.forM (n.whileOperation lang (tries + 1))
            whileFrom lang n test operations left (tries + 1)
      else pure ()

/-- Repeats operations while a test holds, at most `limit` times. -/
def whileDo (lang : Language) (n : NodeId) (test : String) (operations : List String)
    (limit : Nat) : Action Unit :=
  n.whileFrom lang test operations limit 0

/-- Runs steps, and handler steps when they fail. -/
def tryExcept (lang : Language) (n : NodeId) (operations handler : Value) : Action Unit := do
  match ← Action.attempt (n.stepsOf lang operations) with
  | .ok _ => pure ()
  | .error cause =>
      let report ← Action.inspect fun w =>
        "Handling exception: [" ++ cause.category.name ++ "]: " ++ w.message cause
      n.notify .exceptionHandled report
      let text ← Action.inspect (·.stepsText handler)
      let _ ← n.steps lang text [("exception", .failure cause)]
      pure ()

end ScriptTree.NodeId
