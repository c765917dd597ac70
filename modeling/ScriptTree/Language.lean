import ScriptTree.Template

/-!
# The language of scripts

Statements and templates are expressions, and evaluating one may expand templates and evaluate
further statements. Each such step inside another takes one unit of fuel; without fuel the action
gives up.
-/

set_option autoImplicit false

namespace ScriptTree.Language

/-- Parses and evaluates one statement. -/
def evaluateStatement (lang : Language) (c : Context) (statement : String) : Action Value :=
  match Expr.parse statement with
  | .ok e => e.eval lang c
  | .error fault => Action.fault fault

/-- The language with a bound on how far evaluation goes inside itself. -/
def ofFuel : Nat → Language
  | 0 => ⟨fun _ _ => Action.exhaust, fun _ _ => Action.exhaust⟩
  | fuel + 1 =>
      ⟨fun c text => Template.expand (ofFuel fuel) c text,
        fun c statement => evaluateStatement (ofFuel fuel) c statement⟩

end ScriptTree.Language
