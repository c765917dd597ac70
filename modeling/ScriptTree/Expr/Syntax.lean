import ScriptTree.Number.Basic
import ScriptTree.Text.Quoted

/-!
# Expressions

The syntax trees of statements, and the text that reports show of them.
-/

set_option autoImplicit false

namespace ScriptTree

namespace Expr

/-- A value written in a statement. -/
inductive Literal where
  | null
  | bool (b : Bool)
  | number (n : Number)
  | text (s : String)
  deriving DecidableEq

/-- A binary operator on values. -/
inductive Operator where
  | add | sub | mul | div | mod
  | eq | ne | lt | le | gt | ge
  deriving DecidableEq, Repr

/-- The symbol of an operator. -/
def Operator.symbol : Operator → String
  | .add => "+"
  | .sub => "-"
  | .mul => "*"
  | .div => "/"
  | .mod => "%"
  | .eq => "=="
  | .ne => "!="
  | .lt => "<"
  | .le => "<="
  | .gt => ">"
  | .ge => ">="

/-- The name of an operator in reports. -/
def Operator.name : Operator → String
  | .add => "Add"
  | .sub => "Sub"
  | .mul => "Mul"
  | .div => "Div"
  | .mod => "Mod"
  | .eq => "Eq"
  | .ne => "Ne"
  | .lt => "Lt"
  | .le => "Le"
  | .gt => "Gt"
  | .ge => "Ge"

end Expr

/-- An expression. -/
inductive Expr where
  | literal (value : Expr.Literal)
  | list (items : List Expr)
  /-- A bare name. -/
  | name (s : String)
  /-- A named part of a target. -/
  | member (target : Expr) (s : String)
  /-- The part of a target under a key. -/
  | index (target key : Expr)
  /-- A call of an operation of the node itself. -/
  | call (s : String) (arguments : List Expr)
  /-- A call of a method of a receiver. -/
  | send (receiver : Expr) (s : String) (arguments : List Expr)
  | neg (operand : Expr)
  | not (operand : Expr)
  | binary (op : Expr.Operator) (left right : Expr)
  | and (left right : Expr)
  | or (left right : Expr)
  /-- The second operand when the first is true, else the third. -/
  | choice (test yes no : Expr)
  | assign (place value : Expr)

namespace Expr

/-- An expression that can stand left of an assignment. -/
def isPlace : Expr → Bool
  | .name _ | .member _ _ | .index _ _ => true
  | _ => false

/-- A literal in reports. -/
def Literal.report : Literal → String
  | .null => "Null"
  | .bool b => "Bool(" ++ (if b then "true" else "false") ++ ")"
  | .number n => "Number(Number(" ++ n.text ++ "))"
  | .text s => "Text(" ++ Text.quoted s ++ ")"

mutual

/-- An expression in reports. -/
def report : Expr → String
  | .literal value => "Literal(" ++ value.report ++ ")"
  | .list items => "List([" ++ reportAll items ++ "])"
  | .name s => "Name(" ++ Text.quoted s ++ ")"
  | .member target s => "Member(" ++ report target ++ ", " ++ Text.quoted s ++ ")"
  | .index target key => "Index(" ++ report target ++ ", " ++ report key ++ ")"
  | .call s arguments =>
      "Call \x7b receiver: None, name: " ++ Text.quoted s ++ ", args: [" ++
        reportAll arguments ++ "] \x7d"
  | .send receiver s arguments =>
      "Call \x7b receiver: Some(" ++ report receiver ++ "), name: " ++ Text.quoted s ++
        ", args: [" ++ reportAll arguments ++ "] \x7d"
  | .neg operand => "Unary(Neg, " ++ report operand ++ ")"
  | .not operand => "Unary(Not, " ++ report operand ++ ")"
  | .binary op left right =>
      "Binary(" ++ op.name ++ ", " ++ report left ++ ", " ++ report right ++ ")"
  | .and left right => "And(" ++ report left ++ ", " ++ report right ++ ")"
  | .or left right => "Or(" ++ report left ++ ", " ++ report right ++ ")"
  | .choice test yes no =>
      "Ternary(" ++ report test ++ ", " ++ report yes ++ ", " ++ report no ++ ")"
  | .assign place value => "Assign(" ++ report place ++ ", " ++ report value ++ ")"

/-- Expressions in reports, with commas between them. -/
def reportAll : List Expr → String
  | [] => ""
  | e :: rest =>
      report e ++ match rest with
        | [] => ""
        | _ :: _ => ", " ++ reportAll rest

end

end Expr

end ScriptTree
