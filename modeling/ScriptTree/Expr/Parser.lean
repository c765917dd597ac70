import ScriptTree.Expr.Lexer
import ScriptTree.Expr.Syntax

/-!
# From tokens to expressions

From loosest to tightest: assignment, choice, `||` or `or`, `&&` or `and`, equality, order, sums,
products, negation, and the parts and calls that follow an operand. Binary operators associate to
the left, assignment to the right. Every function takes the tokens that are left and gives those
that it did not use; its fuel bounds the number of steps, and `parseTokens` gives enough.
-/

set_option autoImplicit false

namespace ScriptTree.Expr

open ScriptTree.Script (Fault)

/-- A parsed expression and the tokens after it. -/
abbrev Parsed := Except Fault (Expr × List Token)

/-- Parsed expressions and the tokens after them. -/
abbrev ParsedAll := Except Fault (List Expr × List Token)

/-- The token that comes next. -/
def next : List Token → Token
  | [] => .finish
  | t :: _ => t

/-- The report that another token was expected. -/
def unexpected {α : Type} (expected : String) (tokens : List Token) : Except Fault α :=
  .error (.unexpectedToken expected (next tokens).describe)

/-- The report that the fuel is used up. `parseTokens` gives fuel enough, so it never reports it. -/
def spent {α : Type} : Except Fault α := .error (.raised "statement nested too deeply")

/-- Takes one given mark. -/
def expectMark (m : Mark) (expected : String) : List Token → Except Fault (List Token)
  | .mark found :: rest =>
      if found = m then .ok rest else unexpected expected (.mark found :: rest)
  | tokens => unexpected expected tokens

/-- The four tiers of binary operators, from loose to tight. -/
inductive Tier where
  | equality
  | order
  | sum
  | product
  deriving DecidableEq, Repr

/-- The next tighter tier. -/
def Tier.tighter : Tier → Option Tier
  | .equality => some .order
  | .order => some .sum
  | .sum => some .product
  | .product => none

/-- The operator that a mark stands for in a tier. -/
def Tier.operator? : Tier → Mark → Option Operator
  | .equality, .eq => some .eq
  | .equality, .ne => some .ne
  | .order, .le => some .le
  | .order, .ge => some .ge
  | .order, .lt => some .lt
  | .order, .gt => some .gt
  | .sum, .plus => some .add
  | .sum, .minus => some .sub
  | .product, .star => some .mul
  | .product, .slash => some .div
  | .product, .percent => some .mod
  | _, _ => none

/-- The operator of a tier that a token stands for. -/
def Tier.operatorAt? (tier : Tier) : Token → Option Operator
  | .mark m => tier.operator? m
  | _ => none

/-- The token joins alternatives. -/
def isOr (t : Token) : Bool := t = .mark .or || t = .word "or"

/-- The token joins conditions. -/
def isAnd (t : Token) : Bool := t = .mark .and || t = .word "and"

/-- The token negates a condition. -/
def isNot (t : Token) : Bool := t = .mark .bang || t = .word "not"

/-- The literal that a word stands for. -/
def wordLiteral? (s : String) : Option Literal :=
  if s = "true" then some (.bool true)
  else if s = "false" then some (.bool false)
  else if s = "null" then some .null
  else none

/-- The literal of a double; one that is not finite is null. -/
def floatLiteral (x : Float) : Literal :=
  match Number.ofFloat? x with
  | some n => .number n
  | none => .null

/-- The name that a token stands for after a point. -/
def memberName? : Token → Option String
  | .word s => some s
  | .int n => some (toString n)
  | _ => none

mutual

/-- An assignment or an expression that binds tighter. -/
def parseAssign : Nat → List Token → Parsed
  | 0, _ => spent
  | fuel + 1, tokens => do
      let (target, tokens) ← parseChoice fuel tokens
      match tokens with
      | .mark .assign :: rest =>
          if target.isPlace then
            let (value, tokens) ← parseAssign fuel rest
            return (.assign target value, tokens)
          else .error (.notAssignable target.report)
      | _ => return (target, tokens)

/-- A choice or an expression that binds tighter. -/
def parseChoice : Nat → List Token → Parsed
  | 0, _ => spent
  | fuel + 1, tokens => do
      let (test, tokens) ← parseOr fuel tokens
      match tokens with
      | .mark .question :: rest =>
          let (yes, tokens) ← parseAssign fuel rest
          let tokens ← expectMark .colon "':'" tokens
          let (no, tokens) ← parseAssign fuel tokens
          return (.choice test yes no, tokens)
      | _ => return (test, tokens)

/-- Alternatives. -/
def parseOr : Nat → List Token → Parsed
  | 0, _ => spent
  | fuel + 1, tokens => do
      let (left, tokens) ← parseAnd fuel tokens
      parseOrRest fuel left tokens

/-- Further alternatives after `left`. -/
def parseOrRest : Nat → Expr → List Token → Parsed
  | 0, _, _ => spent
  | fuel + 1, left, tokens =>
      match tokens with
      | t :: rest =>
          if isOr t then do
            let (right, tokens) ← parseAnd fuel rest
            parseOrRest fuel (.or left right) tokens
          else .ok (left, tokens)
      | [] => .ok (left, [])

/-- Conditions. -/
def parseAnd : Nat → List Token → Parsed
  | 0, _ => spent
  | fuel + 1, tokens => do
      let (left, tokens) ← parseTier fuel .equality tokens
      parseAndRest fuel left tokens

/-- Further conditions after `left`. -/
def parseAndRest : Nat → Expr → List Token → Parsed
  | 0, _, _ => spent
  | fuel + 1, left, tokens =>
      match tokens with
      | t :: rest =>
          if isAnd t then do
            let (right, tokens) ← parseTier fuel .equality rest
            parseAndRest fuel (.and left right) tokens
          else .ok (left, tokens)
      | [] => .ok (left, [])

/-- Operands of a tier, or one operand that binds tighter. -/
def parseTier : Nat → Tier → List Token → Parsed
  | 0, _, _ => spent
  | fuel + 1, tier, tokens => do
      let (left, tokens) ← parseOperand fuel tier tokens
      parseTierRest fuel tier left tokens

/-- Further operands of a tier after `left`. -/
def parseTierRest : Nat → Tier → Expr → List Token → Parsed
  | 0, _, _, _ => spent
  | fuel + 1, tier, left, tokens =>
      match tokens with
      | t :: rest =>
          match tier.operatorAt? t with
          | some op => do
              let (right, tokens) ← parseOperand fuel tier rest
              parseTierRest fuel tier (.binary op left right) tokens
          | none => .ok (left, tokens)
      | [] => .ok (left, [])

/-- An operand of a tier: an expression of the next tighter tier. -/
def parseOperand : Nat → Tier → List Token → Parsed
  | 0, _, _ => spent
  | fuel + 1, tier, tokens =>
      match tier.tighter with
      | some tighter => parseTier fuel tighter tokens
      | none => parseUnary fuel tokens

/-- Negations in front of an operand. -/
def parseUnary : Nat → List Token → Parsed
  | 0, _ => spent
  | fuel + 1, tokens =>
      match tokens with
      | t :: rest =>
          if t = .mark .minus then do
            let (operand, tokens) ← parseUnary fuel rest
            return (.neg operand, tokens)
          else if isNot t then do
            let (operand, tokens) ← parseUnary fuel rest
            return (.not operand, tokens)
          else do
            let (operand, tokens) ← parsePrimary fuel tokens
            parseParts fuel operand tokens
      | [] => unexpected "expression" []

/-- Parts and calls that follow `target`. -/
def parseParts : Nat → Expr → List Token → Parsed
  | 0, _, _ => spent
  | fuel + 1, target, tokens =>
      match tokens with
      | .mark .dot :: rest =>
          match memberName? (next rest) with
          | none => unexpected "member name" rest
          | some s =>
              match rest.tail with
              | .mark .openParen :: rest => do
                  let (arguments, tokens) ← parseArguments fuel .closeParen rest
                  parseParts fuel (.send target s arguments) tokens
              | rest => parseParts fuel (.member target s) rest
      | .mark .openBracket :: rest => do
          let (key, tokens) ← parseAssign fuel rest
          let tokens ← expectMark .closeBracket "']'" tokens
          parseParts fuel (.index target key) tokens
      | _ => .ok (target, tokens)

/-- The operands that stand on their own. -/
def parsePrimary : Nat → List Token → Parsed
  | 0, _ => spent
  | fuel + 1, tokens =>
      match tokens with
      | .int n :: rest => .ok (.literal (.number (Number.ofNat n)), rest)
      | .float x :: rest => .ok (.literal (floatLiteral x), rest)
      | .text s :: rest => .ok (.literal (.text s), rest)
      | .mark .openParen :: rest => do
          let (inner, tokens) ← parseAssign fuel rest
          let tokens ← expectMark .closeParen "')'" tokens
          return (inner, tokens)
      | .mark .openBracket :: rest => do
          let (items, tokens) ← parseArguments fuel .closeBracket rest
          return (.list items, tokens)
      | .word s :: rest =>
          match wordLiteral? s with
          | some value => .ok (.literal value, rest)
          | none =>
              match rest with
              | .mark .openParen :: rest => do
                  let (arguments, tokens) ← parseArguments fuel .closeParen rest
                  return (.call s arguments, tokens)
              | _ => .ok (.name s, rest)
      | tokens => unexpected "expression" tokens

/-- Expressions with commas between them, up to a closing mark. -/
def parseArguments : Nat → Mark → List Token → ParsedAll
  | 0, _, _ => spent
  | fuel + 1, close, tokens =>
      if next tokens = .mark close then .ok ([], tokens.tail)
      else parseItems fuel close tokens

/-- At least one expression, with commas between them, up to a closing mark. -/
def parseItems : Nat → Mark → List Token → ParsedAll
  | 0, _, _ => spent
  | fuel + 1, close, tokens => do
      let (item, tokens) ← parseAssign fuel tokens
      if next tokens = .mark close then return ([item], tokens.tail)
      else
        let tokens ← expectMark .comma "',' or closing bracket" tokens
        let (items, tokens) ← parseItems fuel close tokens
        return (item :: items, tokens)

end

/-- The expression of a list of tokens that ends with `finish`. No chain of sixteen steps leaves
the tokens as they are. -/
def parseTokens (tokens : List Token) : Except Fault Expr := do
  let (e, rest) ← parseAssign (16 * (tokens.length + 1)) tokens
  if next rest = .finish then return e else unexpected "end of statement" rest

/-- The expression of a statement. -/
def parse (text : String) : Except Fault Expr := do
  let tokens ← tokenize text
  parseTokens tokens

end ScriptTree.Expr
