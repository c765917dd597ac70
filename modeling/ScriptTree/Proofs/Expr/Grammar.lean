import Mathlib.Data.List.Basic
import ScriptTree.Proofs.Expr.Brackets

/-!
# The grammar of expressions

Expressions stand on eleven levels, from assignment down to the operands that stand on their own.
`Derives` says which tokens make up an expression of a level. What the parser takes for one is
derived (`sound`), and what it reports with fuel enough is a fault of the tokens, never the end of
the fuel: a step that leaves the tokens as they are goes to a tighter level, and there are fewer
than sixteen of those (`parseTokens_reports`).
-/

set_option autoImplicit false

namespace ScriptTree.Expr

open ScriptTree.Script (Fault)

/-! ## Levels -/

/-- The levels of expressions, from loose to tight. -/
inductive Level where
  | assign
  | choice
  | or
  | and
  | equality
  | order
  | sum
  | product
  | unary
  /-- An operand and the parts and calls that follow it. -/
  | access
  | primary
  deriving DecidableEq, Repr

/-- The next tighter level. -/
def Level.tighter? : Level → Option Level
  | .assign => some .choice
  | .choice => some .or
  | .or => some .and
  | .and => some .equality
  | .equality => some .order
  | .order => some .sum
  | .sum => some .product
  | .product => some .unary
  | .unary => some .access
  | .access => some .primary
  | .primary => none

/-- The token joins two operands on the level, to an expression. -/
inductive Joins (left right : Expr) : Level → Token → Expr → Prop
  | or : Joins left right .or (.mark .or) (.or left right)
  | orWord : Joins left right .or (.word "or") (.or left right)
  | and : Joins left right .and (.mark .and) (.and left right)
  | andWord : Joins left right .and (.word "and") (.and left right)
  | eq : Joins left right .equality (.mark .eq) (.binary .eq left right)
  | ne : Joins left right .equality (.mark .ne) (.binary .ne left right)
  | lt : Joins left right .order (.mark .lt) (.binary .lt left right)
  | le : Joins left right .order (.mark .le) (.binary .le left right)
  | gt : Joins left right .order (.mark .gt) (.binary .gt left right)
  | ge : Joins left right .order (.mark .ge) (.binary .ge left right)
  | add : Joins left right .sum (.mark .plus) (.binary .add left right)
  | sub : Joins left right .sum (.mark .minus) (.binary .sub left right)
  | mul : Joins left right .product (.mark .star) (.binary .mul left right)
  | div : Joins left right .product (.mark .slash) (.binary .div left right)
  | mod : Joins left right .product (.mark .percent) (.binary .mod left right)

/-- The token stands in front of an operand and negates it. -/
inductive Negates (operand : Expr) : Token → Expr → Prop
  | minus : Negates operand (.mark .minus) (.neg operand)
  | bang : Negates operand (.mark .bang) (.not operand)
  | notWord : Negates operand (.word "not") (.not operand)

/-- The token is a literal. -/
inductive Denotes : Token → Literal → Prop
  | int (n : Nat) : Denotes (.int n) (.number (.ofNat n))
  | float (x : Float) : Denotes (.float x) (floatLiteral x)
  | text (s : String) : Denotes (.text s) (.text s)
  | yes : Denotes (.word "true") (.bool true)
  | no : Denotes (.word "false") (.bool false)
  | null : Denotes (.word "null") .null

/-- The token names a part or a method after a point. Every word does. -/
inductive Labels : Token → String → Prop
  | word (s : String) : Labels (.word s) s
  | int (n : Nat) : Labels (.int n) (toString n)

/-- The words that are no names where an operand stands on its own. -/
def reserved : List String := ["true", "false", "null", "not"]

/-! ## Derivations -/

mutual

/-- The tokens make up an expression of the level. -/
inductive Derives : Level → List Token → Expr → Prop
  /-- An expression of a tighter level. -/
  | ascend {level tighter : Level} {s : List Token} {e : Expr} :
      level.tighter? = some tighter → Derives tighter s e → Derives level s e
  | assign {s t : List Token} {place value : Expr} :
      Derives .choice s place → place.isPlace = true → Derives .assign t value →
      Derives .assign (s ++ .mark .assign :: t) (.assign place value)
  | choice {s t u : List Token} {test yes no : Expr} :
      Derives .or s test → Derives .assign t yes → Derives .assign u no →
      Derives .choice (s ++ .mark .question :: (t ++ .mark .colon :: u)) (.choice test yes no)
  /-- Operands associate to the left: the right one is of a tighter level. -/
  | join {level tighter : Level} {t : Token} {s u : List Token} {left right e : Expr} :
      Joins left right level t e → level.tighter? = some tighter → Derives level s left →
      Derives tighter u right → Derives level (s ++ t :: u) e
  | negate {t : Token} {s : List Token} {operand e : Expr} :
      Negates operand t e → Derives .unary s operand → Derives .unary (t :: s) e
  | member {s : List Token} {t : Token} {target : Expr} {name : String} :
      Derives .access s target → Labels t name →
      Derives .access (s ++ [.mark .dot, t]) (.member target name)
  | send {s u : List Token} {t : Token} {receiver : Expr} {name : String}
      {arguments : List Expr} :
      Derives .access s receiver → Labels t name → DerivesAll u arguments →
      Derives .access (s ++ .mark .dot :: t :: .mark .openParen :: (u ++ [.mark .closeParen]))
        (.send receiver name arguments)
  | index {s u : List Token} {target key : Expr} :
      Derives .access s target → Derives .assign u key →
      Derives .access (s ++ .mark .openBracket :: (u ++ [.mark .closeBracket])) (.index target key)
  | literal {t : Token} {value : Literal} :
      Denotes t value → Derives .primary [t] (.literal value)
  | name {s : String} : s ∉ reserved → Derives .primary [.word s] (.name s)
  | call {name : String} {u : List Token} {arguments : List Expr} :
      name ∉ reserved → DerivesAll u arguments →
      Derives .primary (.word name :: .mark .openParen :: (u ++ [.mark .closeParen]))
        (.call name arguments)
  | list {u : List Token} {items : List Expr} :
      DerivesAll u items →
      Derives .primary (.mark .openBracket :: (u ++ [.mark .closeBracket])) (.list items)
  | parens {u : List Token} {e : Expr} :
      Derives .assign u e →
      Derives .primary (.mark .openParen :: (u ++ [.mark .closeParen])) e

/-- The tokens make up expressions with commas between them, or nothing. -/
inductive DerivesAll : List Token → List Expr → Prop
  | none : DerivesAll [] []
  | some {s : List Token} {items : List Expr} : DerivesSome s items → DerivesAll s items

/-- The tokens make up one expression or more, with commas between them. -/
inductive DerivesSome : List Token → List Expr → Prop
  | last {s : List Token} {e : Expr} : Derives .assign s e → DerivesSome s [e]
  | more {s u : List Token} {e : Expr} {items : List Expr} :
      Derives .assign s e → DerivesSome u items →
      DerivesSome (s ++ .mark .comma :: u) (e :: items)

end

/-! ## The end of the input -/

theorem Joins.ne_finish {left right e : Expr} {level : Level} {t : Token}
    (h : Joins left right level t e) : t ≠ .finish := by
  cases h <;> simp

theorem Negates.ne_finish {operand e : Expr} {t : Token} (h : Negates operand t e) :
    t ≠ .finish := by
  cases h <;> simp

theorem Denotes.ne_finish {t : Token} {value : Literal} (h : Denotes t value) : t ≠ .finish := by
  cases h <;> simp

theorem Labels.ne_finish {t : Token} {name : String} (h : Labels t name) : t ≠ .finish := by
  cases h <;> simp

mutual

theorem Derives.finish_notMem : ∀ {level : Level} {s : List Token} {e : Expr},
    Derives level s e → Token.finish ∉ s
  | _, _, _, .ascend _ h => h.finish_notMem
  | _, _, _, .assign h _ h' => by simp [h.finish_notMem, h'.finish_notMem]
  | _, _, _, .choice h h' h'' => by
      simp [h.finish_notMem, h'.finish_notMem, h''.finish_notMem]
  | _, _, _, .join h _ h' h'' => by
      simp [h.ne_finish.symm, h'.finish_notMem, h''.finish_notMem]
  | _, _, _, .negate h h' => by simp [h.ne_finish.symm, h'.finish_notMem]
  | _, _, _, .member h h' => by simp [h.finish_notMem, h'.ne_finish.symm]
  | _, _, _, .send h h' h'' => by
      simp [h.finish_notMem, h'.ne_finish.symm, h''.finish_notMem]
  | _, _, _, .index h h' => by simp [h.finish_notMem, h'.finish_notMem]
  | _, _, _, .literal h => by simp [h.ne_finish.symm]
  | _, _, _, .name _ => by simp
  | _, _, _, .call _ h => by simp [h.finish_notMem]
  | _, _, _, .list h => by simp [h.finish_notMem]
  | _, _, _, .parens h => by simp [h.finish_notMem]

theorem DerivesAll.finish_notMem : ∀ {s : List Token} {items : List Expr},
    DerivesAll s items → Token.finish ∉ s
  | _, _, .none => by simp
  | _, _, .some h => h.finish_notMem

theorem DerivesSome.finish_notMem : ∀ {s : List Token} {items : List Expr},
    DerivesSome s items → Token.finish ∉ s
  | _, _, .last h => h.finish_notMem
  | _, _, .more h h' => by simp [h.finish_notMem, h'.finish_notMem]

end

/-! ## Results of the parser -/

/-- What the tokens can be blamed for: one that does not fit, or a target that cannot be assigned
to. -/
inductive OfTokens : Fault → Prop
  | unexpected (expected found : String) : OfTokens (.unexpectedToken expected found)
  | target (place : String) : OfTokens (.notAssignable place)

/-- A result for the tokens: it has taken some of them from the front, as `P` says, or it reports a
fault, of the tokens when there was fuel enough. -/
def Yields {α : Type} (enough : Prop) (P : α → List Token → Prop) (tokens : List Token) :
    Except Fault (α × List Token) → Prop
  | .ok (x, rest) => ∃ taken, tokens = taken ++ rest ∧ P x taken
  | .error fault => enough → OfTokens fault

namespace Yields

variable {α β : Type} {enough enough' : Prop} {P P' : α → List Token → Prop}
  {Q : β → List Token → Prop} {tokens : List Token} {result : Except Fault (α × List Token)}

theorem ok {x : α} (h : P x []) : Yields enough P tokens (.ok (x, tokens)) :=
  ⟨[], rfl, h⟩

theorem one {x : α} {t : Token} (h : P x [t]) : Yields enough P (t :: tokens) (.ok (x, tokens)) :=
  ⟨[t], rfl, h⟩

theorem unexpected (expected : String) (found : List Token) :
    Yields enough P tokens (unexpected expected found) :=
  fun _ => .unexpected _ _

theorem spent (h : ¬ enough) : Yields enough P tokens spent := fun henough => absurd henough h

theorem mono (h : Yields enough P tokens result) (henough : enough' → enough)
    (hP : ∀ x taken, P x taken → P' x taken) : Yields enough' P' tokens result := by
  rcases result with fault | ⟨x, rest⟩
  · exact fun hready => h (henough hready)
  · obtain ⟨taken, htokens, hx⟩ := h
    exact ⟨taken, htokens, hP x taken hx⟩

/-- One token in front. -/
theorem cons {t : Token} (h : Yields enough (fun x s => P x (t :: s)) tokens result) :
    Yields enough P (t :: tokens) result := by
  rcases result with fault | ⟨x, rest⟩
  · exact h
  · obtain ⟨taken, rfl, hx⟩ := h
    exact ⟨t :: taken, rfl, hx⟩

theorem bind {next : α × List Token → Except Fault (β × List Token)}
    (h : Yields enough P tokens result) (henough : enough' → enough)
    (hnext : ∀ x taken rest, tokens = taken ++ rest → P x taken →
      Yields enough' (fun y s => Q y (taken ++ s)) rest (next (x, rest))) :
    Yields enough' Q tokens (result >>= next) := by
  rcases result with fault | ⟨x, rest⟩
  · exact fun hready => h (henough hready)
  · obtain ⟨taken, rfl, hx⟩ := h
    have hrest := hnext x taken rest rfl hx
    show Yields enough' Q (taken ++ rest) (next (x, rest))
    rcases hresult : next (x, rest) with fault | ⟨y, rest'⟩
    · rw [hresult] at hrest
      exact hrest
    · rw [hresult] at hrest
      obtain ⟨taken', rfl, hy⟩ := hrest
      exact ⟨taken ++ taken', by rw [List.append_assoc], hy⟩

/-- A given mark comes next. -/
theorem expect {m : Mark} {expected : String} {next : List Token → Except Fault (β × List Token)}
    (hnext : ∀ rest, tokens = .mark m :: rest →
      Yields enough (fun y s => Q y (.mark m :: s)) rest (next rest)) :
    Yields enough Q tokens (expectMark m expected tokens >>= next) := by
  unfold expectMark
  split
  · rename_i found rest
    split
    · rename_i hfound
      rw [hfound]
      exact cons (hnext rest (by rw [hfound]))
    · exact unexpected _ _
  · exact unexpected _ _

/-- A closing mark comes next and is taken. -/
theorem close {m : Mark} {x : α} (hnext : next tokens = .mark m) (h : P x [.mark m]) :
    Yields enough P tokens (.ok (x, tokens.tail)) := by
  cases tokens with
  | nil => cases hnext
  | cons t rest =>
      have ht : t = .mark m := hnext
      rw [ht]
      exact one h

end Yields

/-! ## Steps of the parser -/

/-- The level of a tier. -/
def Tier.level : Tier → Level
  | .equality => .equality
  | .order => .order
  | .sum => .sum
  | .product => .product

/-- The level of the operands of a tier. -/
def Tier.operands : Tier → Level
  | .equality => .order
  | .order => .sum
  | .sum => .product
  | .product => .unary

/-- The number of steps from a tier to the operands that stand on their own. -/
def Tier.depth : Tier → Nat
  | .equality => 10
  | .order => 8
  | .sum => 6
  | .product => 4

theorem Tier.four_le_depth (tier : Tier) : 4 ≤ tier.depth := by
  cases tier <;> decide

theorem Tier.tighter?_level (tier : Tier) : tier.level.tighter? = some tier.operands := by
  cases tier <;> rfl

theorem Tier.joins_of_operatorAt {tier : Tier} {t : Token} {op : Operator}
    (left right : Expr) (h : tier.operatorAt? t = some op) :
    Joins left right tier.level t (.binary op left right) := by
  cases t with
  | mark m =>
      cases m <;> cases tier <;> first | (cases h; constructor) | cases h
  | _ => cases h

theorem joins_of_isOr {t : Token} (left right : Expr) (h : isOr t = true) :
    Joins left right .or t (.or left right) := by
  simp only [isOr, Bool.or_eq_true, decide_eq_true_eq] at h
  rcases h with rfl | rfl
  · exact .or
  · exact .orWord

theorem joins_of_isAnd {t : Token} (left right : Expr) (h : isAnd t = true) :
    Joins left right .and t (.and left right) := by
  simp only [isAnd, Bool.or_eq_true, decide_eq_true_eq] at h
  rcases h with rfl | rfl
  · exact .and
  · exact .andWord

theorem negates_of_isNot {t : Token} (operand : Expr) (h : isNot t = true) :
    Negates operand t (.not operand) := by
  simp only [isNot, Bool.or_eq_true, decide_eq_true_eq] at h
  rcases h with rfl | rfl
  · exact .bang
  · exact .notWord

theorem labels_of_memberName {t : Token} {name : String} (h : memberName? t = some name) :
    Labels t name := by
  cases t with
  | word => cases h; exact .word _
  | int => cases h; exact .int _
  | _ => cases h

theorem denotes_of_wordLiteral {s : String} {value : Literal} (h : wordLiteral? s = some value) :
    Denotes (.word s) value := by
  unfold wordLiteral? at h
  split at h
  · rename_i hs
    cases h
    rw [hs]
    exact .yes
  · split at h
    · rename_i hs
      cases h
      rw [hs]
      exact .no
    · split at h
      · rename_i hs
        cases h
        rw [hs]
        exact .null
      · cases h

theorem not_mem_reserved {s : String} (hword : wordLiteral? s = none)
    (hnot : isNot (.word s) = false) : s ∉ reserved := by
  intro hmem
  simp only [reserved, List.mem_cons, List.not_mem_nil, or_false] at hmem
  rcases hmem with rfl | rfl | rfl | rfl
  · cases hword
  · cases hword
  · cases hword
  · cases hnot

/-- With that much fuel every function of the parser takes what its level derives. The fuel is
enough for sixteen steps for each token and those down to the tightest level. The functions that go
on behind an expression take what makes it a longer one. -/
structure Sound (fuel : Nat) : Prop where
  assign : ∀ tokens, Yields (16 * tokens.length + 14 ≤ fuel) (fun e s => Derives .assign s e)
    tokens (parseAssign fuel tokens)
  choice : ∀ tokens, Yields (16 * tokens.length + 13 ≤ fuel) (fun e s => Derives .choice s e)
    tokens (parseChoice fuel tokens)
  or : ∀ tokens, Yields (16 * tokens.length + 12 ≤ fuel) (fun e s => Derives .or s e)
    tokens (parseOr fuel tokens)
  orRest : ∀ left tokens, Yields (16 * tokens.length + 1 ≤ fuel)
    (fun e s => ∀ before, Derives .or before left → Derives .or (before ++ s) e)
    tokens (parseOrRest fuel left tokens)
  and : ∀ tokens, Yields (16 * tokens.length + 11 ≤ fuel) (fun e s => Derives .and s e)
    tokens (parseAnd fuel tokens)
  andRest : ∀ left tokens, Yields (16 * tokens.length + 1 ≤ fuel)
    (fun e s => ∀ before, Derives .and before left → Derives .and (before ++ s) e)
    tokens (parseAndRest fuel left tokens)
  tier : ∀ tier tokens, Yields (16 * tokens.length + tier.depth ≤ fuel)
    (fun e s => Derives tier.level s e) tokens (parseTier fuel tier tokens)
  tierRest : ∀ tier left tokens, Yields (16 * tokens.length + 1 ≤ fuel)
    (fun e s => ∀ before, Derives tier.level before left → Derives tier.level (before ++ s) e)
    tokens (parseTierRest fuel tier left tokens)
  operand : ∀ tier tokens, Yields (16 * tokens.length + (tier.depth - 1) ≤ fuel)
    (fun e s => Derives tier.operands s e) tokens (parseOperand fuel tier tokens)
  unary : ∀ tokens, Yields (16 * tokens.length + 2 ≤ fuel) (fun e s => Derives .unary s e)
    tokens (parseUnary fuel tokens)
  parts : ∀ target tokens, Yields (16 * tokens.length + 1 ≤ fuel)
    (fun e s => ∀ before, Derives .access before target → Derives .access (before ++ s) e)
    tokens (parseParts fuel target tokens)
  /-- The negations have been looked for in front of the operand. -/
  primary : ∀ tokens, isNot (next tokens) = false → Yields (16 * tokens.length + 1 ≤ fuel)
    (fun e s => Derives .primary s e) tokens (parsePrimary fuel tokens)
  arguments : ∀ close tokens, Yields (16 * tokens.length + 16 ≤ fuel)
    (fun items s => ∃ inner, s = inner ++ [.mark close] ∧ DerivesAll inner items)
    tokens (parseArguments fuel close tokens)
  items : ∀ close tokens, Yields (16 * tokens.length + 15 ≤ fuel)
    (fun items s => ∃ inner, s = inner ++ [.mark close] ∧ DerivesSome inner items)
    tokens (parseItems fuel close tokens)

section Sound

variable {fuel : Nat}

theorem yields_parseAssign (h : Sound fuel) (tokens : List Token) :
    Yields (16 * tokens.length + 14 ≤ fuel + 1) (fun e s => Derives .assign s e) tokens
      (parseAssign (fuel + 1) tokens) := by
  rw [parseAssign]
  refine (h.choice tokens).bind (by omega) fun target taken rest htokens htarget => ?_
  have hlength := congrArg List.length htokens
  rw [List.length_append] at hlength
  dsimp only
  split
  · rename_i rest'
    rw [List.length_cons] at hlength
    split
    · rename_i hplace
      refine Yields.cons ?_
      refine (h.assign rest').bind (by omega) fun value taken' rest'' _ hvalue => ?_
      apply Yields.ok
      rw [List.append_nil]
      exact .assign htarget hplace hvalue
    · exact fun _ => .target _
  · apply Yields.ok
    rw [List.append_nil]
    exact .ascend rfl htarget

theorem yields_parseChoice (h : Sound fuel) (tokens : List Token) :
    Yields (16 * tokens.length + 13 ≤ fuel + 1) (fun e s => Derives .choice s e) tokens
      (parseChoice (fuel + 1) tokens) := by
  rw [parseChoice]
  refine (h.or tokens).bind (by omega) fun test taken rest htokens htest => ?_
  have hlength := congrArg List.length htokens
  rw [List.length_append] at hlength
  dsimp only
  split
  · rename_i rest'
    rw [List.length_cons] at hlength
    refine Yields.cons ?_
    refine (h.assign rest').bind (by omega) fun yes taken' colon hrest' hyes => ?_
    have hlength' := congrArg List.length hrest'
    rw [List.length_append] at hlength'
    refine Yields.expect fun rest'' hcolon => ?_
    have hlength'' := congrArg List.length hcolon
    rw [List.length_cons] at hlength''
    refine (h.assign rest'').bind (by omega) fun no taken'' _ _ hno => ?_
    apply Yields.ok
    rw [List.append_nil]
    exact .choice htest hyes hno
  · apply Yields.ok
    rw [List.append_nil]
    exact .ascend rfl htest

/-- A loop over the operands of a level goes on: behind the operand and what follows it, the
expression is one of the level again. -/
theorem Yields.loop {enough enough' : Prop} {level tighter : Level} {t : Token}
    {left right joined : Expr} {taken rest : List Token} {result : Parsed}
    (hjoins : Joins left right level t joined) (htighter : level.tighter? = some tighter)
    (hright : Derives tighter taken right)
    (h : Yields enough (fun e s => ∀ before, Derives level before joined →
      Derives level (before ++ s) e) rest result) (henough : enough' → enough) :
    Yields enough' (fun e s => ∀ before, Derives level before left →
      Derives level (before ++ t :: (taken ++ s)) e) rest result := by
  refine h.mono henough fun e s hs before hbefore => ?_
  have hjoined := hs _ (.join hjoins htighter hbefore hright)
  rw [List.append_assoc] at hjoined
  exact hjoined

theorem yields_parseOrRest (h : Sound fuel) (left : Expr) (tokens : List Token) :
    Yields (16 * tokens.length + 1 ≤ fuel + 1)
      (fun e s => ∀ before, Derives .or before left → Derives .or (before ++ s) e) tokens
      (parseOrRest (fuel + 1) left tokens) := by
  rw [parseOrRest.eq_def]
  dsimp only
  split
  · rename_i t rest
    split
    · rename_i hor
      rw [List.length_cons]
      refine Yields.cons ((h.and rest).bind (by omega) fun right taken rest' hrest hright => ?_)
      have hlength := congrArg List.length hrest
      rw [List.length_append] at hlength
      exact (h.orRest _ rest').loop (joins_of_isOr _ _ hor) rfl hright (by omega)
    · exact Yields.ok fun before hbefore => by rwa [List.append_nil]
  · exact Yields.ok fun before hbefore => by rwa [List.append_nil]

theorem yields_parseAndRest (h : Sound fuel) (left : Expr) (tokens : List Token) :
    Yields (16 * tokens.length + 1 ≤ fuel + 1)
      (fun e s => ∀ before, Derives .and before left → Derives .and (before ++ s) e) tokens
      (parseAndRest (fuel + 1) left tokens) := by
  rw [parseAndRest.eq_def]
  dsimp only
  split
  · rename_i t rest
    split
    · rename_i hand
      rw [List.length_cons]
      have hdepth : Tier.equality.depth = 10 := rfl
      refine Yields.cons ((h.tier .equality rest).bind (by omega)
        fun right taken rest' hrest hright => ?_)
      have hlength := congrArg List.length hrest
      rw [List.length_append] at hlength
      exact (h.andRest _ rest').loop (joins_of_isAnd _ _ hand) rfl hright (by omega)
    · exact Yields.ok fun before hbefore => by rwa [List.append_nil]
  · exact Yields.ok fun before hbefore => by rwa [List.append_nil]

theorem yields_parseTierRest (h : Sound fuel) (tier : Tier) (left : Expr) (tokens : List Token) :
    Yields (16 * tokens.length + 1 ≤ fuel + 1)
      (fun e s => ∀ before, Derives tier.level before left → Derives tier.level (before ++ s) e)
      tokens (parseTierRest (fuel + 1) tier left tokens) := by
  rw [parseTierRest.eq_def]
  dsimp only
  split
  · rename_i t rest
    split
    · rename_i op hop
      rw [List.length_cons]
      have hdepth : tier.depth ≤ 10 := by cases tier <;> decide
      refine Yields.cons ((h.operand tier rest).bind (by omega)
        fun right taken rest' hrest hright => ?_)
      have hlength := congrArg List.length hrest
      rw [List.length_append] at hlength
      exact (h.tierRest tier _ rest').loop (Tier.joins_of_operatorAt _ _ hop) tier.tighter?_level
        hright (by omega)
    · exact Yields.ok fun before hbefore => by rwa [List.append_nil]
  · exact Yields.ok fun before hbefore => by rwa [List.append_nil]

/-- A loop of a level starts behind its first operand. -/
theorem Yields.start {enough enough' : Prop} {level tighter : Level} {left : Expr}
    {taken rest : List Token} {result : Parsed} (htighter : level.tighter? = some tighter)
    (hleft : Derives tighter taken left)
    (h : Yields enough (fun e s => ∀ before, Derives level before left →
      Derives level (before ++ s) e) rest result) (henough : enough' → enough) :
    Yields enough' (fun e s => Derives level (taken ++ s) e) rest result :=
  h.mono henough fun _ _ hs => hs taken (.ascend htighter hleft)

theorem yields_parseUnary (h : Sound fuel) (tokens : List Token) :
    Yields (16 * tokens.length + 2 ≤ fuel + 1) (fun e s => Derives .unary s e) tokens
      (parseUnary (fuel + 1) tokens) := by
  rw [parseUnary.eq_def]
  dsimp only
  split
  · rename_i t rest
    split
    · rename_i hminus
      rw [List.length_cons]
      refine Yields.cons ((h.unary rest).bind (by omega) fun e taken _ _ he => ?_)
      apply Yields.ok
      rw [List.append_nil, hminus]
      exact .negate .minus he
    · split
      · rename_i hnot
        rw [List.length_cons]
        refine Yields.cons ((h.unary rest).bind (by omega) fun e taken _ _ he => ?_)
        apply Yields.ok
        rw [List.append_nil]
        exact .negate (negates_of_isNot _ hnot) he
      · rename_i hnot
        refine (h.primary (t :: rest) (Bool.eq_false_iff.mpr hnot)).bind (by omega)
          fun e taken rest' htokens he => ?_
        have hlength := congrArg List.length htokens
        rw [List.length_append] at hlength
        have htighter : Level.access.tighter? = some .primary := rfl
        refine ((h.parts e rest').start htighter he (by omega)).mono id ?_
        intro e' s he'
        exact .ascend rfl he'
  · exact Yields.unexpected _ _

theorem yields_parseParts (h : Sound fuel) (target : Expr) (tokens : List Token) :
    Yields (16 * tokens.length + 1 ≤ fuel + 1)
      (fun e s => ∀ before, Derives .access before target → Derives .access (before ++ s) e) tokens
      (parseParts (fuel + 1) target tokens) := by
  rw [parseParts.eq_def]
  dsimp only
  split
  · rename_i rest
    split
    · exact Yields.unexpected _ _
    · rename_i name hname
      cases rest with
      | nil => cases hname
      | cons t rest =>
          have hlabels : Labels t name := labels_of_memberName hname
          simp only [List.length_cons, List.tail_cons]
          split
          · -- A call of a method.
            rename_i rest'
            rw [List.length_cons]
            refine Yields.cons (Yields.cons (Yields.cons ?_))
            refine (h.arguments .closeParen rest').bind (by omega) fun items taken rest'' hrest' hitems => ?_
            obtain ⟨inner, rfl, hinner⟩ := hitems
            have hlength := congrArg List.length hrest'
            simp only [List.length_append] at hlength
            refine (h.parts _ rest'').mono (by omega) fun e s hs before hbefore => ?_
            have hsend := hs _ (.send hbefore hlabels hinner)
            simpa using hsend
          · refine Yields.cons (Yields.cons ?_)
            refine (h.parts _ rest).mono (by omega) fun e s hs before hbefore => ?_
            have hmember := hs _ (.member hbefore hlabels)
            simpa using hmember
  · rename_i rest
    rw [List.length_cons]
    refine Yields.cons ((h.assign rest).bind (by omega) fun key taken close hrest hkey => ?_)
    have hlength := congrArg List.length hrest
    rw [List.length_append] at hlength
    refine Yields.expect fun rest' hclose => ?_
    have hlength' := congrArg List.length hclose
    rw [List.length_cons] at hlength'
    refine (h.parts _ rest').mono (by omega) fun e s hs before hbefore => ?_
    have hindex := hs _ (.index hbefore hkey)
    simpa using hindex
  · exact Yields.ok fun before hbefore => by rwa [List.append_nil]

theorem yields_parsePrimary (h : Sound fuel) (tokens : List Token)
    (hnot : isNot (next tokens) = false) :
    Yields (16 * tokens.length + 1 ≤ fuel + 1) (fun e s => Derives .primary s e) tokens
      (parsePrimary (fuel + 1) tokens) := by
  rw [parsePrimary.eq_def]
  dsimp only
  split
  · exact Yields.one (.literal (.int _))
  · exact Yields.one (.literal (.float _))
  · exact Yields.one (.literal (.text _))
  · rename_i rest
    rw [List.length_cons]
    refine Yields.cons ((h.assign rest).bind (by omega) fun e taken close _ he => ?_)
    refine Yields.expect fun rest' _ => ?_
    exact Yields.ok (.parens he)
  · rename_i rest
    rw [List.length_cons]
    refine Yields.cons ((h.arguments .closeBracket rest).bind (by omega)
      fun items taken rest' _ hitems => ?_)
    obtain ⟨inner, rfl, hinner⟩ := hitems
    apply Yields.ok
    rw [List.append_nil]
    exact .list hinner
  · rename_i s rest
    split
    · rename_i value hvalue
      exact Yields.one (.literal (denotes_of_wordLiteral hvalue))
    · rename_i hvalue
      have hname := not_mem_reserved hvalue hnot
      split
      · rename_i rest'
        simp only [List.length_cons]
        refine Yields.cons (Yields.cons ((h.arguments .closeParen rest').bind (by omega)
          fun items taken rest'' _ hitems => ?_))
        obtain ⟨inner, rfl, hinner⟩ := hitems
        apply Yields.ok
        rw [List.append_nil]
        exact .call hname hinner
      · exact Yields.one (.name hname)
  · exact Yields.unexpected _ _

theorem yields_parseArguments (h : Sound fuel) (close : Mark) (tokens : List Token) :
    Yields (16 * tokens.length + 16 ≤ fuel + 1)
      (fun items s => ∃ inner, s = inner ++ [.mark close] ∧ DerivesAll inner items) tokens
      (parseArguments (fuel + 1) close tokens) := by
  rw [parseArguments]
  split
  · rename_i hnext
    exact Yields.close hnext ⟨[], rfl, .none⟩
  · refine (h.items close tokens).mono (by omega) ?_
    rintro items s ⟨inner, hs, hinner⟩
    exact ⟨inner, hs, .some hinner⟩

theorem yields_parseItems (h : Sound fuel) (close : Mark) (tokens : List Token) :
    Yields (16 * tokens.length + 15 ≤ fuel + 1)
      (fun items s => ∃ inner, s = inner ++ [.mark close] ∧ DerivesSome inner items) tokens
      (parseItems (fuel + 1) close tokens) := by
  rw [parseItems]
  refine (h.assign tokens).bind (by omega) fun item taken rest htokens hitem => ?_
  have hlength := congrArg List.length htokens
  rw [List.length_append] at hlength
  dsimp only
  split
  · rename_i hnext
    exact Yields.close hnext ⟨taken, rfl, .last hitem⟩
  · refine Yields.expect fun rest' hcomma => ?_
    have hlength' := congrArg List.length hcomma
    rw [List.length_cons] at hlength'
    refine (h.items close rest').bind (by omega) fun items taken' rest'' _ hitems => ?_
    obtain ⟨inner, rfl, hinner⟩ := hitems
    apply Yields.ok
    exact ⟨taken ++ .mark .comma :: inner, by simp, .more hitem hinner⟩

end Sound

/-- Every function of the parser takes what its level derives. -/
theorem sound (fuel : Nat) : Sound fuel := by
  induction fuel with
  | zero =>
      constructor
      case tier | operand =>
        intro tier tokens
        have hdepth := tier.four_le_depth
        exact Yields.spent (by omega)
      all_goals
        intros
        exact Yields.spent (by omega)
  | succ fuel h =>
      exact {
        assign := yields_parseAssign h
        choice := yields_parseChoice h
        or := fun tokens => by
          rw [parseOr]
          refine (h.and tokens).bind (by omega) fun left taken rest htokens hleft => ?_
          have hlength := congrArg List.length htokens
          rw [List.length_append] at hlength
          exact (h.orRest left rest).start rfl hleft (by omega)
        orRest := yields_parseOrRest h
        and := fun tokens => by
          rw [parseAnd]
          have hdepth : Tier.equality.depth = 10 := rfl
          refine (h.tier .equality tokens).bind (by omega) fun left taken rest htokens hleft => ?_
          have hlength := congrArg List.length htokens
          rw [List.length_append] at hlength
          exact (h.andRest left rest).start rfl hleft (by omega)
        andRest := yields_parseAndRest h
        tier := fun tier tokens => by
          rw [parseTier]
          have hdepth := tier.four_le_depth
          refine (h.operand tier tokens).bind (by omega) fun left taken rest htokens hleft => ?_
          have hlength := congrArg List.length htokens
          rw [List.length_append] at hlength
          exact (h.tierRest tier left rest).start tier.tighter?_level hleft (by omega)
        tierRest := yields_parseTierRest h
        operand := fun tier tokens => by
          rw [parseOperand]
          cases tier with
          | product => exact (h.unary tokens).mono (by simp only [Tier.depth]; omega) fun _ _ => id
          | _ => exact (h.tier _ tokens).mono (by simp only [Tier.depth]; omega) fun _ _ => id
        unary := yields_parseUnary h
        parts := yields_parseParts h
        primary := yields_parsePrimary h
        arguments := yields_parseArguments h
        items := yields_parseItems h }

/-! ## Whole lists of tokens -/

/-- What the parser takes up to the end of the input is derived. -/
theorem derives_of_parseTokens {tokens : List Token} {e : Expr} (hfinish : Token.finish ∉ tokens)
    (h : parseTokens (tokens ++ [Token.finish]) = .ok e) : Derives .assign tokens e := by
  obtain ⟨⟨e', rest⟩, hassign, hend⟩ := Except.bind_eq_ok h
  have hyields := (sound (16 * ((tokens ++ [Token.finish]).length + 1))).assign
    (tokens ++ [Token.finish])
  rw [hassign] at hyields
  obtain ⟨taken, htokens, hderives⟩ := hyields
  dsimp only at hend
  split at hend
  · rename_i hnext
    cases hend
    -- The only end of the input is the last token, and none of what is taken.
    cases rest with
    | nil =>
        rw [List.append_nil] at htokens
        exact absurd (htokens ▸ List.mem_append_right tokens List.mem_cons_self)
          hderives.finish_notMem
    | cons t after =>
        obtain rfl : t = .finish := hnext
        obtain ⟨rfl, -⟩ := (List.append_cons_inj_of_notMem hfinish (by simp)).mp htokens
        exact hderives
  · cases hend

theorem parseTokens_reports {tokens : List Token} {fault : Fault}
    (h : parseTokens tokens = .error fault) : OfTokens fault := by
  have hyields := (sound (16 * (tokens.length + 1))).assign tokens
  rw [parseTokens] at h
  cases hassign : parseAssign (16 * (tokens.length + 1)) tokens with
  | error found =>
      rw [hassign] at h hyields
      cases h
      exact hyields (by omega)
  | ok result =>
      obtain ⟨e, rest⟩ := result
      rw [hassign] at h
      change (if next rest = .finish then _ else _) = _ at h
      split at h
      · cases h
      · cases h
        exact .unexpected _ _

end ScriptTree.Expr
