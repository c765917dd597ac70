import ScriptTree.Proofs.Expr.Grammar
import ScriptTree.Proofs.Expr.Numerals

/-!
# Literals of a statement

The lexer cuts a statement into tokens as they are written, with blanks around them (`Lexes`), and
the parser makes one literal of each token that stands for one, except behind a point, where a token
is a label: the literals of the expression are those of its tokens, in their order
(`Derives.carries`). So every number in a statement that is parsed was written as a numeral, and its
literal is a number unless it is past the greatest double (`numbers_of_parse`).
-/

set_option autoImplicit false

namespace ScriptTree.Expr

open Script (Fault)

/-! ## Tokens as they are written -/

/-- The token is a number. -/
def Token.isNumber : Token → Bool
  | .int _ | .float _ => true
  | _ => false

/-- The text is made up of the tokens as they are written, with blanks around them. -/
inductive Lexes : List Char → List (Token × List Char) → Prop
  | finish {blanks : List Char} : (∀ c ∈ blanks, Text.isBlank c = true) → Lexes blanks []
  | token {blanks taken rest : List Char} {c : Char} {place : Nat} {t : Token}
      {others : List (Token × List Char)} :
      (∀ c ∈ blanks, Text.isBlank c = true) → Text.isBlank c = false →
      firstToken place c (taken ++ rest) = .ok (t, rest) → Lexes rest others →
      Lexes (blanks ++ c :: (taken ++ rest)) ((t, c :: taken) :: others)

/-- What the lexer finds with fuel enough are the tokens of the text as they are written. -/
theorem lexes_of_tokensFrom {total fuel : Nat} {s : List Char} {tokens : List Token}
    (hfuel : s.length < fuel) (h : tokensFrom total fuel s = .ok tokens) :
    ∃ pieces, Lexes s pieces ∧ tokens = pieces.map (·.1) ++ [.finish] := by
  induction fuel generalizing s tokens with
  | zero => cases hfuel
  | succ fuel ih =>
      obtain ⟨blanks, hblanks, hs⟩ := Text.exists_trimStart_eq s
      rw [tokensFrom] at h
      cases htrim : Text.trimStart s with
      | nil =>
          rw [htrim] at h hs
          cases h
          rw [List.append_nil] at hs
          exact ⟨[], .finish (hs ▸ hblanks), rfl⟩
      | cons c rest =>
          rw [htrim] at h hs
          obtain ⟨⟨t, rest'⟩, hfirst, h⟩ := Except.bind_eq_ok h
          obtain ⟨tokens', hrest, h⟩ := Except.bind_eq_ok h
          cases h
          obtain ⟨taken, rfl, -⟩ := spells_of_firstToken hfirst
          have hlength : rest'.length < fuel := by
            have hall := congrArg List.length hs
            simp only [List.length_append, List.length_cons] at hall
            omega
          obtain ⟨others, hothers, rfl⟩ := ih hlength hrest
          have hdark : Text.isBlank c = false :=
            Text.head?_trimStart s c (by rw [htrim, List.head?_cons])
          exact ⟨(t, c :: taken) :: others, hs ▸ .token hblanks hdark hfirst hothers, rfl⟩

/-- A number token is written as a numeral. -/
theorem exists_numeral_of_firstToken {place : Nat} {c : Char} {taken rest : List Char} {t : Token}
    (h : firstToken place c (taken ++ rest) = .ok (t, rest)) (hnumber : t.isNumber = true) :
    ∃ n : Numeral, n.chars = c :: taken ∧ n.written.token = t := by
  unfold firstToken at h
  split at h
  · rename_i hdigit
    obtain ⟨n, hwritten, hchars⟩ := exists_numeral_of_takeNumber hdigit (taken ++ rest)
    have htaken : (Except.ok ((takeNumber (c :: (taken ++ rest))).1.token,
        (takeNumber (c :: (taken ++ rest))).2) : Except Fault (Token × List Char)) =
        .ok (t, rest) := h
    simp only [Except.ok.injEq, Prod.mk.injEq] at htaken
    obtain ⟨htoken, hrest⟩ := htaken
    rw [hrest, ← List.cons_append] at hchars
    exact ⟨n, List.append_cancel_right hchars, hwritten ▸ htoken⟩
  · -- No other token is a number.
    split at h
    · split at h
      · cases h
        cases hnumber
      · cases h
    · split at h
      · simp only [Except.ok.injEq, Prod.mk.injEq] at h
        rw [← h.1] at hnumber
        cases hnumber
      · split at h
        · cases h
          cases hnumber
        · cases h

theorem Lexes.exists_numeral {s : List Char} {pieces : List (Token × List Char)}
    (h : Lexes s pieces) :
    ∀ piece ∈ pieces, piece.1.isNumber = true →
      ∃ n : Numeral, n.chars = piece.2 ∧ n.written.token = piece.1 := by
  induction h with
  | finish => exact fun _ hmem => absurd hmem List.not_mem_nil
  | token _ _ hfirst _ ih =>
      exact List.forall_mem_cons.mpr ⟨exists_numeral_of_firstToken hfirst, ih⟩

/-! ## Literals of expressions -/

mutual

/-- The literals of an expression, from the left. -/
def literals : Expr → List Literal
  | .literal value => [value]
  | .list items => literalsAll items
  | .name _ => []
  | .member target _ => literals target
  | .index target key => literals target ++ literals key
  | .call _ arguments => literalsAll arguments
  | .send receiver _ arguments => literals receiver ++ literalsAll arguments
  | .neg operand => literals operand
  | .not operand => literals operand
  | .binary _ left right => literals left ++ literals right
  | .and left right => literals left ++ literals right
  | .or left right => literals left ++ literals right
  | .choice test yes no => literals test ++ (literals yes ++ literals no)
  | .assign place value => literals place ++ literals value

/-- The literals of expressions in a row. -/
def literalsAll : List Expr → List Literal
  | [] => []
  | e :: rest => literals e ++ literalsAll rest

end

/-- The literals that tokens stand for; behind a point a token is a label. -/
def operandLiterals : List Token → List Literal
  | [] => []
  | .mark .dot :: _ :: rest => operandLiterals rest
  | t :: rest => t.literal?.toList ++ operandLiterals rest

theorem operandLiterals_cons {t : Token} (ht : t ≠ .mark .dot) (rest : List Token) :
    operandLiterals (t :: rest) = t.literal?.toList ++ operandLiterals rest := by
  rw [operandLiterals]
  rintro _ _ rfl
  exact fun _ => ht rfl

/-- The tokens stand for the literals, whatever follows them. -/
def Carries (s : List Token) (values : List Literal) : Prop :=
  ∀ rest, operandLiterals (s ++ rest) = values ++ operandLiterals rest

/-- The token joins operands or encloses them, and stands for no literal. -/
def Token.Silent (t : Token) : Prop := t ≠ .mark .dot ∧ t.literal? = none

namespace Carries

variable {s u : List Token} {t : Token} {values others : List Literal}

theorem nil : Carries [] [] := fun _ => rfl

theorem append (h : Carries s values) (h' : Carries u others) :
    Carries (s ++ u) (values ++ others) := by
  intro rest
  rw [List.append_assoc, h, h', List.append_assoc]

theorem cons (ht : t.Silent) (h : Carries s values) : Carries (t :: s) values := by
  intro rest
  rw [List.cons_append, operandLiterals_cons ht.1, ht.2, h]
  rfl

theorem concat (ht : t.Silent) (h : Carries s values) : Carries (s ++ [t]) values := by
  have happended := h.append (cons ht nil)
  rwa [List.append_nil] at happended

theorem single (ht : t.Silent) : Carries [t] [] := cons ht nil

/-- A label stands for no literal, whatever it is. -/
theorem label (t : Token) (h : Carries s values) : Carries (.mark .dot :: t :: s) values := by
  intro rest
  rw [List.cons_append, List.cons_append, operandLiterals, h]

theorem literal {value : Literal} (h : Denotes t value) : Carries [t] [value] := by
  intro rest
  rw [List.singleton_append, operandLiterals_cons (by rintro rfl; cases h)]
  cases h <;> rfl

end Carries

theorem silent_mark {m : Mark} (h : m ≠ .dot) : (Token.mark m).Silent :=
  ⟨fun heq => h (Token.mark.inj heq), rfl⟩

/-- A word that is no reserved one stands for no literal. -/
theorem silent_word {s : String} (h : s ∉ reserved) : (Token.word s).Silent := by
  exact ⟨nofun, wordLiteral_of_not_mem_reserved h⟩

theorem Joins.silent {left right e : Expr} {level : Level} {t : Token}
    (h : Joins left right level t e) : t.Silent := by
  cases h <;> exact ⟨nofun, rfl⟩

theorem Joins.literals {left right e : Expr} {level : Level} {t : Token}
    (h : Joins left right level t e) : e.literals = left.literals ++ right.literals := by
  cases h <;> rw [Expr.literals]

theorem Negates.silent {operand e : Expr} {t : Token} (h : Negates operand t e) : t.Silent := by
  cases h <;> exact ⟨nofun, rfl⟩

theorem Negates.literals {operand e : Expr} {t : Token} (h : Negates operand t e) :
    e.literals = operand.literals := by
  cases h <;> rw [Expr.literals]

mutual

/-- The literals of a derived expression are those that its tokens stand for. -/
theorem Derives.carries : ∀ {level : Level} {s : List Token} {e : Expr},
    Derives level s e → Carries s e.literals
  | _, _, _, .ascend _ h => h.carries
  | _, _, _, .assign h _ h' => by
      rw [literals]
      exact h.carries.append (h'.carries.cons (silent_mark (by decide)))
  | _, _, _, .choice h h' h'' => by
      rw [literals]
      exact h.carries.append (Carries.cons (silent_mark (by decide))
        (h'.carries.append (h''.carries.cons (silent_mark (by decide)))))
  | _, _, _, .join hjoins _ h h' => by
      rw [hjoins.literals]
      exact h.carries.append (h'.carries.cons hjoins.silent)
  | _, _, _, .negate hnegates h => by
      rw [hnegates.literals]
      exact h.carries.cons hnegates.silent
  | _, _, _, .member (t := t) h _ => by
      rw [literals]
      simpa using h.carries.append (Carries.nil.label t)
  | _, _, _, .send (t := t) h _ h' => by
      rw [literals]
      exact h.carries.append (Carries.label t (Carries.cons (silent_mark (by decide))
        (h'.carries.concat (silent_mark (by decide)))))
  | _, _, _, .index h h' => by
      rw [literals]
      exact h.carries.append (Carries.cons (silent_mark (by decide))
        (h'.carries.concat (silent_mark (by decide))))
  | _, _, _, .literal h => by
      rw [literals]
      exact .literal h
  | _, _, _, .name h => by
      rw [literals]
      exact .single (silent_word h)
  | _, _, _, .call h h' => by
      rw [literals]
      exact Carries.cons (silent_word h) (Carries.cons (silent_mark (by decide))
        (h'.carries.concat (silent_mark (by decide))))
  | _, _, _, .list h => by
      rw [literals]
      exact Carries.cons (silent_mark (by decide)) (h.carries.concat (silent_mark (by decide)))
  | _, _, _, .parens h =>
      Carries.cons (silent_mark (by decide)) (h.carries.concat (silent_mark (by decide)))

theorem DerivesAll.carries : ∀ {s : List Token} {items : List Expr},
    DerivesAll s items → Carries s (literalsAll items)
  | _, _, .none => by
      rw [literalsAll]
      exact .nil
  | _, _, .some h => h.carries

theorem DerivesSome.carries : ∀ {s : List Token} {items : List Expr},
    DerivesSome s items → Carries s (literalsAll items)
  | _, _, .last h => by
      rw [literalsAll, literalsAll, List.append_nil]
      exact h.carries
  | _, _, .more h h' => by
      rw [literalsAll]
      exact h.carries.append (h'.carries.cons (silent_mark (by decide)))

end

/-! ## Whole statements -/

/-- What a numeral is read as: where its exponent has a digit, a number below the limit of the
doubles, and null from there on. -/
structure Numeral.ReadAs (n : Numeral) (t : Token) : Prop where
  number : n.Complete → n.value < 2 ^ 1024 - 2 ^ 970 → ∃ m, t.literal? = some (.number m)
  null : n.Complete → 2 ^ 1024 - 2 ^ 970 ≤ n.value → t.literal? = some .null

/-- **Numbers of a statement**: a statement that is parsed is made up of tokens as they are written,
the literals of the expression are those of its operand tokens, and each number among the tokens is
written as a numeral and read as what that denotes. -/
theorem numbers_of_parse (text : String) (e : Expr) (h : parse text = .ok e) :
    ∃ pieces, tokenize text = .ok (pieces.map (·.1) ++ [.finish]) ∧ Lexes text.toList pieces ∧
      e.literals = operandLiterals (pieces.map (·.1)) ∧
      ∀ piece ∈ pieces, piece.1.isNumber = true →
        ∃ n : Numeral, n.chars = piece.2 ∧ n.ReadAs piece.1 := by
  obtain ⟨tokens, htokens, hparse⟩ := Except.bind_eq_ok h
  obtain ⟨pieces, hlexes, rfl⟩ := lexes_of_tokensFrom (Nat.lt_succ_self _) htokens
  have hfinish : Token.finish ∉ pieces.map (·.1) := by
    intro hmem
    obtain ⟨before, after, hsplit⟩ := List.append_of_mem hmem
    rw [hsplit, List.append_assoc, List.cons_append] at htokens
    exact List.append_ne_nil_of_right_ne_nil _ (List.cons_ne_nil _ _) (eq_nil_of_tokensFrom htokens)
  have hcarries := (derives_of_parseTokens hfinish hparse).carries []
  rw [List.append_nil, operandLiterals, List.append_nil] at hcarries
  refine ⟨pieces, htokens, hlexes, hcarries.symm, fun piece hpiece hnumber => ?_⟩
  obtain ⟨n, hchars, htoken⟩ := hlexes.exists_numeral piece hpiece hnumber
  exact ⟨n, hchars, htoken ▸ fun hc => (n.literal?_token hc).1,
    htoken ▸ fun hc => (n.literal?_token hc).2⟩

/-- The numbers of a sum. -/
theorem numbers_of_parse_sum :
    ∃ e, parse "1.5e3 + 2" = .ok e ∧
      ∃ pieces, tokenize "1.5e3 + 2" = .ok (pieces.map (·.1) ++ [.finish]) ∧
        Lexes "1.5e3 + 2".toList pieces ∧ e.literals = operandLiterals (pieces.map (·.1)) ∧
        ∀ piece ∈ pieces, piece.1.isNumber = true →
          ∃ n : Numeral, n.chars = piece.2 ∧ n.ReadAs piece.1 := by
  have htokens : ∃ x, tokenize "1.5e3 + 2" = .ok [.float x, .mark .plus, .int 2, .finish] :=
    ⟨(⟨['1'], some ['5'], some (false, ['3'])⟩ : Written).toFloat, rfl⟩
  obtain ⟨x, htokens⟩ := htokens
  have hparse : parse "1.5e3 + 2" =
      .ok (.binary .add (.literal (floatLiteral x)) (.literal (.number (.ofNat 2)))) := by
    rw [parse, htokens]
    rfl
  exact ⟨_, hparse, numbers_of_parse _ _ hparse⟩

/-- The numeral `1e1024`. -/
def Numeral.pastDoubles : Numeral where
  whole := ⟨['1'], List.cons_ne_nil _ _, List.all_eq_true.mp rfl⟩
  fraction := none
  exponent := some ⟨false, .absent, ['1', '0', '2', '4'], List.all_eq_true.mp rfl⟩

theorem Numeral.limit_le_pastDoubles : (2 : ℚ) ^ 1024 - 2 ^ 970 ≤ Numeral.pastDoubles.value := by
  have hvalue : Numeral.pastDoubles.value = ((1 : Nat) + 0 : ℚ) * 10 ^ ((1024 : Nat) : Int) := rfl
  have hpower : (2 : ℚ) ^ 1024 ≤ 10 ^ 1024 := pow_le_pow_left₀ (by norm_num) (by norm_num) _
  have hpos : (0 : ℚ) ≤ 2 ^ 970 := by positivity
  rw [hvalue, zpow_natCast, Nat.cast_one, add_zero, one_mul]
  exact (sub_le_self _ hpos).trans hpower

/-- A numeral with nothing missing that is past the doubles becomes null, and so does one whose
exponent has no digits. -/
theorem parse_pastDoubles :
    Numeral.pastDoubles.chars = "1e1024".toList ∧ Numeral.pastDoubles.Complete ∧
      tokenize "1e1024" = .ok [Numeral.pastDoubles.written.token, .finish] ∧
      parse "1e1024" = .ok (.literal .null) ∧ parse "1e" = .ok (.literal .null) := by
  have hcomplete : Numeral.pastDoubles.Complete := by
    intro x hx
    cases hx
    exact List.cons_ne_nil _ _
  have hfloat : Numeral.pastDoubles.written.token =
      .float Numeral.pastDoubles.written.toFloat := rfl
  have htokens : tokenize "1e1024" =
      .ok [.float Numeral.pastDoubles.written.toFloat, .finish] := rfl
  have hnull := (Numeral.pastDoubles.literal?_token hcomplete).2 Numeral.limit_le_pastDoubles
  rw [hfloat] at hnull
  have hdigitless : tokenize "1e" = .ok [.float (0.0 / 0.0), .finish] := rfl
  have hparse (x : Float) : parseTokens [.float x, .finish] = .ok (.literal (floatLiteral x)) := rfl
  refine ⟨rfl, hcomplete, hfloat ▸ htokens, ?_, ?_⟩
  · rw [parse, htokens, ← Option.some.inj hnull]
    exact hparse _
  · rw [parse, hdigitless]
    exact hparse _

end ScriptTree.Expr
