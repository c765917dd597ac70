import ScriptTree.Expr.Parser
import ScriptTree.Proofs.Script.Standing

/-!
# Brackets of expressions

The lexer of expressions and the splitter of scripts read quotes, escapes and brackets each in its
own way. On a text that the lexer reads they agree: the walk of the splitter goes over it token by
token, outside of quotes after each, and only the bracket tokens move its depth
(`walk_of_tokensFrom`). What the parser takes for one expression leaves the depth as it was
(`levels`), so a text with an expression is walked from where nothing is open to where nothing is
open (`walk_of_parse`).
-/

set_option autoImplicit false

namespace ScriptTree

/-- A result in two steps comes from a result of the first. -/
theorem Except.bind_eq_ok {ε α β : Type} {result : Except ε α} {next : α → Except ε β} {y : β}
    (h : (result >>= next) = .ok y) : ∃ x, result = .ok x ∧ next x = .ok y := by
  cases result with
  | error cause => cases h
  | ok x => exact ⟨x, rfl, h⟩

namespace Expr

open Script (Standing Fault)

/-! ## Characters -/

/-- The characters that are more to a scan of statements than a part of the statement. -/
def special : List Char := ['\'', '"', '(', '[', '\x7b', ')', ']', '\x7d', ';']

theorem not_special {p : Char → Bool} (hp : special.any p = false) {c : Char}
    (h : p c = true) : c ∉ special := fun hc =>
  List.any_eq_false.mp hp c hc h

theorem not_special_of_isDigit {c : Char} (h : c.isDigit = true) : c ∉ special :=
  not_special (by decide) h

theorem not_special_of_startsWord {c : Char} (h : startsWord c = true) : c ∉ special :=
  not_special (by decide) h

theorem not_special_of_continuesWord {c : Char} (h : continuesWord c = true) : c ∉ special :=
  not_special (by decide) h

theorem next_of_not_special (depth : Nat) {c : Char} (h : c ∉ special) :
    (Standing.outside depth).next c = some (.outside depth) := by
  simp only [special, List.mem_cons, List.not_mem_nil, or_false, not_or] at h
  simp [Standing.next, Script.isQuote, Script.isOpening, Script.isClosing, h]

theorem walk_of_not_special (depth : Nat) {s : List Char} (h : ∀ c ∈ s, c ∉ special) :
    (Standing.outside depth).walk s = some (.outside depth) := by
  induction s with
  | nil => rfl
  | cons c s ih =>
      rw [Standing.walk_cons, next_of_not_special depth (h c List.mem_cons_self)]
      exact ih fun d hd => h d (List.mem_cons_of_mem c hd)

/-! ## Tokens -/

/-- The depth behind a token. -/
def Token.depthAfter (depth : Nat) : Token → Nat
  | .mark .openParen | .mark .openBracket => depth + 1
  | .mark .closeParen | .mark .closeBracket => depth - 1
  | _ => depth

/-- The depth behind tokens. -/
def depthAfter (depth : Nat) (tokens : List Token) : Nat := tokens.foldl Token.depthAfter depth

@[simp] theorem depthAfter_nil (depth : Nat) : depthAfter depth [] = depth := rfl

@[simp] theorem depthAfter_cons (depth : Nat) (t : Token) (tokens : List Token) :
    depthAfter depth (t :: tokens) = depthAfter (t.depthAfter depth) tokens := rfl

@[simp] theorem depthAfter_append (depth : Nat) (tokens tokens' : List Token) :
    depthAfter depth (tokens ++ tokens') = depthAfter (depthAfter depth tokens) tokens' :=
  List.foldl_append

/-- The characters of `s` in front of `rest` are ordinary ones. -/
def Skips (s rest : List Char) : Prop := ∃ taken, s = taken ++ rest ∧ ∀ c ∈ taken, c ∉ special

namespace Skips

variable {s rest rest' : List Char} {c : Char}

theorem refl (s : List Char) : Skips s s := ⟨[], rfl, by simp⟩

theorem trans (h : Skips s rest) (h' : Skips rest rest') : Skips s rest' := by
  obtain ⟨taken, rfl, htaken⟩ := h
  obtain ⟨taken', rfl, htaken'⟩ := h'
  refine ⟨taken ++ taken', by simp, fun c hc => ?_⟩
  exact (List.mem_append.mp hc).elim (htaken c) (htaken' c)

theorem cons (hc : c ∉ special) (h : Skips s rest) : Skips (c :: s) rest := by
  obtain ⟨taken, rfl, htaken⟩ := h
  exact ⟨c :: taken, rfl, by simpa [hc] using htaken⟩

theorem dropWhile {p : Char → Bool} (hp : ∀ c, p c = true → c ∉ special) (s : List Char) :
    Skips s (s.dropWhile p) :=
  ⟨s.takeWhile p, List.takeWhile_append_dropWhile.symm, fun c hc => hp c (List.mem_takeWhile_imp hc)⟩

theorem takeFraction (s : List Char) : Skips s (takeFraction s).2 := by
  unfold Expr.takeFraction
  split
  · rename_i body
    dsimp only
    split
    · exact refl _
    · refine cons (by decide) ⟨body.takeWhile Char.isDigit, ?_, ?_⟩
      · exact (List.prefix_iff_eq_append.mp (List.takeWhile_prefix _)).symm
      · exact fun c hc => not_special_of_isDigit (List.mem_takeWhile_imp hc)
  · exact refl _

theorem takeSign (s : List Char) : Skips s (Number.takeSign s).2 := by
  unfold Number.takeSign
  split
  · exact cons (by decide) (refl _)
  · exact cons (by decide) (refl _)
  · exact refl _

theorem takeExponent (s : List Char) : Skips s (takeExponent s).2 := by
  cases s with
  | nil => exact refl _
  | cons c rest =>
      rw [Expr.takeExponent]
      split
      · rename_i hc
        have hplain : c ∉ special := not_special (p := fun c => c == 'e' || c == 'E') (by decide) hc
        exact cons hplain ((takeSign rest).trans (dropWhile (fun _ => not_special_of_isDigit) _))
      · exact refl _

theorem takeNumber (hc : c.isDigit = true) (s : List Char) :
    Skips s (takeNumber (c :: s)).2 := by
  have hdigits : (c :: s).dropWhile Char.isDigit = s.dropWhile Char.isDigit :=
    List.dropWhile_cons_of_pos hc
  have hall := (dropWhile (fun _ => not_special_of_isDigit) s).trans
    ((takeFraction _).trans (takeExponent _))
  rw [← hdigits] at hall
  exact hall

end Skips

/-- The front of `c :: s` up to `rest` makes up the token, for the walk of the splitter too. -/
def Spells (c : Char) (s rest : List Char) (t : Token) : Prop :=
  ∃ taken, s = taken ++ rest ∧
    ∀ depth, (Standing.outside depth).walk (c :: taken) = some (.outside (t.depthAfter depth))

/-- Ordinary characters spell any token that is no bracket. -/
theorem Skips.spells {c : Char} {s rest : List Char} {t : Token} (hc : c ∉ special)
    (h : Skips s rest) (ht : ∀ depth, t.depthAfter depth = depth) : Spells c s rest t := by
  obtain ⟨taken, hs, htaken⟩ := h
  refine ⟨taken, hs, fun depth => ?_⟩
  rw [walk_of_not_special depth (by simpa [hc] using htaken), ht]

/-- The lexer ends a quoted text where the walk does. -/
theorem walk_of_takeQuoted {quote : Char} (hquote : Script.isQuote quote = true)
    {s cs rest : List Char} (h : takeQuoted quote s = some (cs, rest)) :
    ∃ taken, s = taken ++ rest ∧
      ∀ depth, (Standing.inside ⟨quote, hquote⟩ depth false).walk taken = some (.outside depth) := by
  have hback : (quote == '\\') = false := by
    by_contra hback
    simp only [Bool.not_eq_false, beq_iff_eq] at hback
    simp [hback, Script.isQuote] at hquote
  fun_induction takeQuoted quote s generalizing cs with
  | case1 => cases h
  | case2 => cases h
  | case3 c hc e rest' ih =>
      -- A backslash takes the next character along in both.
      obtain ⟨⟨cs', after⟩, hfound, heq⟩ := Option.map_eq_some_iff.mp h
      obtain ⟨-, rfl⟩ := Prod.mk.inj heq
      obtain ⟨taken, rfl, hwalk⟩ := ih hfound
      refine ⟨c :: e :: taken, rfl, fun depth => ?_⟩
      simp [Standing.next, eq_of_beq hc, hwalk]
  | case4 c rest' hc hquoted =>
      obtain ⟨-, rfl⟩ := Prod.mk.inj (Option.some.inj h)
      obtain rfl := eq_of_beq hquoted
      exact ⟨[c], rfl, fun depth => by simp [Standing.next, hback]⟩
  | case5 c rest' hc hquoted ih =>
      obtain ⟨⟨cs', after⟩, hfound, heq⟩ := Option.map_eq_some_iff.mp h
      obtain ⟨-, rfl⟩ := Prod.mk.inj heq
      obtain ⟨taken, rfl, hwalk⟩ := ih hfound
      refine ⟨c :: taken, rfl, fun depth => ?_⟩
      simp [Standing.next, hc, hquoted, hwalk]

/-- Each mark is one character or two, and only brackets open or close anything. -/
theorem spells_of_takeMark {c : Char} {rest rest' : List Char} {m : Mark}
    (h : takeMark? c rest = some (m, rest')) : Spells c rest rest' (.mark m) := by
  unfold takeMark? at h
  split at h
  all_goals
    first
    | cases h
      exact ⟨[], rfl, fun _ => rfl⟩
    | cases h
      exact ⟨[_], rfl, fun _ => rfl⟩
    | cases h

theorem Written.depthAfter_token (w : Written) (depth : Nat) :
    w.token.depthAfter depth = depth := by
  unfold Written.token
  dsimp only
  split <;> rfl

/-- The lexer and the walk agree on one token. -/
theorem spells_of_firstToken {place : Nat} {c : Char} {rest rest' : List Char} {t : Token}
    (h : firstToken place c rest = .ok (t, rest')) : Spells c rest rest' t := by
  unfold firstToken at h
  split at h
  · rename_i hdigit
    cases h
    exact (Skips.takeNumber hdigit rest).spells (not_special_of_isDigit hdigit)
      (Written.depthAfter_token _)
  · split at h
    · rename_i hquote
      split at h
      · rename_i cs after hquoted
        cases h
        replace hquote : Script.isQuote c = true := hquote
        obtain ⟨taken, rfl, hwalk⟩ := walk_of_takeQuoted hquote hquoted
        refine ⟨taken, rfl, fun depth => ?_⟩
        have hopen : (Standing.outside depth).next c = some (.inside ⟨c, hquote⟩ depth false) := by
          rw [Standing.next, dif_pos hquote]
        rw [Standing.walk_cons, hopen]
        exact hwalk depth
      · cases h
    · split at h
      · rename_i hword
        cases h
        exact (Skips.dropWhile (fun _ => not_special_of_continuesWord) rest).spells
          (not_special_of_startsWord hword) fun _ => rfl
      · split at h
        · rename_i hmark
          cases h
          exact spells_of_takeMark hmark
        · cases h

theorem ne_finish_of_firstToken {place : Nat} {c : Char} {rest rest' : List Char} {t : Token}
    (h : firstToken place c rest = .ok (t, rest')) : t ≠ .finish := by
  unfold firstToken at h
  rintro rfl
  split at h
  · simp only [Except.ok.injEq, Prod.mk.injEq, Written.token] at h
    split at h <;> cases h.1
  · repeat' split at h
    all_goals cases h

/-- The lexer and the walk agree on a text: behind it the depth is the one behind its tokens. -/
theorem walk_of_tokensFrom {total fuel : Nat} {s : List Char} {tokens : List Token}
    (hfuel : s.length < fuel) (h : tokensFrom total fuel s = .ok tokens) (depth : Nat) :
    (Standing.outside depth).walk s = some (.outside (depthAfter depth tokens)) := by
  induction fuel generalizing s tokens depth with
  | zero => cases hfuel
  | succ fuel ih =>
      obtain ⟨g, hg, hs⟩ := Text.exists_trimStart_eq s
      rw [← hs, Standing.walk_append, Standing.walk_outside_blanks depth hg]
      rw [tokensFrom] at h
      cases htrim : Text.trimStart s with
      | nil =>
          rw [htrim] at h
          cases h
          rfl
      | cons c rest =>
          rw [htrim] at h hs
          obtain ⟨⟨t, rest'⟩, hfirst, h⟩ := Except.bind_eq_ok h
          obtain ⟨tokens', hrest, h⟩ := Except.bind_eq_ok h
          cases h
          obtain ⟨taken, rfl, hwalk⟩ := spells_of_firstToken hfirst
          have hlength : rest'.length < fuel := by
            have hall := congrArg List.length hs
            simp only [List.length_append, List.length_cons] at hall
            omega
          rw [Option.bind_some, ← List.cons_append, Standing.walk_append, hwalk depth]
          exact ih hlength hrest _

/-- Only the last token is the end of the input. -/
theorem eq_nil_of_tokensFrom {total fuel : Nat} {s : List Char} {before after : List Token}
    (h : tokensFrom total fuel s = .ok (before ++ .finish :: after)) : after = [] := by
  induction fuel generalizing s before with
  | zero =>
      rw [tokensFrom] at h
      cases before with
      | nil => cases h; rfl
      | cons t before => simp at h
  | succ fuel ih =>
      rw [tokensFrom] at h
      split at h
      · cases before with
        | nil => cases h; rfl
        | cons t before => simp at h
      · obtain ⟨⟨t, rest'⟩, hfirst, h⟩ := Except.bind_eq_ok h
        obtain ⟨tokens', hrest, h⟩ := Except.bind_eq_ok h
        cases before with
        | nil =>
            cases h
            exact absurd rfl (ne_finish_of_firstToken hfirst)
        | cons t' before =>
            cases h
            exact ih hrest

/-! ## Expressions -/

/-- The result has taken tokens that lead from `i` open brackets more to `j` more. -/
def Takes {α : Type} (i j : Nat) (result : Except Fault (α × List Token)) (tokens : List Token) :
    Prop :=
  ∀ x rest, result = .ok (x, rest) →
    ∃ taken, tokens = taken ++ rest ∧ ∀ depth, depthAfter (depth + i) taken = depth + j

namespace Takes

variable {α β : Type} {i j k : Nat} {tokens : List Token}

theorem ok (x : α) : Takes i i (.ok (x, tokens)) tokens := by
  rintro _ _ ⟨⟩
  exact ⟨[], rfl, fun _ => rfl⟩

theorem error (fault : Fault) :
    Takes i j (.error fault : Except Fault (α × List Token)) tokens := by
  rintro _ _ ⟨⟩

/-- Brackets that were open before stay open. -/
theorem inside {result : Except Fault (α × List Token)} (h : Takes 0 0 result tokens) :
    Takes i i result tokens := by
  intro x rest hresult
  obtain ⟨taken, htokens, hlevel⟩ := h x rest hresult
  exact ⟨taken, htokens, fun depth => hlevel (depth + i)⟩

theorem bind {result : Except Fault (α × List Token)}
    {next : α × List Token → Except Fault (β × List Token)} (h : Takes i j result tokens)
    (hnext : ∀ x tokens', Takes j k (next (x, tokens')) tokens') :
    Takes i k (result >>= next) tokens := by
  intro y rest hresult
  obtain ⟨⟨x, tokens'⟩, hfirst, hsecond⟩ := Except.bind_eq_ok hresult
  obtain ⟨taken, rfl, htaken⟩ := h x tokens' hfirst
  obtain ⟨taken', rfl, htaken'⟩ := hnext x tokens' y rest hsecond
  refine ⟨taken ++ taken', by simp, fun depth => ?_⟩
  rw [depthAfter_append, htaken, htaken']

/-- One token in front. -/
theorem cons {result : Except Fault (α × List Token)} {t : Token} (h : Takes j k result tokens)
    (ht : ∀ depth, t.depthAfter (depth + i) = depth + j) : Takes i k result (t :: tokens) := by
  intro x rest hresult
  obtain ⟨taken, rfl, htaken⟩ := h x rest hresult
  refine ⟨t :: taken, rfl, fun depth => ?_⟩
  rw [depthAfter_cons, ht, htaken]

/-- One given mark in front. -/
theorem expect {m : Mark} {expected : String} {next : List Token → Except Fault (α × List Token)}
    (hnext : ∀ tokens', Takes j k (next tokens') tokens')
    (hm : ∀ depth, (Token.mark m).depthAfter (depth + i) = depth + j) :
    Takes i k (expectMark m expected tokens >>= next) tokens := by
  intro x rest hresult
  obtain ⟨tokens', hfound, hrest⟩ := Except.bind_eq_ok hresult
  unfold expectMark at hfound
  split at hfound
  · split at hfound
    · rename_i found rest hsame
      cases hfound
      rw [hsame]
      exact (hnext _).cons hm x _ hrest
    · cases hfound
  · cases hfound

/-- A closing mark in front, found by looking ahead. -/
theorem of_next {m : Mark} {x : α} (hnext : next tokens = .mark m)
    (hm : ∀ depth, (Token.mark m).depthAfter (depth + i) = depth + j) :
    Takes i j (.ok (x, tokens.tail)) tokens := by
  cases tokens with
  | nil => cases hnext
  | cons t rest =>
      rw [show t = .mark m from hnext]
      exact (ok x).cons hm

end Takes

/-- Marks that close a bracket. -/
def Mark.Closing (m : Mark) : Prop := m = .closeParen ∨ m = .closeBracket

theorem Mark.Closing.depthAfter {m : Mark} (h : m.Closing) (depth : Nat) :
    (Token.mark m).depthAfter (depth + 1) = depth := by
  rcases h with rfl | rfl <;> rfl

theorem depthAfter_of_isOr {t : Token} (h : isOr t = true) (depth : Nat) :
    t.depthAfter depth = depth := by
  simp only [isOr, Bool.or_eq_true, decide_eq_true_eq] at h
  rcases h with rfl | rfl <;> rfl

theorem depthAfter_of_isAnd {t : Token} (h : isAnd t = true) (depth : Nat) :
    t.depthAfter depth = depth := by
  simp only [isAnd, Bool.or_eq_true, decide_eq_true_eq] at h
  rcases h with rfl | rfl <;> rfl

theorem depthAfter_of_isNot {t : Token} (h : isNot t = true) (depth : Nat) :
    t.depthAfter depth = depth := by
  simp only [isNot, Bool.or_eq_true, decide_eq_true_eq] at h
  rcases h with rfl | rfl <;> rfl

theorem depthAfter_of_operatorAt {tier : Tier} {t : Token} {op : Operator}
    (h : tier.operatorAt? t = some op) (depth : Nat) : t.depthAfter depth = depth := by
  cases t with
  | mark m => cases m <;> cases tier <;> first | rfl | cases h
  | _ => cases h

theorem depthAfter_of_memberName {t : Token} {s : String} (h : memberName? t = some s)
    (depth : Nat) : t.depthAfter depth = depth := by
  cases t with
  | mark m => cases h
  | _ => rfl

/-- With that much fuel every function of the parser closes what it opens; arguments end behind the
mark that closes them. -/
structure Levels (fuel : Nat) : Prop where
  assign : ∀ tokens, Takes 0 0 (parseAssign fuel tokens) tokens
  choice : ∀ tokens, Takes 0 0 (parseChoice fuel tokens) tokens
  or : ∀ tokens, Takes 0 0 (parseOr fuel tokens) tokens
  orRest : ∀ left tokens, Takes 0 0 (parseOrRest fuel left tokens) tokens
  and : ∀ tokens, Takes 0 0 (parseAnd fuel tokens) tokens
  andRest : ∀ left tokens, Takes 0 0 (parseAndRest fuel left tokens) tokens
  tier : ∀ tier tokens, Takes 0 0 (parseTier fuel tier tokens) tokens
  tierRest : ∀ tier left tokens, Takes 0 0 (parseTierRest fuel tier left tokens) tokens
  operand : ∀ tier tokens, Takes 0 0 (parseOperand fuel tier tokens) tokens
  unary : ∀ tokens, Takes 0 0 (parseUnary fuel tokens) tokens
  parts : ∀ target tokens, Takes 0 0 (parseParts fuel target tokens) tokens
  primary : ∀ tokens, Takes 0 0 (parsePrimary fuel tokens) tokens
  arguments : ∀ close, Mark.Closing close → ∀ tokens,
    Takes 1 0 (parseArguments fuel close tokens) tokens
  items : ∀ close, Mark.Closing close → ∀ tokens, Takes 1 0 (parseItems fuel close tokens) tokens

section Levels

variable {fuel : Nat}

theorem takes_parseAssign (h : Levels fuel) (tokens : List Token) :
    Takes 0 0 (parseAssign (fuel + 1) tokens) tokens := by
  rw [parseAssign]
  refine (h.choice tokens).bind fun target tokens' => ?_
  dsimp only
  split
  · split
    · refine Takes.cons (j := 0) ?_ fun _ => rfl
      exact (h.assign _).bind fun _ _ => Takes.ok _
    · exact Takes.error _
  · exact Takes.ok _

theorem takes_parseChoice (h : Levels fuel) (tokens : List Token) :
    Takes 0 0 (parseChoice (fuel + 1) tokens) tokens := by
  rw [parseChoice]
  refine (h.or tokens).bind fun test tokens' => ?_
  dsimp only
  split
  · refine Takes.cons ?_ fun _ => rfl
    refine (h.assign _).bind fun yes tokens' => ?_
    refine Takes.expect (fun tokens' => ?_) fun _ => rfl
    exact (h.assign _).bind fun _ _ => Takes.ok _
  · exact Takes.ok _

theorem takes_parseOrRest (h : Levels fuel) (left : Expr) (tokens : List Token) :
    Takes 0 0 (parseOrRest (fuel + 1) left tokens) tokens := by
  rw [parseOrRest.eq_def]
  dsimp only
  split
  · split
    · rename_i hor
      exact ((h.and _).bind fun _ _ => h.orRest _ _).cons fun _ => depthAfter_of_isOr hor _
    · exact Takes.ok _
  · exact Takes.ok _

theorem takes_parseAndRest (h : Levels fuel) (left : Expr) (tokens : List Token) :
    Takes 0 0 (parseAndRest (fuel + 1) left tokens) tokens := by
  rw [parseAndRest.eq_def]
  dsimp only
  split
  · split
    · rename_i hand
      exact ((h.tier _ _).bind fun _ _ => h.andRest _ _).cons fun _ => depthAfter_of_isAnd hand _
    · exact Takes.ok _
  · exact Takes.ok _

theorem takes_parseTierRest (h : Levels fuel) (tier : Tier) (left : Expr) (tokens : List Token) :
    Takes 0 0 (parseTierRest (fuel + 1) tier left tokens) tokens := by
  rw [parseTierRest.eq_def]
  dsimp only
  split
  · split
    · rename_i hop
      exact ((h.operand _ _).bind fun _ _ => h.tierRest _ _ _).cons fun _ =>
        depthAfter_of_operatorAt hop _
    · exact Takes.ok _
  · exact Takes.ok _

theorem takes_parseUnary (h : Levels fuel) (tokens : List Token) :
    Takes 0 0 (parseUnary (fuel + 1) tokens) tokens := by
  rw [parseUnary.eq_def]
  dsimp only
  split
  · split
    · rename_i hminus
      rw [hminus]
      refine Takes.cons (j := 0) ?_ fun _ => rfl
      exact (h.unary _).bind fun _ _ => Takes.ok _
    · split
      · rename_i hnot
        refine Takes.cons ?_ fun _ => depthAfter_of_isNot hnot _
        exact (h.unary _).bind fun _ _ => Takes.ok _
      · exact (h.primary _).bind fun _ _ => h.parts _ _
  · exact Takes.error _

theorem takes_parseParts (h : Levels fuel) (target : Expr) (tokens : List Token) :
    Takes 0 0 (parseParts (fuel + 1) target tokens) tokens := by
  rw [parseParts.eq_def]
  dsimp only
  split
  · -- A name, with arguments or without.
    rename_i rest
    refine Takes.cons ?_ fun _ => rfl
    split
    · exact Takes.error _
    · rename_i s hname
      cases rest with
      | nil => cases hname
      | cons t rest =>
          refine Takes.cons ?_ fun _ => depthAfter_of_memberName hname _
          dsimp only [List.tail_cons]
          split
          · refine Takes.cons (j := 1) ?_ fun _ => rfl
            exact (h.arguments _ (.inl rfl) _).bind fun _ _ => h.parts _ _
          · exact h.parts _ _
  · refine Takes.cons (j := 1) ?_ fun _ => rfl
    refine (h.assign _).inside.bind fun key tokens' => ?_
    exact Takes.expect (fun _ => h.parts _ _) fun _ => rfl
  · exact Takes.ok _

theorem takes_parsePrimary (h : Levels fuel) (tokens : List Token) :
    Takes 0 0 (parsePrimary (fuel + 1) tokens) tokens := by
  rw [parsePrimary.eq_def]
  dsimp only
  split
  · exact (Takes.ok _).cons fun _ => rfl
  · exact (Takes.ok _).cons fun _ => rfl
  · exact (Takes.ok _).cons fun _ => rfl
  · refine Takes.cons (j := 1) ?_ fun _ => rfl
    refine (h.assign _).inside.bind fun inner tokens' => ?_
    exact Takes.expect (fun _ => Takes.ok _) fun _ => rfl
  · refine Takes.cons (j := 1) ?_ fun _ => rfl
    exact (h.arguments _ (.inr rfl) _).bind fun _ _ => Takes.ok _
  · refine Takes.cons (j := 0) ?_ fun _ => rfl
    split
    · exact Takes.ok _
    · split
      · refine Takes.cons (j := 1) ?_ fun _ => rfl
        exact (h.arguments _ (.inl rfl) _).bind fun _ _ => Takes.ok _
      · exact Takes.ok _
  · exact Takes.error _

theorem takes_parseArguments (h : Levels fuel) {close : Mark} (hclose : close.Closing)
    (tokens : List Token) : Takes 1 0 (parseArguments (fuel + 1) close tokens) tokens := by
  rw [parseArguments]
  split
  · rename_i hnext
    exact Takes.of_next hnext hclose.depthAfter
  · exact h.items close hclose tokens

theorem takes_parseItems (h : Levels fuel) {close : Mark} (hclose : close.Closing)
    (tokens : List Token) : Takes 1 0 (parseItems (fuel + 1) close tokens) tokens := by
  rw [parseItems]
  refine (h.assign tokens).inside.bind fun item tokens' => ?_
  dsimp only
  split
  · rename_i hnext
    exact Takes.of_next hnext hclose.depthAfter
  · refine Takes.expect (fun tokens' => ?_) fun _ => rfl
    exact (h.items close hclose tokens').bind fun _ _ => Takes.ok _

end Levels

/-- Every function of the parser closes what it opens. -/
theorem levels (fuel : Nat) : Levels fuel := by
  induction fuel with
  | zero => constructor <;> intros <;> exact Takes.error _
  | succ fuel h =>
      exact {
        assign := takes_parseAssign h
        choice := takes_parseChoice h
        or := fun tokens => by
          rw [parseOr]
          exact (h.and tokens).bind fun _ _ => h.orRest _ _
        orRest := takes_parseOrRest h
        and := fun tokens => by
          rw [parseAnd]
          exact (h.tier _ tokens).bind fun _ _ => h.andRest _ _
        andRest := takes_parseAndRest h
        tier := fun tier tokens => by
          rw [parseTier]
          exact (h.operand tier tokens).bind fun _ _ => h.tierRest _ _ _
        tierRest := takes_parseTierRest h
        operand := fun tier tokens => by
          rw [parseOperand]
          split
          · exact h.tier _ tokens
          · exact h.unary tokens
        unary := takes_parseUnary h
        parts := takes_parseParts h
        primary := takes_parsePrimary h
        arguments := fun _ hclose => takes_parseArguments h hclose
        items := fun _ hclose => takes_parseItems h hclose }

/-! ## Statements -/

/-- A text with an expression is walked from where nothing is open to where nothing is open. -/
theorem walk_of_parse {text : String} {e : Expr} (h : parse text = .ok e) :
    (Standing.outside 0).walk text.toList = some (.outside 0) := by
  obtain ⟨tokens, htokens, h⟩ := Except.bind_eq_ok h
  obtain ⟨⟨e', rest⟩, hassign, hend⟩ := Except.bind_eq_ok h
  obtain ⟨taken, rfl, hlevel⟩ := (levels _).assign tokens e' rest hassign
  have hfinish : next rest = .finish := by
    by_contra hnext
    simp only [if_neg hnext] at hend
    cases hend
  -- Behind the expression stands the end of the input alone.
  have hrest : depthAfter 0 rest = 0 := by
    cases rest with
    | nil => rfl
    | cons t after =>
        obtain rfl : t = .finish := hfinish
        rw [eq_nil_of_tokensFrom htokens]
        rfl
  rw [walk_of_tokensFrom (Nat.lt_succ_self _) htokens, depthAfter_append, hlevel 0, hrest]

/-- It has a character that is no blank, and does not start with `#`. -/
theorem head_of_parse {text : String} {e : Expr} (h : parse text = .ok e) :
    ∃ c, (Text.trimStart text.toList).head? = some c ∧ c ≠ '#' := by
  obtain ⟨tokens, htokens, h⟩ := Except.bind_eq_ok h
  rw [tokenize, tokenizeChars, tokensFrom] at htokens
  cases htrim : Text.trimStart text.toList with
  | nil =>
      rw [htrim] at htokens
      cases htokens
      cases h
  | cons c rest =>
      refine ⟨c, rfl, ?_⟩
      rintro rfl
      rw [htrim] at htokens
      cases htokens

end Expr

end ScriptTree
