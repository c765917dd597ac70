import ScriptTree.Proofs.Expr.Grammar

/-!
# What is derived is parsed

Behind an expression of a level the parser goes on with the tokens that belong to that level or to a
looser one; `Token.rank` puts the tokens in that order. In front of a token of a looser rank than
its own every derived expression is what the parser takes (`Derives.completes`). There is no care
for the fuel here: a result that the end of the fuel cuts short is allowed all along, and the end
result is none (`parseTokens_of_derives`).
-/

set_option autoImplicit false

namespace ScriptTree.Expr

open ScriptTree.Script (Fault)

/-! ## Results up to the end of the fuel -/

/-- The result is the outcome, unless the fuel ends. -/
def Reaches {α : Type} (result outcome : Except Fault α) : Prop :=
  result = spent ∨ result = outcome

namespace Reaches

variable {α β : Type} {result outcome outcome' : Except Fault α}

theorem refl (result : Except Fault α) : Reaches result result := .inr rfl

theorem out (outcome : Except Fault α) : Reaches spent outcome := .inl rfl

theorem trans (h : Reaches result outcome) (h' : Reaches outcome outcome') :
    Reaches result outcome' := by
  rcases h with rfl | rfl
  · exact .inl rfl
  · exact h'

theorem bind {x : α} {next : α → Except Fault β} {last : Except Fault β}
    (h : Reaches result (.ok x)) (hnext : Reaches (next x) last) :
    Reaches (result >>= next) last := by
  rcases h with rfl | rfl
  · exact .inl rfl
  · exact hnext

end Reaches

/-! ## Ranks -/

@[simp] theorem next_cons (t : Token) (tokens : List Token) : next (t :: tokens) = t := rfl

/-- The number of a level, from tight to loose. -/
def Level.rank : Level → Nat
  | .primary => 0
  | .access => 1
  | .unary => 2
  | .product => 3
  | .sum => 4
  | .order => 5
  | .equality => 6
  | .and => 7
  | .or => 8
  | .choice => 9
  | .assign => 10

/-- The rank of the level on which a token goes on behind an expression. A token that goes on with
none is looser than all of them. -/
def Token.rank : Token → Nat
  | .mark .openParen => 0
  | .mark .dot | .mark .openBracket => 1
  | .mark .star | .mark .slash | .mark .percent => 3
  | .mark .plus | .mark .minus => 4
  | .mark .lt | .mark .le | .mark .gt | .mark .ge => 5
  | .mark .eq | .mark .ne => 6
  | .mark .and => 7
  | .mark .or => 8
  | .mark .question => 9
  | .mark .assign => 10
  | .word s => if s = "and" then 7 else if s = "or" then 8 else 11
  | _ => 11

/-- Behind an expression of the level a token of at most this rank goes on with it. The last branch
of a choice is open to an assignment. -/
def Level.reach (level : Level) (e : Expr) : Nat :=
  if level = .choice ∧ e.isPlace = false then 10 else level.rank

theorem Level.rank_le_reach (level : Level) (e : Expr) : level.rank ≤ level.reach e := by
  unfold Level.reach
  split
  · rename_i h
    rw [h.1]
    decide
  · exact Nat.le_refl _

/-- No level is open to more than an assignment. -/
theorem Level.reach_le (level : Level) (e : Expr) : level.reach e ≤ 10 := by
  unfold Level.reach
  split
  · exact Nat.le_refl _
  · cases level <;> decide

theorem Level.rank_lt_of_tighter {level tighter : Level} (h : level.tighter? = some tighter) :
    tighter.rank < level.rank := by
  cases level <;> cases h <;> decide

theorem Joins.rank {left right e : Expr} {level : Level} {t : Token}
    (h : Joins left right level t e) : t.rank = level.rank := by
  cases h <;> rfl

/-! ## First tokens -/

/-- The token can start an operand that no negation stands in front of. -/
def Token.Opens : Token → Prop
  | .int _ | .float _ | .text _ | .mark .openParen | .mark .openBracket => True
  | .word s => s ≠ "not"
  | _ => False

/-- The token can start an expression of the level. -/
def Starts (level : Level) (t : Token) : Prop :=
  t.Opens ∨ (2 ≤ level.rank ∧ ∃ operand e, Negates operand t e)

theorem Starts.mono {level level' : Level} {t : Token} (h : Starts level t)
    (hrank : level.rank ≤ level'.rank) : Starts level' t :=
  h.imp id fun ⟨hunary, hnegates⟩ => ⟨hunary.trans hrank, hnegates⟩

theorem Starts.opens {level : Level} {t : Token} (h : Starts level t) (hrank : level.rank ≤ 1) :
    t.Opens := by
  rcases h with hopens | ⟨hunary, -⟩
  · exact hopens
  · omega

theorem Token.Opens.ne_minus {t : Token} (h : t.Opens) : t ≠ .mark .minus := by
  rintro rfl
  exact h

theorem Token.Opens.isNot_eq_false {t : Token} (h : t.Opens) : isNot t = false := by
  rw [Bool.eq_false_iff]
  intro hnot
  simp only [isNot, Bool.or_eq_true, decide_eq_true_eq] at hnot
  rcases hnot with rfl | rfl
  · exact h
  · exact h rfl

theorem Denotes.opens {t : Token} {value : Literal} (h : Denotes t value) : t.Opens := by
  cases h <;> simp [Token.Opens]

theorem opens_of_not_mem_reserved {s : String} (h : s ∉ reserved) : (Token.word s).Opens := by
  rintro rfl
  exact h (by decide)

/-- No expression starts with a closing mark. -/
theorem Starts.ne_closing {level : Level} {t : Token} (h : Starts level t) {close : Mark}
    (hclose : close.Closing) : t ≠ .mark close := by
  rintro rfl
  rcases h with hopens | ⟨-, _, _, hnegates⟩
  · rcases hclose with rfl | rfl <;> exact hopens
  · rcases hclose with rfl | rfl <;> cases hnegates

theorem Starts.behind {level level' : Level} {s u : List Token} (h : ∃ t s', s = t :: s' ∧
    Starts level t) (hrank : level.rank ≤ level'.rank) :
    ∃ t s', s ++ u = t :: s' ∧ Starts level' t := by
  obtain ⟨t, s', rfl, ht⟩ := h
  exact ⟨t, s' ++ u, rfl, ht.mono hrank⟩

mutual

/-- Every expression has a first token. -/
theorem Derives.starts : ∀ {level : Level} {s : List Token} {e : Expr}, Derives level s e →
    ∃ t s', s = t :: s' ∧ Starts level t
  | _, _, _, .ascend h h' => by
      obtain ⟨t, s', hs, ht⟩ := h'.starts
      exact ⟨t, s', hs, ht.mono (Level.rank_lt_of_tighter h).le⟩
  | _, _, _, .assign h _ _ => Starts.behind h.starts (by decide)
  | _, _, _, .choice h _ _ => Starts.behind h.starts (by decide)
  | _, _, _, .join _ _ h _ => Starts.behind h.starts (Nat.le_refl _)
  | _, _, _, .negate h _ => ⟨_, _, rfl, .inr ⟨by decide, _, _, h⟩⟩
  | _, _, _, .member h _ => Starts.behind h.starts (Nat.le_refl _)
  | _, _, _, .send h _ _ => Starts.behind h.starts (Nat.le_refl _)
  | _, _, _, .index h _ => Starts.behind h.starts (Nat.le_refl _)
  | _, _, _, .literal h => ⟨_, _, rfl, .inl h.opens⟩
  | _, _, _, .name h => ⟨_, _, rfl, .inl (opens_of_not_mem_reserved h)⟩
  | _, _, _, .call h _ => ⟨_, _, rfl, .inl (opens_of_not_mem_reserved h)⟩
  | _, _, _, .list _ => ⟨_, _, rfl, .inl trivial⟩
  | _, _, _, .parens _ => ⟨_, _, rfl, .inl trivial⟩

theorem DerivesSome.starts : ∀ {s : List Token} {items : List Expr}, DerivesSome s items →
    ∃ t s', s = t :: s' ∧ Starts .assign t
  | _, _, .last h => h.starts
  | _, _, .more h _ => Starts.behind h.starts (Nat.le_refl _)

end

/-! ## Levels of the parser -/

/-- The function that parses the expressions of a level. -/
def Level.parse : Level → Nat → List Token → Parsed
  | .assign, fuel, tokens => parseAssign fuel tokens
  | .choice, fuel, tokens => parseChoice fuel tokens
  | .or, fuel, tokens => parseOr fuel tokens
  | .and, fuel, tokens => parseAnd fuel tokens
  | .equality, fuel, tokens => parseTier fuel .equality tokens
  | .order, fuel, tokens => parseTier fuel .order tokens
  | .sum, fuel, tokens => parseTier fuel .sum tokens
  | .product, fuel, tokens => parseTier fuel .product tokens
  | .unary, fuel, tokens => parseUnary fuel tokens
  | .access, fuel, tokens => do
      let (operand, tokens) ← parsePrimary fuel tokens
      parseParts fuel operand tokens
  | .primary, fuel, tokens => parsePrimary fuel tokens

/-- The function that goes on behind an expression of a level that may grow on the right. -/
def Level.resume? : Level → Option (Nat → Expr → List Token → Parsed)
  | .or => some parseOrRest
  | .and => some parseAndRest
  | .equality => some fun fuel => parseTierRest fuel .equality
  | .order => some fun fuel => parseTierRest fuel .order
  | .sum => some fun fuel => parseTierRest fuel .sum
  | .product => some fun fuel => parseTierRest fuel .product
  | .access => some parseParts
  | _ => none

theorem Tier.parse_level (tier : Tier) (fuel : Nat) (tokens : List Token) :
    tier.level.parse fuel tokens = parseTier fuel tier tokens := by
  cases tier <;> rfl

theorem Tier.resume_level (tier : Tier) :
    tier.level.resume? = some fun fuel => parseTierRest fuel tier := by
  cases tier <;> rfl

/-- A level whose expressions grow on the right is a tier, alternatives, conditions or parts. -/
theorem Level.cases_of_resume {level : Level} {resume : Nat → Expr → List Token → Parsed}
    (h : level.resume? = some resume) :
    (level = .or ∧ resume = parseOrRest) ∨ (level = .and ∧ resume = parseAndRest) ∨
      (level = .access ∧ resume = parseParts) ∨
      ∃ tier : Tier, level = tier.level ∧ resume = fun fuel => parseTierRest fuel tier := by
  cases level <;> cases h
  case or => exact .inl ⟨rfl, rfl⟩
  case and => exact .inr (.inl ⟨rfl, rfl⟩)
  case access => exact .inr (.inr (.inl ⟨rfl, rfl⟩))
  case equality => exact .inr (.inr (.inr ⟨.equality, rfl, rfl⟩))
  case order => exact .inr (.inr (.inr ⟨.order, rfl, rfl⟩))
  case sum => exact .inr (.inr (.inr ⟨.sum, rfl, rfl⟩))
  case product => exact .inr (.inr (.inr ⟨.product, rfl, rfl⟩))

/-- A token that joins operands is one of alternatives, of conditions or of a tier. -/
theorem Joins.cases_token {left right e : Expr} {level : Level} {t : Token}
    (h : Joins left right level t e) :
    (level = .or ∧ isOr t = true ∧ e = .or left right) ∨
      (level = .and ∧ isAnd t = true ∧ e = .and left right) ∨
      ∃ (tier : Tier) (op : Operator), level = tier.level ∧ tier.operatorAt? t = some op ∧
        e = .binary op left right := by
  cases h
  case or | orWord => exact .inl ⟨rfl, by decide, rfl⟩
  case and | andWord => exact .inr (.inl ⟨rfl, by decide, rfl⟩)
  case eq | ne => exact .inr (.inr ⟨.equality, _, rfl, rfl, rfl⟩)
  case lt | le | gt | ge => exact .inr (.inr ⟨.order, _, rfl, rfl, rfl⟩)
  case add | sub => exact .inr (.inr ⟨.sum, _, rfl, rfl, rfl⟩)
  case mul | div | mod => exact .inr (.inr ⟨.product, _, rfl, rfl, rfl⟩)

/-- In front of a looser token nothing goes on. -/
theorem resume_ends {level : Level} {resume : Nat → Expr → List Token → Parsed}
    (h : level.resume? = some resume) (fuel : Nat) (e : Expr) {rest : List Token}
    (hrank : level.rank < (next rest).rank) : Reaches (resume fuel e rest) (.ok (e, rest)) := by
  cases fuel with
  | zero =>
      obtain ⟨-, rfl⟩ | ⟨-, rfl⟩ | ⟨-, rfl⟩ | ⟨tier, -, rfl⟩ := Level.cases_of_resume h <;>
        exact Reaches.out _
  | succ fuel =>
      obtain ⟨rfl, rfl⟩ | ⟨rfl, rfl⟩ | ⟨rfl, rfl⟩ | ⟨tier, rfl, rfl⟩ := Level.cases_of_resume h
      · rw [parseOrRest.eq_def]
        dsimp only
        split
        · split
          · rename_i hor
            exact absurd (joins_of_isOr e e hor).rank (Nat.ne_of_gt hrank)
          · exact Reaches.refl _
        · exact Reaches.refl _
      · rw [parseAndRest.eq_def]
        dsimp only
        split
        · split
          · rename_i hand
            exact absurd (joins_of_isAnd e e hand).rank (Nat.ne_of_gt hrank)
          · exact Reaches.refl _
        · exact Reaches.refl _
      · rw [parseParts.eq_def]
        dsimp only
        split
        · exact absurd hrank (Nat.lt_irrefl 1)
        · exact absurd hrank (Nat.lt_irrefl 1)
        · exact Reaches.refl _
      · dsimp only
        rw [parseTierRest.eq_def]
        dsimp only
        split
        · split
          · rename_i hop
            exact absurd (Tier.joins_of_operatorAt e e hop).rank (Nat.ne_of_gt hrank)
          · exact Reaches.refl _
        · exact Reaches.refl _

/-- The operand of a tier is what the tighter level takes. -/
theorem parseOperand_reaches {tier : Tier} {tokens rest : List Token} {e : Expr}
    (h : ∀ fuel, Reaches (tier.operands.parse fuel tokens) (.ok (e, rest))) (fuel : Nat) :
    Reaches (parseOperand fuel tier tokens) (.ok (e, rest)) := by
  cases fuel with
  | zero => exact Reaches.out _
  | succ fuel => cases tier <;> exact h fuel

/-- A level whose expressions grow on the right starts with one of the tighter level. -/
theorem parse_reaches_resume {level tighter : Level} {resume : Nat → Expr → List Token → Parsed}
    (hresume : level.resume? = some resume) (htighter : level.tighter? = some tighter)
    {tokens rest : List Token} {e : Expr}
    (h : ∀ fuel, Reaches (tighter.parse fuel tokens) (.ok (e, rest))) (fuel : Nat) :
    ∃ fuel', Reaches (level.parse fuel tokens) (resume fuel' e rest) := by
  obtain ⟨rfl, rfl⟩ | ⟨rfl, rfl⟩ | ⟨rfl, rfl⟩ | ⟨tier, rfl, rfl⟩ := Level.cases_of_resume hresume
  · cases htighter
    cases fuel with
    | zero => exact ⟨0, Reaches.out _⟩
    | succ fuel =>
        refine ⟨fuel, ?_⟩
        show Reaches (parseOr (fuel + 1) tokens) _
        rw [parseOr]
        exact (h fuel).bind (Reaches.refl _)
  · cases htighter
    cases fuel with
    | zero => exact ⟨0, Reaches.out _⟩
    | succ fuel =>
        refine ⟨fuel, ?_⟩
        show Reaches (parseAnd (fuel + 1) tokens) _
        rw [parseAnd]
        exact (h fuel).bind (Reaches.refl _)
  · cases htighter
    exact ⟨fuel, (h fuel).bind (Reaches.refl _)⟩
  · rw [tier.tighter?_level] at htighter
    cases htighter
    rw [tier.parse_level]
    cases fuel with
    | zero => exact ⟨0, Reaches.out _⟩
    | succ fuel =>
        refine ⟨fuel, ?_⟩
        rw [parseTier]
        exact (parseOperand_reaches h fuel).bind (Reaches.refl _)

/-- A token that joins operands goes on with the right one. -/
theorem resume_joins {level tighter : Level} {resume : Nat → Expr → List Token → Parsed}
    (hresume : level.resume? = some resume) (htighter : level.tighter? = some tighter)
    {t : Token} {left right e : Expr} (hjoins : Joins left right level t e)
    {tokens rest : List Token}
    (h : ∀ fuel, Reaches (tighter.parse fuel tokens) (.ok (right, rest))) (fuel : Nat) :
    ∃ fuel', Reaches (resume fuel left (t :: tokens)) (resume fuel' e rest) := by
  obtain ⟨rfl, ht, rfl⟩ | ⟨rfl, ht, rfl⟩ | ⟨tier, op, rfl, ht, rfl⟩ := hjoins.cases_token
  · cases hresume
    cases htighter
    cases fuel with
    | zero => exact ⟨0, Reaches.out _⟩
    | succ fuel =>
        refine ⟨fuel, ?_⟩
        rw [parseOrRest, if_pos ht]
        exact (h fuel).bind (Reaches.refl _)
  · cases hresume
    cases htighter
    cases fuel with
    | zero => exact ⟨0, Reaches.out _⟩
    | succ fuel =>
        refine ⟨fuel, ?_⟩
        rw [parseAndRest, if_pos ht]
        exact (h fuel).bind (Reaches.refl _)
  · rw [tier.resume_level] at hresume
    rw [tier.tighter?_level] at htighter
    cases hresume
    cases htighter
    cases fuel with
    | zero => exact ⟨0, Reaches.out _⟩
    | succ fuel =>
        refine ⟨fuel, ?_⟩
        dsimp only
        rw [parseTierRest]
        simp only [ht]
        exact (parseOperand_reaches h fuel).bind (Reaches.refl _)

/-! ## Completeness -/

/-- The parser takes the tokens for the expression, in front of any that a looser level goes on
with. An expression that may grow on the right leaves the parser where it looks for more. -/
structure Completes (level : Level) (s : List Token) (e : Expr) : Prop where
  parse : ∀ (fuel : Nat) (rest : List Token), level.reach e < (next rest).rank →
    Reaches (level.parse fuel (s ++ rest)) (.ok (e, rest))
  grow : ∀ {resume : Nat → Expr → List Token → Parsed}, level.resume? = some resume →
    ∀ (fuel : Nat) (rest : List Token), level.rank ≤ (next rest).rank →
      ∃ fuel', Reaches (level.parse fuel (s ++ rest)) (resume fuel' e rest)

/-- For a level whose expressions grow on the right it is enough to get where they do. -/
theorem Completes.of_grow {level : Level} {s : List Token} {e : Expr}
    {resume : Nat → Expr → List Token → Parsed} (hresume : level.resume? = some resume)
    (h : ∀ (fuel : Nat) (rest : List Token), level.rank ≤ (next rest).rank →
      ∃ fuel', Reaches (level.parse fuel (s ++ rest)) (resume fuel' e rest)) :
    Completes level s e where
  parse := fun fuel rest hrank => by
    have hlevel : level.rank < (next rest).rank := (level.rank_le_reach e).trans_lt hrank
    obtain ⟨fuel', hfuel⟩ := h fuel rest hlevel.le
    exact hfuel.trans (resume_ends hresume fuel' e hlevel)
  grow := fun hresume' => by
    cases hresume.symm.trans hresume'
    exact h

/-- For the other levels it is enough to get to the end. -/
theorem Completes.of_parse {level : Level} {s : List Token} {e : Expr}
    (hresume : level.resume? = none)
    (h : ∀ (fuel : Nat) (rest : List Token), level.reach e < (next rest).rank →
      Reaches (level.parse fuel (s ++ rest)) (.ok (e, rest))) :
    Completes level s e where
  parse := h
  grow := fun hresume' => by
    rw [hresume] at hresume'
    cases hresume'

/-- In front of a token that goes on with no expression an assignment ends. -/
theorem Completes.before {s : List Token} {e : Expr} (h : Completes .assign s e) {t : Token}
    (ht : t.rank = 11) (fuel : Nat) (rest : List Token) :
    Reaches (parseAssign fuel (s ++ t :: rest)) (.ok (e, t :: rest)) := by
  apply h.parse fuel (t :: rest)
  show 10 < t.rank
  omega

/-- The level behind whose expressions the parser looks for more is none with an open branch. -/
theorem Level.reach_of_tighter {level tighter : Level} {resume : Nat → Expr → List Token → Parsed}
    (hresume : level.resume? = some resume) (htighter : level.tighter? = some tighter) (e : Expr) :
    tighter.reach e < level.rank := by
  cases level <;> cases hresume <;> cases htighter <;> simp [Level.reach, Level.rank]

theorem Joins.resume {left right e : Expr} {level : Level} {t : Token}
    (h : Joins left right level t e) : ∃ resume, level.resume? = some resume := by
  cases h <;> exact ⟨_, rfl⟩

theorem Completes.assign_of_choice {s : List Token} {e : Expr} (h : Completes .choice s e) :
    Completes .assign s e := by
  refine .of_parse rfl fun fuel rest hrank => ?_
  have hchoice : Level.choice.reach e < (next rest).rank :=
    (Level.choice.reach_le e).trans_lt hrank
  cases fuel with
  | zero => exact Reaches.out _
  | succ fuel =>
      show Reaches (parseAssign (fuel + 1) (s ++ rest)) _
      rw [parseAssign]
      refine (h.parse fuel rest hchoice).bind ?_
      dsimp only
      split
      · exact absurd hrank (Nat.lt_irrefl 10)
      · exact Reaches.refl _

theorem Completes.choice_of_or {s : List Token} {e : Expr} (h : Completes .or s e) :
    Completes .choice s e := by
  refine .of_parse rfl fun fuel rest hrank => ?_
  have hlevel : 9 < (next rest).rank := (Level.choice.rank_le_reach e).trans_lt hrank
  have hor : Level.or.reach e < (next rest).rank := Nat.lt_of_succ_lt hlevel
  cases fuel with
  | zero => exact Reaches.out _
  | succ fuel =>
      show Reaches (parseChoice (fuel + 1) (s ++ rest)) _
      rw [parseChoice]
      refine (h.parse fuel rest hor).bind ?_
      dsimp only
      split
      · exact absurd hlevel (Nat.lt_irrefl 9)
      · exact Reaches.refl _

theorem Completes.unary_of_access {s : List Token} {e : Expr} (hs : Derives .access s e)
    (h : Completes .access s e) : Completes .unary s e := by
  refine .of_parse rfl fun fuel rest hrank => ?_
  have haccess : Level.access.reach e < (next rest).rank := Nat.lt_of_succ_lt hrank
  obtain ⟨t, s', rfl, ht⟩ := hs.starts
  have hopens := ht.opens (by decide)
  cases fuel with
  | zero => exact Reaches.out _
  | succ fuel =>
      show Reaches (parseUnary (fuel + 1) (t :: (s' ++ rest))) _
      rw [parseUnary, if_neg hopens.ne_minus, hopens.isNot_eq_false]
      exact h.parse fuel rest haccess

/-- An expression of a tighter level. -/
theorem Completes.ascend {level tighter : Level} {s : List Token} {e : Expr}
    (htighter : level.tighter? = some tighter) (hs : Derives tighter s e)
    (h : Completes tighter s e) : Completes level s e := by
  cases hresume : level.resume? with
  | some resume =>
      refine .of_grow hresume fun fuel rest hrank => ?_
      have hreach := Level.reach_of_tighter hresume htighter e
      exact parse_reaches_resume hresume htighter
        (fun fuel => h.parse fuel rest (hreach.trans_le hrank)) fuel
  | none =>
      cases level <;> cases hresume <;> cases htighter
      · exact h.assign_of_choice
      · exact h.choice_of_or
      · exact h.unary_of_access hs

theorem Completes.assign {s t : List Token} {place value : Expr} (h : Completes .choice s place)
    (hplace : place.isPlace = true) (h' : Completes .assign t value) :
    Completes .assign (s ++ .mark .assign :: t) (.assign place value) := by
  refine .of_parse rfl fun fuel rest hrank => ?_
  cases fuel with
  | zero => exact Reaches.out _
  | succ fuel =>
      rw [List.append_assoc, List.cons_append]
      show Reaches (parseAssign (fuel + 1) _) _
      rw [parseAssign]
      refine (h.parse fuel _ (by simp [Level.reach, hplace, Level.rank, next, Token.rank])).bind ?_
      dsimp only
      rw [if_pos hplace]
      exact (h'.parse fuel rest hrank).bind (Reaches.refl _)

theorem Completes.choice {s t u : List Token} {test yes no : Expr} (h : Completes .or s test)
    (h' : Completes .assign t yes) (h'' : Completes .assign u no) :
    Completes .choice (s ++ .mark .question :: (t ++ .mark .colon :: u))
      (.choice test yes no) := by
  refine .of_parse rfl fun fuel rest hrank => ?_
  cases fuel with
  | zero => exact Reaches.out _
  | succ fuel =>
      simp only [List.append_assoc, List.cons_append]
      show Reaches (parseChoice (fuel + 1) _) _
      rw [parseChoice]
      refine (h.parse fuel (.mark .question :: (t ++ .mark .colon :: (u ++ rest)))
        (Nat.lt_succ_self 8)).bind ?_
      refine (h'.before rfl fuel (u ++ rest)).bind ?_
      exact (h''.parse fuel rest hrank).bind (Reaches.refl _)

theorem Completes.join {level tighter : Level} {t : Token} {s u : List Token}
    {left right e : Expr} (hjoins : Joins left right level t e)
    (htighter : level.tighter? = some tighter) (h : Completes level s left)
    (h' : Completes tighter u right) : Completes level (s ++ t :: u) e := by
  obtain ⟨resume, hresume⟩ := hjoins.resume
  refine .of_grow hresume fun fuel rest hrank => ?_
  rw [List.append_assoc, List.cons_append]
  have hreach := Level.reach_of_tighter hresume htighter right
  obtain ⟨fuel', hleft⟩ := h.grow hresume fuel (t :: (u ++ rest)) (Nat.le_of_eq hjoins.rank.symm)
  obtain ⟨fuel'', hright⟩ := resume_joins hresume htighter hjoins
    (fun fuel => h'.parse fuel rest (hreach.trans_le hrank)) fuel'
  exact ⟨fuel'', hleft.trans hright⟩

theorem Completes.negate {t : Token} {s : List Token} {operand e : Expr}
    (hnegates : Negates operand t e) (h : Completes .unary s operand) :
    Completes .unary (t :: s) e := by
  refine .of_parse rfl fun fuel rest hrank => ?_
  cases fuel with
  | zero => exact Reaches.out _
  | succ fuel =>
      show Reaches (parseUnary (fuel + 1) (t :: (s ++ rest))) _
      rw [parseUnary]
      cases hnegates
      case minus => exact (h.parse fuel rest hrank).bind (Reaches.refl _)
      case bang | notWord => exact (h.parse fuel rest hrank).bind (Reaches.refl _)

theorem memberName_of_labels {t : Token} {name : String} (h : Labels t name) :
    memberName? t = some name := by
  cases h <;> rfl

theorem Completes.member {s : List Token} {t : Token} {target : Expr} {name : String}
    (h : Completes .access s target) (hname : Labels t name) :
    Completes .access (s ++ [.mark .dot, t]) (.member target name) := by
  refine .of_grow rfl fun fuel rest hrank => ?_
  rw [List.append_assoc]
  obtain ⟨fuel', htarget⟩ := h.grow rfl fuel (.mark .dot :: t :: rest) (Nat.le_refl _)
  cases fuel' with
  | zero => exact ⟨0, htarget.trans (Reaches.out _)⟩
  | succ fuel' =>
      refine ⟨fuel', htarget.trans ?_⟩
      rw [parseParts]
      simp only [next, memberName_of_labels hname, List.tail_cons]
      split
      · exact absurd hrank (Nat.not_succ_le_zero 0)
      · exact Reaches.refl _

/-- Arguments are taken up to the mark that closes them. -/
def CompletesAll (s : List Token) (items : List Expr) : Prop :=
  ∀ (close : Mark), close.Closing → ∀ (fuel : Nat) (rest : List Token),
    Reaches (parseArguments fuel close (s ++ .mark close :: rest)) (.ok (items, rest))

theorem Completes.send {s u : List Token} {t : Token} {receiver : Expr} {name : String}
    {arguments : List Expr} (h : Completes .access s receiver) (hname : Labels t name)
    (harguments : CompletesAll u arguments) :
    Completes .access (s ++ .mark .dot :: t :: .mark .openParen :: (u ++ [.mark .closeParen]))
      (.send receiver name arguments) := by
  refine .of_grow rfl fun fuel rest hrank => ?_
  simp only [List.append_assoc, List.cons_append, List.nil_append]
  obtain ⟨fuel', hreceiver⟩ := h.grow rfl fuel (.mark .dot :: t :: .mark .openParen ::
    (u ++ .mark .closeParen :: rest)) (Nat.le_refl _)
  cases fuel' with
  | zero => exact ⟨0, hreceiver.trans (Reaches.out _)⟩
  | succ fuel' =>
      refine ⟨fuel', hreceiver.trans ?_⟩
      rw [parseParts]
      simp only [next, memberName_of_labels hname, List.tail_cons]
      exact (harguments .closeParen (.inl rfl) fuel' rest).bind (Reaches.refl _)

theorem Completes.index {s u : List Token} {target key : Expr} (h : Completes .access s target)
    (hkey : Completes .assign u key) :
    Completes .access (s ++ .mark .openBracket :: (u ++ [.mark .closeBracket]))
      (.index target key) := by
  refine .of_grow rfl fun fuel rest hrank => ?_
  simp only [List.append_assoc, List.cons_append, List.nil_append]
  obtain ⟨fuel', htarget⟩ := h.grow rfl fuel (.mark .openBracket ::
    (u ++ .mark .closeBracket :: rest)) (Nat.le_refl _)
  cases fuel' with
  | zero => exact ⟨0, htarget.trans (Reaches.out _)⟩
  | succ fuel' =>
      refine ⟨fuel', htarget.trans ?_⟩
      rw [parseParts]
      exact (hkey.before rfl fuel' rest).bind (Reaches.refl _)

theorem wordLiteral_of_not_mem_reserved {s : String} (h : s ∉ reserved) :
    wordLiteral? s = none := by
  simp only [reserved, List.mem_cons, List.not_mem_nil, or_false, not_or] at h
  rw [wordLiteral?, if_neg h.1, if_neg h.2.1, if_neg h.2.2.1]

theorem Completes.literal {t : Token} {value : Literal} (h : Denotes t value) :
    Completes .primary [t] (.literal value) := by
  refine .of_parse rfl fun fuel rest _ => ?_
  cases fuel with
  | zero => exact Reaches.out _
  | succ fuel =>
      show Reaches (parsePrimary (fuel + 1) (t :: rest)) _
      cases h <;> exact Reaches.refl _

theorem Completes.name {s : String} (h : s ∉ reserved) : Completes .primary [.word s] (.name s) := by
  refine .of_parse rfl fun fuel rest hrank => ?_
  cases fuel with
  | zero => exact Reaches.out _
  | succ fuel =>
      show Reaches (parsePrimary (fuel + 1) (.word s :: rest)) _
      rw [parsePrimary.eq_def]
      simp only [wordLiteral_of_not_mem_reserved h]
      split
      · exact absurd hrank (Nat.lt_irrefl 0)
      · exact Reaches.refl _

theorem Completes.call {name : String} {u : List Token} {arguments : List Expr}
    (h : name ∉ reserved) (harguments : CompletesAll u arguments) :
    Completes .primary (.word name :: .mark .openParen :: (u ++ [.mark .closeParen]))
      (.call name arguments) := by
  refine .of_parse rfl fun fuel rest _ => ?_
  cases fuel with
  | zero => exact Reaches.out _
  | succ fuel =>
      show Reaches (parsePrimary (fuel + 1) (.word name :: .mark .openParen ::
        (u ++ [.mark .closeParen] ++ rest))) _
      rw [parsePrimary, List.append_assoc]
      simp only [wordLiteral_of_not_mem_reserved h]
      exact (harguments .closeParen (.inl rfl) fuel rest).bind (Reaches.refl _)

theorem Completes.list {u : List Token} {items : List Expr} (hitems : CompletesAll u items) :
    Completes .primary (.mark .openBracket :: (u ++ [.mark .closeBracket])) (.list items) := by
  refine .of_parse rfl fun fuel rest _ => ?_
  cases fuel with
  | zero => exact Reaches.out _
  | succ fuel =>
      show Reaches (parsePrimary (fuel + 1) (.mark .openBracket ::
        (u ++ [.mark .closeBracket] ++ rest))) _
      rw [parsePrimary, List.append_assoc]
      exact (hitems .closeBracket (.inr rfl) fuel rest).bind (Reaches.refl _)

theorem Completes.parens {u : List Token} {e : Expr} (h : Completes .assign u e) :
    Completes .primary (.mark .openParen :: (u ++ [.mark .closeParen])) e := by
  refine .of_parse rfl fun fuel rest _ => ?_
  cases fuel with
  | zero => exact Reaches.out _
  | succ fuel =>
      show Reaches (parsePrimary (fuel + 1) (.mark .openParen ::
        (u ++ [.mark .closeParen] ++ rest))) _
      rw [parsePrimary, List.append_assoc]
      exact (h.before rfl fuel rest).bind (Reaches.refl _)

theorem CompletesAll.none : CompletesAll [] [] := by
  intro close _ fuel rest
  cases fuel with
  | zero => exact Reaches.out _
  | succ fuel =>
      rw [List.nil_append, parseArguments, next_cons, if_pos rfl]
      exact Reaches.refl _

/-- Items are taken up to the mark that closes them. -/
def CompletesSome (s : List Token) (items : List Expr) : Prop :=
  ∀ (close : Mark), close.Closing → ∀ (fuel : Nat) (rest : List Token),
    Reaches (parseItems fuel close (s ++ .mark close :: rest)) (.ok (items, rest))

theorem Mark.Closing.rank {close : Mark} (h : close.Closing) : (Token.mark close).rank = 11 := by
  rcases h with rfl | rfl <;> rfl

theorem CompletesAll.some {s : List Token} {items : List Expr} (hs : DerivesSome s items)
    (h : CompletesSome s items) : CompletesAll s items := by
  intro close hclose fuel rest
  cases fuel with
  | zero => exact Reaches.out _
  | succ fuel =>
      obtain ⟨t, s', rfl, ht⟩ := hs.starts
      have hnext : next (t :: s' ++ .mark close :: rest) ≠ .mark close := ht.ne_closing hclose
      rw [parseArguments, if_neg hnext]
      exact h close hclose fuel rest

theorem CompletesSome.last {s : List Token} {e : Expr} (h : Completes .assign s e) :
    CompletesSome s [e] := by
  intro close hclose fuel rest
  cases fuel with
  | zero => exact Reaches.out _
  | succ fuel =>
      rw [parseItems]
      refine (h.before hclose.rank fuel rest).bind ?_
      dsimp only
      rw [next_cons, if_pos rfl]
      exact Reaches.refl _

theorem CompletesSome.more {s u : List Token} {e : Expr} {items : List Expr}
    (h : Completes .assign s e) (hitems : CompletesSome u items) :
    CompletesSome (s ++ .mark .comma :: u) (e :: items) := by
  intro close hclose fuel rest
  cases fuel with
  | zero => exact Reaches.out _
  | succ fuel =>
      rw [List.append_assoc, List.cons_append, parseItems]
      refine (h.before rfl fuel (u ++ .mark close :: rest)).bind ?_
      dsimp only
      rw [next_cons, if_neg (by rcases hclose with rfl | rfl <;> simp)]
      exact (hitems close hclose fuel rest).bind (Reaches.refl _)

mutual

/-- Every derived expression is what the parser takes its tokens for. -/
theorem Derives.completes : ∀ {level : Level} {s : List Token} {e : Expr},
    Derives level s e → Completes level s e
  | _, _, _, .ascend htighter h => .ascend htighter h h.completes
  | _, _, _, .assign h hplace h' => .assign h.completes hplace h'.completes
  | _, _, _, .choice h h' h'' => .choice h.completes h'.completes h''.completes
  | _, _, _, .join hjoins htighter h h' => .join hjoins htighter h.completes h'.completes
  | _, _, _, .negate hnegates h => .negate hnegates h.completes
  | _, _, _, .member h hname => .member h.completes hname
  | _, _, _, .send h hname h' => .send h.completes hname h'.completes
  | _, _, _, .index h h' => .index h.completes h'.completes
  | _, _, _, .literal h => .literal h
  | _, _, _, .name h => .name h
  | _, _, _, .call h h' => .call h h'.completes
  | _, _, _, .list h => .list h.completes
  | _, _, _, .parens h => .parens h.completes

theorem DerivesAll.completes : ∀ {s : List Token} {items : List Expr},
    DerivesAll s items → CompletesAll s items
  | _, _, .none => .none
  | _, _, .some h => .some h h.completes

theorem DerivesSome.completes : ∀ {s : List Token} {items : List Expr},
    DerivesSome s items → CompletesSome s items
  | _, _, .last h => .last h.completes
  | _, _, .more h h' => .more h.completes h'.completes

end

/-! ## Whole lists of tokens -/

/-- The parser finds every derived expression. -/
theorem parseTokens_of_derives {tokens : List Token} {e : Expr} (h : Derives .assign tokens e) :
    parseTokens (tokens ++ [.finish]) = .ok e := by
  have hreaches : Reaches (parseTokens (tokens ++ [.finish])) (.ok e) :=
    (h.completes.before rfl _ []).bind (Reaches.refl _)
  rcases hreaches with hspent | hok
  · cases parseTokens_reports hspent
  · exact hok

/-- A text parses as what is derived from its tokens. -/
theorem parse_of_tokenize {text : String} {tokens : List Token} {e : Expr}
    (htokens : tokenize text = .ok (tokens ++ [.finish])) (h : Derives .assign tokens e) :
    parse text = .ok e := by
  rw [parse, htokens]
  exact parseTokens_of_derives h

/-- Tokens make up one expression at most. -/
theorem Derives.unique {tokens : List Token} {e e' : Expr} (h : Derives .assign tokens e)
    (h' : Derives .assign tokens e') : e = e' := by
  have hparsed := parseTokens_of_derives h
  rw [parseTokens_of_derives h'] at hparsed
  exact (Except.ok.inj hparsed).symm

end ScriptTree.Expr
