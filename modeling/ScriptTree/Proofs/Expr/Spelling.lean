import ScriptTree.Proofs.Expr.Blanks
import ScriptTree.Proofs.Expr.Completeness

/-!
# Spelled tokens

Every token has a spelling. All tokens that the lexer finds, doubles apart, are legible
(`legible_of_tokensFrom`), and a legible token is what the lexer finds in its own spelling: spelled
with a blank behind each, legible tokens are read back (`tokenize_spelled`).
-/

set_option autoImplicit false

namespace ScriptTree.Expr

open ScriptTree.Script (Fault)

/-- The symbol of a mark. -/
def Mark.symbol : Mark → List Char
  | .plus => ['+']
  | .minus => ['-']
  | .star => ['*']
  | .slash => ['/']
  | .percent => ['%']
  | .eq => ['=', '=']
  | .ne => ['!', '=']
  | .lt => ['<']
  | .le => ['<', '=']
  | .gt => ['>']
  | .ge => ['>', '=']
  | .bang => ['!']
  | .and => ['&', '&']
  | .or => ['|', '|']
  | .assign => ['=']
  | .question => ['?']
  | .colon => [':']
  | .comma => [',']
  | .dot => ['.']
  | .openParen => ['(']
  | .closeParen => [')']
  | .openBracket => ['[']
  | .closeBracket => [']']

/-- A character of a quoted text, with a backslash in front where it needs one. -/
def escape (c : Char) : List Char :=
  if c = '\'' ∨ c = '\\' then ['\\', c] else [c]

/-- The spelling of a token. Doubles are spelled as reports show them. -/
def Token.spelling : Token → List Char
  | .int n => (toString n).toList
  | .float x => (reportFloat x).toList
  | .text s => '\'' :: (s.toList.flatMap escape ++ ['\''])
  | .word s => s.toList
  | .mark m => m.symbol
  | .finish => []

/-- The tokens in a row, each with a blank behind it. -/
def spelled (tokens : List Token) : List Char :=
  tokens.flatMap fun t => t.spelling ++ [' ']

/-- The characters make up a word: the lexer takes the first for the start of a word and all others
along. -/
structure IsWord (first : Char) (others : List Char) : Prop where
  dark : Text.isBlank first = false
  noDigit : first.isDigit = false
  noQuote : (first == '\'' || first == '"') = false
  starts : startsWord first = true
  continues : ∀ c ∈ others, continuesWord c = true

/-- The text is a word. -/
def Wordlike (s : String) : Prop := ∃ first others, s.toList = first :: others ∧ IsWord first others

/-- The text is a word that the lexer starts with a letter, an underscore or a dollar sign. -/
def IsIdentifier (x : String) : Prop :=
  ∃ first others, x.toList = first :: others ∧ startsWord first = true ∧
    ∀ c ∈ others, continuesWord c = true

/-- The token can be spelled: a word is one, and an integer has 63 bits at most. -/
def Token.Legible : Token → Prop
  | .int n => n < 0x8000000000000000
  | .text _ | .mark _ => True
  | .word s => Wordlike s
  | .float _ | .finish => False

theorem IsIdentifier.wordlike {x : String} (h : IsIdentifier x) : Wordlike x := by
  obtain ⟨first, others, hx, hfirst, hothers⟩ := h
  refine ⟨first, others, hx, ?dark, ?digit, ?quote, hfirst, hothers⟩
  case dark =>
    by_contra hdark
    rw [Bool.not_eq_false] at hdark
    rw [startsWord_of_isBlank hdark] at hfirst
    cases hfirst
  case digit =>
    by_contra hdigit
    rw [Bool.not_eq_false] at hdigit
    rw [startsWord_of_isDigit hdigit] at hfirst
    cases hfirst
  case quote =>
    have hplain := not_special_of_startsWord hfirst
    simp only [special, List.mem_cons, List.not_mem_nil, or_false, not_or] at hplain
    simp [hplain]

/-- A character that no word may have is not in one. -/
theorem IsIdentifier.notMem {x : String} (h : IsIdentifier x) {c : Char}
    (hstarts : startsWord c = false) (hcontinues : continuesWord c = false) : c ∉ x.toList := by
  obtain ⟨first, others, hx, hfirst, hothers⟩ := h
  rw [hx]
  intro hc
  rcases List.mem_cons.mp hc with rfl | hc
  · rw [hstarts] at hfirst
    cases hfirst
  · rw [hothers c hc] at hcontinues
    cases hcontinues

/-! ## What the lexer finds -/

theorem Written.token_legible (w : Written) :
    w.token.Legible ∨ ∃ x, w.token = .float x := by
  unfold Written.token
  dsimp only
  split
  · rename_i h
    simp only [Bool.and_eq_true, decide_eq_true_eq] at h
    exact .inl h.2
  · exact .inr ⟨_, rfl⟩

theorem legible_of_firstToken {place : Nat} {c : Char} {rest rest' : List Char} {t : Token}
    (hc : Text.isBlank c = false) (h : firstToken place c rest = .ok (t, rest')) :
    t.Legible ∨ ∃ x, t = .float x := by
  unfold firstToken at h
  split at h
  · cases h
    exact Written.token_legible _
  · rename_i hdigit
    split at h
    · split at h
      · cases h
        exact .inl trivial
      · cases h
    · rename_i hquote
      split at h
      · rename_i hstarts
        cases h
        refine .inl ⟨c, rest.takeWhile continuesWord, String.toList_ofList, hc, ?_, ?_, hstarts, ?_⟩
        · exact Bool.eq_false_iff.mpr hdigit
        · exact Bool.eq_false_iff.mpr hquote
        · exact fun d hd => List.mem_takeWhile_imp hd
      · split at h
        · cases h
          exact .inl trivial
        · cases h

/-- All tokens of a text but doubles and the end of the input are legible. -/
theorem legible_of_tokensFrom {total fuel : Nat} {s : List Char} {tokens : List Token}
    (h : tokensFrom total fuel s = .ok tokens) {t : Token} (ht : t ∈ tokens) :
    t.Legible ∨ (∃ x, t = .float x) ∨ t = .finish := by
  induction fuel generalizing s tokens with
  | zero =>
      cases h
      exact .inr (.inr (List.mem_singleton.mp ht))
  | succ fuel ih =>
      rw [tokensFrom] at h
      split at h
      · cases h
        exact .inr (.inr (List.mem_singleton.mp ht))
      · rename_i c rest htrim
        obtain ⟨⟨first, rest'⟩, hfirst, h⟩ := Except.bind_eq_ok h
        obtain ⟨others, hothers, h⟩ := Except.bind_eq_ok h
        cases h
        rcases List.mem_cons.mp ht with rfl | hmem
        · have hc := Text.head?_trimStart s c (by rw [htrim]; rfl)
          exact (legible_of_firstToken hc hfirst).imp id .inl
        · exact ih hothers hmem

/-- The end of the input is the last token of a text, and no other is. -/
theorem exists_eq_append_finish {total fuel : Nat} {s : List Char} {tokens : List Token}
    (h : tokensFrom total fuel s = .ok tokens) :
    ∃ found, tokens = found ++ [.finish] ∧ Token.finish ∉ found := by
  induction fuel generalizing s tokens with
  | zero =>
      cases h
      exact ⟨[], rfl, List.not_mem_nil⟩
  | succ fuel ih =>
      rw [tokensFrom] at h
      split at h
      · cases h
        exact ⟨[], rfl, List.not_mem_nil⟩
      · obtain ⟨⟨first, rest'⟩, hfirst, h⟩ := Except.bind_eq_ok h
        obtain ⟨others, hothers, h⟩ := Except.bind_eq_ok h
        cases h
        obtain ⟨found, rfl, hfound⟩ := ih hothers
        refine ⟨first :: found, rfl, ?_⟩
        rw [List.mem_cons, not_or]
        exact ⟨(ne_finish_of_firstToken hfirst).symm, hfound⟩

/-! ## What the lexer finds in spellings -/

theorem digitsValue_toString (n : Nat) : Number.digitsValue (toString n).toList = n := by
  show Nat.ofDigitChars 10 n.repr.toList 0 = n
  rw [Nat.toList_repr]
  exact Nat.ofDigitChars_toDigits (by decide) (by decide)

theorem isDigit_of_mem_toString {n : Nat} {c : Char} (h : c ∈ (toString n).toList) :
    c.isDigit = true := by
  have hmem : c ∈ n.repr.toList := h
  rw [Nat.toList_repr] at hmem
  exact Nat.isDigit_of_mem_toDigits (by decide) (by decide) hmem

/-- A number starts with a digit. -/
theorem exists_toString_eq_cons (n : Nat) :
    ∃ c others, (toString n).toList = c :: others ∧ c.isDigit = true := by
  cases hs : (toString n).toList with
  | nil =>
      rw [show (toString n).toList = Nat.toDigits 10 n from Nat.toList_repr] at hs
      exact absurd hs Nat.toDigits_ne_nil
  | cons c others =>
      exact ⟨c, others, rfl, isDigit_of_mem_toString (hs ▸ List.mem_cons_self)⟩

/-- A digit is no blank. -/
theorem isBlank_of_isDigit {c : Char} (h : c.isDigit = true) : Text.isBlank c = false := by
  simp only [Char.isDigit, Bool.and_eq_true, decide_eq_true_eq, UInt32.le_iff_toNat_le] at h
  simp only [Text.isBlank, Text.inRanges, Text.blankRanges, List.any_cons, List.any_nil,
    Bool.or_false, Bool.or_eq_false_iff, Bool.and_eq_false_iff, decide_eq_false_iff_not]
  simp only [Char.toNat]
  have hzero : '0'.val.toNat = 48 := rfl
  have hnine : '9'.val.toNat = 57 := rfl
  omega

theorem toList_toString_negSucc (n : Nat) :
    (toString (Int.negSucc n)).toList = '-' :: (toString (n + 1)).toList := by
  show ("-" ++ toString (n + 1)).toList = _
  rw [String.toList_append]
  rfl

/-- The text of an integer has no blanks. -/
theorem isBlank_of_mem_toString {i : Int} {c : Char} (h : c ∈ (toString i).toList) :
    Text.isBlank c = false := by
  cases i with
  | ofNat n => exact isBlank_of_isDigit (isDigit_of_mem_toString (n := n) h)
  | negSucc n =>
      rw [toList_toString_negSucc] at h
      rcases List.mem_cons.mp h with rfl | h
      · decide
      · exact isBlank_of_isDigit (isDigit_of_mem_toString h)

theorem takeWhile_stop {p : Char → Bool} {s rest : List Char} (hs : ∀ c ∈ s, p c = true)
    (hrest : ∀ c ∈ rest.head?, p c = false) : (s ++ rest).takeWhile p = s := by
  have hnone : rest.takeWhile p = [] := by
    cases rest with
    | nil => rfl
    | cons c rest => exact List.takeWhile_cons_of_neg (by simp [hrest c rfl])
  rw [List.takeWhile_append_of_pos hs, hnone, List.append_nil]

theorem dropWhile_stop {p : Char → Bool} {s rest : List Char} (hs : ∀ c ∈ s, p c = true)
    (hrest : ∀ c ∈ rest.head?, p c = false) : (s ++ rest).dropWhile p = rest := by
  rw [List.dropWhile_append_of_pos hs]
  cases rest with
  | nil => rfl
  | cons c rest => exact List.dropWhile_cons_of_neg (by simp [hrest c rfl])

/-- A number in front of the text ends there. -/
structure EndsNumber (rest : List Char) : Prop where
  digit : ∀ c ∈ rest.head?, c.isDigit = false
  fraction : takeFraction rest = (none, rest)
  exponent : takeExponent rest = (none, rest)

theorem takeNumber_toString (n : Nat) {rest : List Char} (hrest : EndsNumber rest) :
    takeNumber ((toString n).toList ++ rest) = (⟨(toString n).toList, none, none⟩, rest) := by
  have hdigits : ∀ c ∈ (toString n).toList, c.isDigit = true := fun _ => isDigit_of_mem_toString
  unfold takeNumber
  rw [takeWhile_stop hdigits hrest.digit, dropWhile_stop hdigits hrest.digit, hrest.fraction]
  dsimp only
  rw [hrest.exponent]

/-- The token of a natural number: past 63 bits it is the nearest double. -/
def natToken (n : Nat) : Token :=
  if n < 0x8000000000000000 then .int n else .float (Float.ofInt n)

theorem token_digits (n : Nat) :
    (⟨(toString n).toList, none, none⟩ : Written).token = natToken n := by
  have hdouble : (⟨(toString n).toList, none, none⟩ : Written).toFloat = Float.ofInt n := by
    show Number.scientific (Number.digitsValue ((toString n).toList ++ [])) _ = _
    rw [List.append_nil, digitsValue_toString]
    rfl
  simp only [Written.token, digitsValue_toString, hdouble, Option.isNone_none, Bool.true_and,
    decide_eq_true_eq, natToken]

/-- The lexer takes a natural number from the front of a text. -/
theorem firstToken_nat {n : Nat} {c : Char} {others : List Char}
    (hs : (toString n).toList = c :: others) {rest : List Char} (hrest : EndsNumber rest)
    (place : Nat) : firstToken place c (others ++ rest) = .ok (natToken n, rest) := by
  have hdigit : c.isDigit = true := isDigit_of_mem_toString (hs ▸ List.mem_cons_self)
  rw [firstToken, if_pos hdigit, ← List.cons_append, ← hs, takeNumber_toString n hrest]
  dsimp only
  rw [token_digits]

/-- The lexer takes an integer of 63 bits from the front of a text. -/
theorem firstToken_int {n : Nat} (h : n < 0x8000000000000000) {c : Char} {others : List Char}
    (hs : (toString n).toList = c :: others) {rest : List Char} (hrest : EndsNumber rest)
    (place : Nat) : firstToken place c (others ++ rest) = .ok (.int n, rest) := by
  rw [firstToken_nat hs hrest, natToken, if_pos h]

/-- The lexer takes a word from the front of a text. -/
theorem firstToken_word {s : String} {first : Char} {others : List Char}
    (hs : s.toList = first :: others) (hword : IsWord first others) {rest : List Char}
    (hrest : ∀ c ∈ rest.head?, continuesWord c = false) (place : Nat) :
    firstToken place first (others ++ rest) = .ok (.word s, rest) := by
  rw [firstToken, hword.noDigit, hword.noQuote, hword.starts, takeWhile_stop hword.continues hrest,
    dropWhile_stop hword.continues hrest, ← hs]
  simp

/-- A token in front of others. -/
theorem tokensFrom_cons {total fuel : Nat} {c : Char} {s rest : List Char} {t : Token}
    {tokens : List Token} (hc : Text.isBlank c = false)
    (hfirst : ∀ place, firstToken place c s = .ok (t, rest))
    (hrest : tokensFrom total fuel rest = .ok tokens) :
    tokensFrom total (fuel + 1) (c :: s) = .ok (t :: tokens) := by
  have htrim : Text.trimStart (c :: s) = c :: s := List.dropWhile_cons_of_neg (by simp [hc])
  rw [tokensFrom, htrim]
  dsimp only
  rw [hfirst]
  show (tokensFrom total fuel rest >>= _) = _
  rw [hrest]
  rfl

/-- Blanks in front of tokens. -/
theorem tokensFrom_blanks {before : List Char} (hbefore : ∀ c ∈ before, Text.isBlank c = true)
    (total fuel : Nat) (s : List Char) :
    tokensFrom total fuel (before ++ s) = tokensFrom total fuel s := by
  cases fuel with
  | zero => rfl
  | succ fuel => rw [tokensFrom, tokensFrom, Text.trimStart_blanks_append hbefore]

theorem takeQuoted_escape (s rest : List Char) :
    takeQuoted '\'' (s.flatMap escape ++ '\'' :: rest) = some (s, rest) := by
  induction s with
  | nil => exact takeQuoted.eq_def _ _
  | cons c s ih =>
      rw [List.flatMap_cons, List.append_assoc]
      by_cases hc : c = '\'' ∨ c = '\\'
      · rw [escape, if_pos hc]
        simp only [List.cons_append, List.nil_append, takeQuoted, beq_self_eq_true, if_true, ih]
        rcases hc with rfl | rfl <;> rfl
      · rw [escape, if_neg hc, List.singleton_append, takeQuoted.eq_def]
        simp only [not_or] at hc
        simp [hc, ih]

/-- The lexer reads the token back from its spelling with a blank behind it. -/
def ReadBack (t : Token) : Prop :=
  ∃ c others, t.spelling = c :: others ∧ Text.isBlank c = false ∧
    ∀ place rest, firstToken place c (others ++ ' ' :: rest) = .ok (t, ' ' :: rest)

theorem readBack_int {n : Nat} (h : n < 0x8000000000000000) : ReadBack (.int n) := by
  obtain ⟨c, others, hs, hdigit⟩ := exists_toString_eq_cons n
  refine ⟨c, others, hs, isBlank_of_isDigit hdigit, fun place rest => ?_⟩
  exact firstToken_int h hs ⟨by rintro c ⟨⟩; decide, rfl, rfl⟩ place

theorem readBack_text (s : String) : ReadBack (.text s) := by
  refine ⟨'\'', s.toList.flatMap escape ++ ['\''], rfl, by decide, fun place rest => ?_⟩
  rw [List.append_assoc]
  simp [firstToken, takeQuoted_escape]

theorem readBack_word {s : String} (h : Wordlike s) : ReadBack (.word s) := by
  obtain ⟨first, others, hs, hword⟩ := h
  refine ⟨first, others, hs, hword.dark, fun place rest => ?_⟩
  exact firstToken_word hs hword (by rintro c ⟨⟩; decide) place

theorem readBack_mark (m : Mark) : ReadBack (.mark m) := by
  cases m <;> exact ⟨_, _, rfl, by decide, fun _ _ => rfl⟩

theorem Token.Legible.readBack {t : Token} (h : t.Legible) : ReadBack t := by
  cases t with
  | int n => exact readBack_int h
  | float => exact h.elim
  | text s => exact readBack_text s
  | word s => exact readBack_word h
  | mark m => exact readBack_mark m
  | finish => exact h.elim

theorem length_le_length_spelled (tokens : List Token) :
    tokens.length ≤ (spelled tokens).length := by
  induction tokens with
  | nil => exact Nat.le_refl _
  | cons t tokens ih =>
      have hspelled : spelled (t :: tokens) = t.spelling ++ [' '] ++ spelled tokens := rfl
      rw [hspelled]
      simp only [List.length_append, List.length_cons, List.length_nil]
      omega

/-- Spelled tokens are read back. -/
theorem tokensFrom_spelled (total : Nat) {tokens : List Token} (h : ∀ t ∈ tokens, t.Legible)
    {fuel : Nat} (hfuel : tokens.length < fuel) :
    tokensFrom total fuel (spelled tokens) = .ok (tokens ++ [.finish]) := by
  induction tokens generalizing fuel with
  | nil =>
      cases fuel with
      | zero => rfl
      | succ fuel => rfl
  | cons t tokens ih =>
      obtain ⟨c, others, hs, hc, hfirst⟩ := (h t List.mem_cons_self).readBack
      obtain ⟨fuel, rfl⟩ : ∃ k, fuel = k + 1 := ⟨fuel - 1, by omega⟩
      have hsplit : spelled (t :: tokens) = c :: (others ++ ' ' :: spelled tokens) := by
        simp [spelled, hs]
      have hrest : tokensFrom total fuel ([' '] ++ spelled tokens) = .ok (tokens ++ [.finish]) := by
        rw [tokensFrom_blanks (List.forall_mem_singleton.mpr (by decide))]
        exact ih (fun t ht => h t (List.mem_cons_of_mem _ ht)) (Nat.lt_of_succ_lt_succ hfuel)
      rw [hsplit]
      exact tokensFrom_cons hc (fun place => hfirst place _) hrest

/-- Legible tokens are what the lexer finds in their spellings. -/
theorem tokenize_spelled {tokens : List Token} (h : ∀ t ∈ tokens, t.Legible) :
    tokenize (String.ofList (spelled tokens)) = .ok (tokens ++ [.finish]) := by
  rw [tokenize, String.toList_ofList, tokenizeChars]
  exact tokensFrom_spelled _ h (Nat.lt_succ_of_le (length_le_length_spelled tokens))

end ScriptTree.Expr
