import ScriptTree.Proofs.Expr.Brackets

/-!
# Blanks around expressions

A blank continues no token, so what the lexer finds in a text does not depend on the blanks around
it (`parse_trim`). Places in reports count characters from the start and may differ.
-/

set_option autoImplicit false

namespace ScriptTree

namespace Text

/-- The characters whose codes lie in the ranges. -/
def listed (ranges : List (Nat × Nat)) : List Char :=
  ranges.flatMap fun r => (List.range' r.1 (r.2 + 1 - r.1)).map Char.ofNat

theorem mem_listed {ranges : List (Nat × Nat)} {c : Char} (h : inRanges ranges c = true) :
    c ∈ listed ranges := by
  obtain ⟨r, hr, hin⟩ := List.any_eq_true.mp h
  simp only [Bool.and_eq_true, decide_eq_true_eq] at hin
  refine List.mem_flatMap.mpr ⟨r, hr, List.mem_map.mpr ⟨c.toNat, ?_, Char.ofNat_toNat c⟩⟩
  exact List.mem_range'_1.mpr ⟨hin.1, by omega⟩

/-- What holds of no listed character holds of none in the ranges. -/
theorem not_of_inRanges {ranges : List (Nat × Nat)} {p : Char → Bool}
    (hp : (listed ranges).any p = false) {c : Char} (h : inRanges ranges c = true) :
    p c = false :=
  Bool.eq_false_iff.mpr (List.any_eq_false.mp hp c (mem_listed h))

theorem not_of_isBlank {p : Char → Bool} (hp : (listed blankRanges).any p = false) {c : Char}
    (h : isBlank c = true) : p c = false :=
  not_of_inRanges hp h

end Text

/-- What remains of two steps is what remains of the second where the first gives a result. -/
theorem Except.toOption_bind {ε α β : Type} (result : Except ε α) (next : α → Except ε β) :
    (result >>= next).toOption = result.toOption.bind fun x => (next x).toOption := by
  cases result <;> rfl

namespace Expr

open Script (Fault)

theorem continuesWord_of_isBlank {c : Char} (h : Text.isBlank c = true) :
    continuesWord c = false :=
  Text.not_of_isBlank (by decide +kernel) h

theorem startsWord_of_isBlank {c : Char} (h : Text.isBlank c = true) : startsWord c = false :=
  Text.not_of_isBlank (by decide +kernel) h

/-- No digit starts a word. -/
theorem startsWord_of_isDigit {c : Char} (h : c.isDigit = true) : startsWord c = false := by
  have hrange : Text.inRanges [(0x30, 0x39)] c = true := by
    simp only [Char.isDigit, Bool.and_eq_true, decide_eq_true_eq, UInt32.le_iff_toNat_le] at h
    simp only [Text.inRanges, List.any_cons, List.any_nil, Bool.or_false, Bool.and_eq_true,
      decide_eq_true_eq]
    exact h
  exact Text.not_of_inRanges (by decide +kernel) hrange

theorem isDigit_of_isBlank {c : Char} (h : Text.isBlank c = true) : c.isDigit = false :=
  Text.not_of_isBlank (by decide) h

/-! ## Blanks behind a token -/

section Behind

variable {g : List Char}

theorem takeWhile_append_of_not {p : Char → Bool} (hg : ∀ c ∈ g, p c = false) (s : List Char) :
    (s ++ g).takeWhile p = s.takeWhile p := by
  have hnone : g.takeWhile p = [] := by
    cases g with
    | nil => rfl
    | cons c g => simp [hg c List.mem_cons_self]
  rw [List.takeWhile_append, hnone]
  split
  · rename_i hall
    rw [List.append_nil, (List.takeWhile_prefix p).eq_of_length hall]
  · rfl

theorem dropWhile_append_of_not {p : Char → Bool} (hg : ∀ c ∈ g, p c = false) (s : List Char) :
    (s ++ g).dropWhile p = s.dropWhile p ++ g := by
  have hall : g.dropWhile p = g := by
    cases g with
    | nil => rfl
    | cons c g => simp [hg c List.mem_cons_self]
  rw [List.dropWhile_append, hall]
  split
  · rename_i hempty
    rw [List.isEmpty_iff.mp hempty, List.nil_append]
  · rfl

variable (hg : ∀ c ∈ g, Text.isBlank c = true)
include hg

theorem takeFraction_append_blanks (s : List Char) :
    takeFraction (s ++ g) = ((takeFraction s).1, (takeFraction s).2 ++ g) := by
  have hdigit : ∀ c ∈ g, c.isDigit = false := fun c hc => isDigit_of_isBlank (hg c hc)
  cases s with
  | nil =>
      cases g with
      | nil => rfl
      | cons c g =>
          have hc : c ≠ '.' := by
            rintro rfl
            exact absurd (hg '.' List.mem_cons_self) (by decide)
          simp [takeFraction, hc]
  | cons c s =>
      by_cases hc : c = '.'
      · subst hc
        simp only [takeFraction, List.cons_append, takeWhile_append_of_not hdigit]
        split
        · rfl
        · rw [List.drop_append_of_le_length (List.takeWhile_prefix _).length_le]
      · simp [takeFraction, hc]

theorem takeSign_append_blanks (s : List Char) :
    Number.takeSign (s ++ g) = ((Number.takeSign s).1, (Number.takeSign s).2 ++ g) := by
  cases s with
  | nil =>
      cases g with
      | nil => rfl
      | cons c g =>
          have hplus : c ≠ '+' := by
            rintro rfl
            exact absurd (hg '+' List.mem_cons_self) (by decide)
          have hminus : c ≠ '-' := by
            rintro rfl
            exact absurd (hg '-' List.mem_cons_self) (by decide)
          simp [Number.takeSign, hplus, hminus]
  | cons c s =>
      rw [List.cons_append, Number.takeSign.eq_def, Number.takeSign.eq_def (c :: s)]
      split <;> simp_all

theorem takeExponent_append_blanks (s : List Char) :
    takeExponent (s ++ g) = ((takeExponent s).1, (takeExponent s).2 ++ g) := by
  have hdigit : ∀ c ∈ g, c.isDigit = false := fun c hc => isDigit_of_isBlank (hg c hc)
  cases s with
  | nil =>
      cases g with
      | nil => rfl
      | cons c g =>
          have hc : (c == 'e' || c == 'E') = false :=
            Text.not_of_isBlank (p := fun c => c == 'e' || c == 'E') (by decide)
              (hg c List.mem_cons_self)
          simp [takeExponent, hc]
  | cons c s =>
      rw [List.cons_append, takeExponent, takeExponent]
      split
      · simp only [takeSign_append_blanks hg, takeWhile_append_of_not hdigit,
          dropWhile_append_of_not hdigit]
      · rfl

theorem takeNumber_append_blanks (s : List Char) :
    takeNumber (s ++ g) = ((takeNumber s).1, (takeNumber s).2 ++ g) := by
  have hdigit : ∀ c ∈ g, c.isDigit = false := fun c hc => isDigit_of_isBlank (hg c hc)
  simp only [takeNumber, takeWhile_append_of_not hdigit, dropWhile_append_of_not hdigit,
    takeFraction_append_blanks hg, takeExponent_append_blanks hg]

/-- Blanks close no quoted text. -/
theorem takeQuoted_append_blanks {quote : Char} (hquote : Script.isQuote quote = true)
    (s : List Char) :
    takeQuoted quote (s ++ g) = (takeQuoted quote s).map fun p => (p.1, p.2 ++ g) := by
  have hnone : ∀ t : List Char, (∀ c ∈ t, Text.isBlank c = true) → takeQuoted quote t = none := by
    intro t ht
    induction t with
    | nil => exact takeQuoted.eq_def _ _
    | cons c t ih =>
        have hback : (c == '\\') = false :=
          Text.not_of_isBlank (p := (· == '\\')) (by decide) (ht c List.mem_cons_self)
        have hplain : Script.isQuote c = false :=
          Text.not_of_isBlank (by decide) (ht c List.mem_cons_self)
        have hc : (c == quote) = false := by
          refine beq_eq_false_iff_ne.mpr ?_
          rintro rfl
          rw [hquote] at hplain
          cases hplain
        rw [takeQuoted.eq_def]
        simp [hback, hc, ih fun d hd => ht d (List.mem_cons_of_mem c hd)]
  fun_induction takeQuoted quote s with
  | case1 => exact hnone g hg
  | case2 c hc =>
      -- A backslash at the end would take a blank along.
      rw [List.singleton_append, takeQuoted.eq_def]
      cases g with
      | nil => simp [hc]
      | cons e g => simp [hc, hnone g fun d hd => hg d (List.mem_cons_of_mem e hd)]
  | case3 c hc e rest ih =>
      rw [List.cons_append, List.cons_append, takeQuoted.eq_def]
      simp only [hc, if_true, ih, Option.map_map]
      rfl
  | case4 c rest hc hclose =>
      rw [List.cons_append, takeQuoted.eq_def]
      simp [hc, hclose]
  | case5 c rest hc hclose ih =>
      rw [List.cons_append, takeQuoted.eq_def]
      simp only [hc, hclose, Bool.false_eq_true, if_false, ih, Option.map_map]
      rfl

theorem takeMark_append_blanks (c : Char) (s : List Char) :
    takeMark? c (s ++ g) = (takeMark? c s).map fun p => (p.1, p.2 ++ g) := by
  -- The second character of a mark is no blank.
  have hsecond : ∀ d, (d == '=' || d == '&' || d == '|') = true →
      (∀ t, s = d :: t → False) → ∀ t, s ++ g = d :: t → False := by
    intro d hd hs t ht
    cases s with
    | cons e s => exact hs s (by rw [(List.cons.inj ht).1])
    | nil =>
        have hblank : Text.isBlank d = true := by
          refine hg d ?_
          rw [show g = d :: t from ht]
          exact List.mem_cons_self
        have hnot := Text.not_of_isBlank (p := fun d => d == '=' || d == '&' || d == '|')
          (by decide) hblank
        rw [hd] at hnot
        cases hnot
  have heq := hsecond '=' rfl
  rw [takeMark?.eq_def c s]
  split
  case h_20 h | h_21 h | h_22 h | h_23 h => simp_all [takeMark?]
  case h_24 =>
    have hand : ∀ t, c = '&' → s = '&' :: t → False := by assumption
    have hor : ∀ t, c = '|' → s = '|' :: t → False := by assumption
    have hand' : c = '&' → ∀ t, s ++ g = '&' :: t → False := fun hc =>
      hsecond '&' rfl fun t => hand t hc
    have hor' : c = '|' → ∀ t, s ++ g = '|' :: t → False := fun hc =>
      hsecond '|' rfl fun t => hor t hc
    simp_all [takeMark?]
  all_goals rfl

/-- Blanks behind a text stay behind its first token. -/
theorem firstToken_append_blanks (place place' : Nat) (c : Char) (s : List Char) :
    (firstToken place c (s ++ g)).toOption =
      (firstToken place' c s).toOption.map fun p => (p.1, p.2 ++ g) := by
  have hword : ∀ c ∈ g, continuesWord c = false := fun c hc => continuesWord_of_isBlank (hg c hc)
  unfold firstToken
  split
  · rw [← List.cons_append, takeNumber_append_blanks hg]
    rfl
  · split
    · rename_i hquote
      rw [takeQuoted_append_blanks hg hquote]
      cases takeQuoted c s <;> rfl
    · split
      · rw [takeWhile_append_of_not hword, dropWhile_append_of_not hword]
        rfl
      · rw [takeMark_append_blanks hg]
        cases takeMark? c s <;> rfl

/-- Blanks behind a text change nothing about its tokens. -/
theorem tokensFrom_append_blanks (total total' : Nat) {fuel fuel' : Nat} {s : List Char}
    (hfuel : (s ++ g).length < fuel) (hfuel' : s.length < fuel') :
    (tokensFrom total fuel (s ++ g)).toOption = (tokensFrom total' fuel' s).toOption := by
  induction fuel generalizing fuel' s with
  | zero => cases hfuel
  | succ fuel ih =>
      obtain ⟨fuel', rfl⟩ : ∃ k, fuel' = k + 1 := ⟨fuel' - 1, by omega⟩
      rw [tokensFrom, tokensFrom]
      by_cases hs : ∃ c ∈ s, Text.isBlank c = false
      · obtain ⟨c, hhead⟩ := Text.exists_head?_trimStart hs
        obtain ⟨rest, htrim⟩ := List.head?_eq_some_iff.mp hhead
        have hfirst := firstToken_append_blanks hg (total - ((rest ++ g).length + 1))
          (total' - (rest.length + 1)) c rest
        rw [Text.trimStart_append hs, htrim, List.cons_append]
        dsimp only
        cases hfound : firstToken (total' - (rest.length + 1)) c rest with
        | error fault =>
            rw [hfound] at hfirst
            rw [Except.toOption_bind, hfirst]
            rfl
        | ok p =>
            obtain ⟨taken, hrest, -⟩ := spells_of_firstToken hfound
            have hlength : p.2.length < s.length := by
              have hsuffix : rest.length + 1 ≤ s.length := by
                rw [← List.length_cons, ← htrim]
                exact (List.dropWhile_suffix _).length_le
              have hall := congrArg List.length hrest
              rw [List.length_append] at hall
              omega
            rw [List.length_append] at hfuel
            have hothers : (tokensFrom total fuel (p.2 ++ g)).toOption =
                (tokensFrom total' fuel' p.2).toOption :=
              ih (by rw [List.length_append]; omega) (by omega)
            rw [hfound] at hfirst
            rw [Except.toOption_bind, hfirst]
            show (tokensFrom total fuel (p.2 ++ g) >>= _).toOption = _
            rw [Except.toOption_bind, hothers, ← Except.toOption_bind]
            rfl
      · have hblank : ∀ c ∈ s, Text.isBlank c = true := by simpa using hs
        have hboth : ∀ c ∈ s ++ g, Text.isBlank c = true := fun c hc =>
          (List.mem_append.mp hc).elim (hblank c) (hg c)
        have hnone : ∀ t : List Char, (∀ c ∈ t, Text.isBlank c = true) → Text.trimStart t = [] :=
          fun t ht => by simpa [Text.trimStart] using ht
        rw [hnone _ hblank, hnone _ hboth]

end Behind

/-- Blanks around a text change nothing about what it is read as. -/
theorem parse_trim (s : List Char) :
    (parse (String.ofList (Text.trim s))).toOption = (parse (String.ofList s)).toOption := by
  obtain ⟨before, hbefore, hstart⟩ := Text.exists_trimStart_eq s
  obtain ⟨behind, hbehind, hend⟩ := Text.exists_trimEnd_eq (Text.trimStart s)
  have hagain : Text.trimStart (Text.trimStart s) = Text.trimStart s := by
    rw [← Text.trimStart_blanks_append hbefore, hstart]
  have htokens : (tokenizeChars (Text.trim s)).toOption = (tokenizeChars s).toOption := by
    have hlength : (Text.trimStart s).length ≤ s.length := (List.dropWhile_suffix _).length_le
    calc (tokenizeChars (Text.trim s)).toOption
        = (tokensFrom s.length (s.length + 1) (Text.trim s ++ behind)).toOption :=
          (tokensFrom_append_blanks hbehind _ _ (by rw [Text.trim, hend]; omega) (by omega)).symm
      _ = (tokensFrom s.length (s.length + 1) (Text.trimStart s)).toOption := by
          rw [Text.trim, hend]
      _ = (tokenizeChars s).toOption := by
          rw [tokenizeChars, tokensFrom, tokensFrom, hagain]
  rw [parse, parse, Except.toOption_bind, Except.toOption_bind, tokenize, tokenize,
    String.toList_ofList, String.toList_ofList, htokens]

end Expr

end ScriptTree
