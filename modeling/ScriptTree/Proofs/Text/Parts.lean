import Mathlib.Data.List.TakeWhile
import Mathlib.Tactic.ByContra
import ScriptTree.Text.Blank
import ScriptTree.Text.Lines

/-!
# Parts of texts

What trimming leaves (`trim_surrounded`, `trim_eq_self`), the first line of a text and the rest of
them (`exists_lines_append_newline`), and when a text contains another one (`containsText_iff`).
-/

set_option autoImplicit false

namespace ScriptTree

/-! ## Blanks at the ends -/

namespace Text

theorem exists_trimStart_eq (s : List Char) :
    ∃ g, (∀ c ∈ g, isBlank c = true) ∧ g ++ trimStart s = s :=
  ⟨s.takeWhile isBlank, fun _ h => List.mem_takeWhile_imp h, List.takeWhile_append_dropWhile⟩

theorem exists_trimEnd_eq (s : List Char) :
    ∃ g, (∀ c ∈ g, isBlank c = true) ∧ trimEnd s ++ g = s := by
  obtain ⟨g, hg, hs⟩ := exists_trimStart_eq s.reverse
  refine ⟨g.reverse, fun c hc => hg c (List.mem_reverse.mp hc), ?_⟩
  rw [trimEnd, ← List.reverse_append]
  exact (congrArg List.reverse hs).trans (List.reverse_reverse s)

theorem trim_infix (s : List Char) : trim s <:+: s := by
  obtain ⟨before, -, hbefore⟩ := exists_trimStart_eq s
  obtain ⟨after, -, hafter⟩ := exists_trimEnd_eq (trimStart s)
  exact ⟨before, after, by rw [List.append_assoc, trim, hafter, hbefore]⟩

theorem trimStart_blanks_append {g : List Char} (hg : ∀ c ∈ g, isBlank c = true)
    (s : List Char) : trimStart (g ++ s) = trimStart s := by
  induction g with
  | nil => rfl
  | cons c g ih =>
      have hc := hg c List.mem_cons_self
      rw [List.cons_append, trimStart, List.dropWhile_cons_of_pos hc]
      exact ih fun d hd => hg d (List.mem_cons_of_mem _ hd)

theorem trimStart_eq_self {s : List Char} (h : ∀ c, s.head? = some c → isBlank c = false) :
    trimStart s = s := by
  cases s with
  | nil => rfl
  | cons c rest => simp [trimStart, h c rfl]

theorem trimEnd_append_blanks (s : List Char) {g : List Char} (hg : ∀ c ∈ g, isBlank c = true) :
    trimEnd (s ++ g) = trimEnd s := by
  have hstart := trimStart_blanks_append (g := g.reverse)
    (fun c hc => hg c (List.mem_reverse.mp hc)) s.reverse
  rw [trimEnd, trimEnd, List.reverse_append]
  exact congrArg List.reverse hstart

/-- What starts with a character that is no blank keeps all that is behind it. -/
theorem trimStart_append {s : List Char} (h : ∃ c ∈ s, isBlank c = false) (t : List Char) :
    trimStart (s ++ t) = trimStart s ++ t := by
  have hleft : (s.dropWhile isBlank).isEmpty = false := by
    simpa [List.isEmpty_eq_false_iff] using h
  rw [trimStart, List.dropWhile_append, if_neg (by simp [hleft]), trimStart]

/-- Blanks alone leave nothing. -/
theorem trim_of_blanks {s : List Char} (h : ∀ c ∈ s, isBlank c = true) : trim s = [] := by
  have hstart : trimStart s = [] := by simpa [trimStart] using h
  rw [trim, hstart]
  rfl

/-- Blanks around a text do not count. -/
theorem trim_surrounded {g t : List Char} (hg : ∀ c ∈ g, isBlank c = true)
    (ht : ∀ c ∈ t, isBlank c = true) (s : List Char) : trim (g ++ s ++ t) = trim s := by
  rw [trim, List.append_assoc, trimStart_blanks_append hg]
  by_cases hs : ∃ c ∈ s, isBlank c = false
  · -- The blanks behind stay behind what is left of the text.
    rw [trimStart_append hs, trimEnd_append_blanks _ ht, trim]
  · have hall : ∀ c ∈ s, isBlank c = true := by simpa using hs
    have hboth : ∀ c ∈ s ++ t, isBlank c = true := by
      intro c hc
      exact (List.mem_append.mp hc).elim (hall c) (ht c)
    calc trimEnd (trimStart (s ++ t))
        = [] := trim_of_blanks hboth
      _ = trim s := (trim_of_blanks hall).symm

theorem trim_trim (s : List Char) : trim (trim s) = trim s := by
  obtain ⟨before, hb, hbefore⟩ := exists_trimStart_eq s
  obtain ⟨after, ha, hafter⟩ := exists_trimEnd_eq (trimStart s)
  have hs : before ++ trim s ++ after = s := by
    rw [List.append_assoc, trim, hafter, hbefore]
  rw [← trim_surrounded hb ha (trim s), hs]

/-- A trimmed text starts with no blank. -/
theorem isBlank_head_of_trim {s : List Char} (h : trim s = s) {c : Char}
    (hc : s.head? = some c) : isBlank c = false := by
  obtain ⟨g, -, hg⟩ := exists_trimEnd_eq (trimStart s)
  have hhead : (trimStart s).head? = some c := by
    have hs : trimEnd (trimStart s) = s := h
    rw [← hg, hs]
    cases s with
    | nil => cases hc
    | cons d s => simpa using hc
  exact head?_trimStart s c hhead

theorem trimEnd_append {t : List Char} (h : ∃ c ∈ t, isBlank c = false) (s : List Char) :
    trimEnd (s ++ t) = s ++ trimEnd t := by
  have hreverse : ∃ c ∈ t.reverse, isBlank c = false := by simpa using h
  calc trimEnd (s ++ t)
      = (trimStart (t.reverse ++ s.reverse)).reverse := by rw [← List.reverse_append]; rfl
    _ = (trimStart t.reverse ++ s.reverse).reverse := by rw [trimStart_append hreverse]
    _ = s ++ trimEnd t := by rw [List.reverse_append, List.reverse_reverse]; rfl

/-- Around a character that is no blank each end is trimmed by itself. -/
theorem trim_append_cons {c : Char} (hc : isBlank c = false) (s t : List Char) :
    trim (s ++ c :: t) = trimStart s ++ c :: trimEnd t := by
  have hstart : trimStart (s ++ c :: t) = trimStart s ++ c :: t := by
    by_cases hs : ∃ d ∈ s, isBlank d = false
    · exact trimStart_append hs _
    · have hblank : ∀ d ∈ s, isBlank d = true := by simpa using hs
      have hnone : trimStart s = [] := by simpa [trimStart] using hblank
      rw [trimStart_blanks_append hblank, hnone, List.nil_append]
      exact trimStart_eq_self (by simpa using hc)
  have hend : trimEnd (c :: t) = c :: trimEnd t := by
    by_cases ht : ∃ d ∈ t, isBlank d = false
    · exact trimEnd_append ht [c]
    · have hblank : ∀ d ∈ t, isBlank d = true := by simpa using ht
      have hfirst := trimEnd_append_blanks [c] hblank
      have hrest := trimEnd_append_blanks [] hblank
      rw [List.nil_append] at hrest
      rw [List.singleton_append] at hfirst
      rw [hfirst, hrest]
      simp [trimEnd, hc]
  rw [trim, hstart, trimEnd_append ⟨c, List.mem_cons_self, hc⟩, hend]

/-- Blanks at the end hide no first character. -/
theorem head?_trim (s : List Char) : (trim s).head? = (trimStart s).head? := by
  rw [trim]
  cases hs : trimStart s with
  | nil => rfl
  | cons c t =>
      have hc : isBlank c = false := head?_trimStart s c (by rw [hs]; rfl)
      have hself : trimStart (c :: t) = c :: t := trimStart_eq_self (by simpa using hc)
      have htrim := trim_append_cons hc [] t
      rw [List.nil_append, trim, hself] at htrim
      rw [htrim]
      rfl

theorem exists_head?_trimStart {s : List Char} (h : ∃ c ∈ s, isBlank c = false) :
    ∃ c, (trimStart s).head? = some c := by
  rw [← Option.isSome_iff_exists, List.isSome_head?]
  simpa [trimStart] using h

theorem head?_trimStart_append {s : List Char} (h : ∃ c ∈ s, isBlank c = false) (t : List Char) :
    (trimStart (s ++ t)).head? = (trimStart s).head? := by
  obtain ⟨c, hc⟩ := exists_head?_trimStart h
  rw [trimStart_append h, List.head?_append, hc]
  rfl

theorem exists_dark_of_head?_trimStart {s : List Char} {c : Char}
    (h : (trimStart s).head? = some c) : ∃ d ∈ s, isBlank d = false := by
  by_contra hnone
  have hblank : ∀ d ∈ s, isBlank d = true := by simpa using hnone
  have hstart : trimStart s = [] := by simpa [trimStart] using hblank
  simp [hstart] at h

/-- Only blanks stand between a text trimmed at its end and one trimmed at both. -/
theorem exists_trimEnd_eq_append (s : List Char) :
    ∃ g, (∀ c ∈ g, isBlank c = true) ∧ trimEnd s = g ++ trim s := by
  obtain ⟨g, hg, hs⟩ := exists_trimStart_eq s
  by_cases hdark : ∃ c ∈ trimStart s, isBlank c = false
  · exact ⟨g, hg, by rw [trim, ← trimEnd_append hdark, hs]⟩
  · have hblank : ∀ c ∈ trimStart s, isBlank c = true := by simpa using hdark
    have hend := trimEnd_append_blanks g hblank
    obtain ⟨g', -, hg'⟩ := exists_trimEnd_eq g
    refine ⟨trimEnd g, fun c hc => hg c ?_, ?_⟩
    · rw [← hg']
      exact List.mem_append_left _ hc
    · have hnone := trimEnd_append_blanks [] hblank
      rw [List.nil_append] at hnone
      rw [hs] at hend
      rw [hend, trim, hnone]
      simp [trimEnd]

/-- A text without blanks at its ends stays as it is. -/
theorem trim_eq_self {s : List Char} (hfirst : ∀ c, s.head? = some c → isBlank c = false)
    (hlast : ∀ c, s.getLast? = some c → isBlank c = false) : trim s = s := by
  have hreverse : trimStart s.reverse = s.reverse := by
    refine trimStart_eq_self fun c hc => hlast c ?_
    rwa [List.head?_reverse] at hc
  rw [trim, trimStart_eq_self hfirst, trimEnd]
  exact (congrArg List.reverse hreverse).trans (List.reverse_reverse s)

/-- A trimmed text ends with no blank. -/
theorem isBlank_getLast_of_trim {s : List Char} (h : trim s = s) {c : Char}
    (hc : s.getLast? = some c) : isBlank c = false := by
  rw [← h] at hc
  exact getLast?_trimEnd _ c hc

/-! ## Lines -/

/-- A text without a line feed is one line. -/
theorem lines_of_not_mem {s : List Char} (hs : s ≠ []) (h : '\n' ∉ s) : lines s = [s] := by
  induction s with
  | nil => exact absurd rfl hs
  | cons c s ih =>
      have hc : c ≠ '\n' := fun e => h (e ▸ List.mem_cons_self)
      have hs' : '\n' ∉ s := fun hmem => h (List.mem_cons_of_mem c hmem)
      have hreturn : ∀ rest, c = '\r' → s = '\n' :: rest → False := by
        rintro rest - rfl
        exact hs' List.mem_cons_self
      rw [lines.eq_4 c s hc hreturn]
      cases s with
      | nil => rfl
      | cons d s => rw [ih (by simp) hs', consFirst]

/-- A line feed ends the first line. -/
theorem exists_lines_append_newline {s : List Char} (h : '\n' ∉ s) (rest : List Char) :
    ∃ line, lines (s ++ '\n' :: rest) = line :: lines rest ∧ trim line = trim s := by
  suffices hstrong : ∃ line, lines (s ++ '\n' :: rest) = line :: lines rest ∧
      (line = s ∨ s = line ++ ['\r']) by
    obtain ⟨line, hline, hs⟩ := hstrong
    refine ⟨line, hline, ?_⟩
    rcases hs with rfl | rfl
    · rfl
    · exact (trim_surrounded (g := []) (by simp) (by simpa using (by decide)) line).symm
  induction s with
  | nil => exact ⟨[], by rw [List.nil_append, lines], .inl rfl⟩
  | cons c s ih =>
      have hc : c ≠ '\n' := fun e => h (e ▸ List.mem_cons_self)
      have hs : '\n' ∉ s := fun hmem => h (List.mem_cons_of_mem c hmem)
      by_cases hreturn : c = '\r' ∧ s = []
      · obtain ⟨rfl, rfl⟩ := hreturn
        exact ⟨[], by rw [List.cons_append, List.nil_append, lines], .inr rfl⟩
      · -- Any other character stands in the line.
        obtain ⟨line, hline, heither⟩ := ih hs
        refine ⟨c :: line, ?_, heither.imp (congrArg (c :: ·)) (congrArg (c :: ·))⟩
        rw [List.cons_append, lines.eq_4 c _ hc, hline, consFirst]
        rintro rest' rfl hnewline
        cases s with
        | nil => exact hreturn ⟨rfl, rfl⟩
        | cons d s =>
            rw [List.cons_append] at hnewline
            exact hs (by simp [(List.cons.inj hnewline).1])

/-- A character that ends no line stands in the same line as what is before it. -/
theorem lines_append_cons {s : List Char} (h : '\n' ∉ s) {c : Char} (hnewline : c ≠ '\n')
    (hreturn : c ≠ '\r') (rest : List Char) :
    lines (s ++ c :: rest) =
      (s ++ c :: (lines rest).head?.getD []) :: (lines rest).tail := by
  induction s with
  | nil =>
      rw [List.nil_append, lines.eq_4 c rest hnewline fun _ hc => absurd hc hreturn]
      cases lines rest <;> rfl
  | cons d s ih =>
      have hd : d ≠ '\n' := fun e => h (e ▸ List.mem_cons_self)
      have hs : '\n' ∉ s := fun hmem => h (List.mem_cons_of_mem d hmem)
      rw [List.cons_append, lines.eq_4 d _ hd, ih hs, consFirst, List.cons_append]
      rintro rest' rfl heq
      cases s with
      | nil => exact hnewline (List.cons.inj heq).1
      | cons e s => exact hs (by simp [(List.cons.inj heq).1])

/-- A text is one line, or a line in front of the rest. -/
theorem lines_cases (s : List Char) :
    '\n' ∉ s ∨ ∃ first rest, s = first ++ '\n' :: rest ∧ '\n' ∉ first := by
  by_cases h : '\n' ∈ s
  · exact .inr (List.eq_append_cons_of_mem h)
  · exact .inl h

/-- The first line starts the text. -/
theorem prefix_of_head?_lines {s first : List Char} (h : (lines s).head? = some first) :
    first <+: s := by
  fun_induction lines s generalizing first with
  | case1 => cases h
  | case2 rest ih => simp [← Option.some.inj h]
  | case3 rest ih => simp [← Option.some.inj h]
  | case4 c rest hnewline hreturn ih =>
      cases hrest : lines rest with
      | nil =>
          rw [hrest, consFirst] at h
          simp [← Option.some.inj h]
      | cons first' others =>
          rw [hrest, consFirst] at h
          rw [← Option.some.inj h]
          exact List.prefix_cons_inj c |>.mpr (ih (by rw [hrest]; rfl))

/-- The lines stand in the text. -/
theorem infix_of_mem_lines {s line : List Char} (h : line ∈ lines s) : line <:+: s := by
  fun_induction lines s with
  | case1 => cases h
  | case2 rest ih =>
      rcases List.mem_cons.mp h with rfl | h
      · exact List.nil_infix
      · exact (ih h).trans (List.suffix_cons _ _).isInfix
  | case3 rest ih =>
      rcases List.mem_cons.mp h with rfl | h
      · exact List.nil_infix
      · exact (ih h).trans ⟨['\r', '\n'], [], by simp⟩
  | case4 c rest hnewline hreturn ih =>
      have hfirst : ∀ first, (lines (c :: rest)).head? = some first → first <+: c :: rest :=
        fun first hfirst => prefix_of_head?_lines hfirst
      rw [lines.eq_4 c rest hnewline hreturn] at hfirst
      cases hrest : lines rest with
      | nil =>
          rw [hrest] at h hfirst
          rw [List.mem_singleton.mp h]
          exact (hfirst [c] rfl).isInfix
      | cons first others =>
          rw [hrest] at h hfirst ih
          rcases List.mem_cons.mp h with rfl | h
          · exact (hfirst _ rfl).isInfix
          · exact (ih (List.mem_cons_of_mem _ h)).trans (List.suffix_cons _ _).isInfix

/-! ## Joining -/

theorem mem_join {c : Char} {separator : List Char} {pieces : List (List Char)}
    (h : c ∈ join separator pieces) : c ∈ separator ∨ ∃ piece ∈ pieces, c ∈ piece := by
  induction pieces with
  | nil => cases h
  | cons piece pieces ih =>
      cases pieces with
      | nil => exact .inr ⟨piece, List.mem_cons_self, h⟩
      | cons next pieces =>
          rw [join_cons_cons _ _ (by simp), List.mem_append, List.mem_append] at h
          rcases h with (h | h) | h
          · exact .inr ⟨piece, List.mem_cons_self, h⟩
          · exact .inl h
          · refine (ih h).imp_right ?_
            rintro ⟨other, hother, hc⟩
            exact ⟨other, List.mem_cons_of_mem _ hother, hc⟩

/-- The joined text starts as its first piece does. -/
theorem head?_join (separator : List Char) {piece : List Char} (pieces : List (List Char))
    (h : piece ≠ []) : (join separator (piece :: pieces)).head? = piece.head? := by
  cases pieces with
  | nil => rfl
  | cons next pieces =>
      obtain ⟨c, piece, rfl⟩ := List.exists_cons_of_ne_nil h
      rfl

/-- The joined text ends as its last piece does. -/
theorem getLast?_join (separator : List Char) {pieces : List (List Char)}
    (h : ∀ piece ∈ pieces, piece ≠ []) :
    (join separator pieces).getLast? = pieces.getLast?.bind List.getLast? := by
  induction pieces with
  | nil => rfl
  | cons piece pieces ih =>
      cases pieces with
      | nil => rfl
      | cons next pieces =>
          have hlast : (join separator (next :: pieces)).getLast? =
              (next :: pieces).getLast?.bind List.getLast? :=
            ih fun other hother => h other (List.mem_cons_of_mem _ hother)
          rw [join_cons_cons _ _ (by simp), List.getLast?_append, hlast, List.getLast?_cons_cons]
          -- The last piece has a last character, so the pieces before it do not count.
          obtain ⟨last, hmem⟩ : ∃ last, (next :: pieces).getLast? = some last :=
            ⟨_, List.getLast?_eq_some_getLast (by simp)⟩
          have hne : last ≠ [] :=
            h last (List.mem_cons_of_mem _ (List.mem_of_getLast? hmem))
          simp [hmem, List.getLast?_eq_some_getLast hne]

/-! ## Containing -/

/-- Two characters in a row stand in one of two texts, or the texts meet between them. -/
theorem pair_infix_append {a b : Char} {s t : List Char} (h : [a, b] <:+: s ++ t) :
    [a, b] <:+: s ∨ [a, b] <:+: t ∨ s.getLast? = some a ∧ t.head? = some b := by
  induction s with
  | nil => exact .inr (.inl h)
  | cons c s ih =>
      rw [List.cons_append, List.infix_cons_iff] at h
      rcases h with hstart | hinside
      · obtain ⟨rfl, hsecond⟩ := List.cons_prefix_cons.mp hstart
        cases s with
        | nil =>
            obtain ⟨rest, hrest⟩ := hsecond
            refine .inr (.inr ⟨rfl, ?_⟩)
            rw [List.nil_append] at hrest
            rw [← hrest]
            rfl
        | cons d s =>
            obtain ⟨rfl, -⟩ := List.cons_prefix_cons.mp hsecond
            exact .inl ⟨[], s, rfl⟩
      · rcases ih hinside with hs | ht | ⟨hlast, hhead⟩
        · exact .inl (hs.trans (List.suffix_cons c s).isInfix)
        · exact .inr (.inl ht)
        · refine .inr (.inr ⟨?_, hhead⟩)
          rw [List.getLast?_cons, hlast]
          rfl

/-- Two characters in a row stand on one side of a blank. -/
theorem pair_infix_joined {a b : Char} (ha : a ≠ ' ') (hb : b ≠ ' ') {s t : List Char}
    (h : [a, b] <:+: s ++ ' ' :: t) : [a, b] <:+: s ∨ [a, b] <:+: t := by
  rcases pair_infix_append h with hs | ht | ⟨-, hhead⟩
  · exact .inl hs
  · rcases List.infix_cons_iff.mp ht with hstart | hinside
    · exact absurd (List.cons_prefix_cons.mp hstart).1 ha
    · exact .inr hinside
  · exact absurd (Option.some.inj hhead).symm hb

/-- A text contains another one that stands in it. -/
theorem containsText_iff (needle s : List Char) : containsText needle s = true ↔ needle <:+: s := by
  induction s with
  | nil => cases needle <;> simp [containsText, indexOf?]
  | cons c rest ih =>
      rw [List.infix_cons_iff, ← ih, containsText, indexOf?]
      by_cases h : needle.isPrefixOf (c :: rest) = true
      · simp [List.isPrefixOf_iff_prefix.mp h, h]
      · have hnot : ¬ needle <+: c :: rest := fun hp => h (List.isPrefixOf_iff_prefix.mpr hp)
        simp [h, hnot, containsText]

/-- Where a text is found in another one, it stands nowhere before. -/
theorem not_prefix_of_lt_indexOf? {needle s : List Char} {k : Nat} (h : indexOf? needle s = some k)
    {j : Nat} (hj : j < k) : ¬ needle <+: s.drop j := by
  induction s generalizing k j with
  | nil =>
      cases needle with
      | nil =>
          cases h
          exact absurd hj (Nat.not_lt_zero j)
      | cons => cases h
  | cons c rest ih =>
      rw [indexOf?] at h
      split at h
      · cases h
        exact absurd hj (Nat.not_lt_zero j)
      · rename_i hstart
        obtain ⟨k, hk, rfl⟩ := Option.map_eq_some_iff.mp h
        cases j with
        | zero => exact fun hp => hstart (List.isPrefixOf_iff_prefix.mpr hp)
        | succ j => exact ih hk (Nat.lt_of_succ_lt_succ hj)

end Text

end ScriptTree
