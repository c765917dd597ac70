import Mathlib
import ScriptTree.Proofs.Expr.Brackets
import ScriptTree.Proofs.Script.Stability

/-!
# Statements between separators

A text of statements with blanks, line feeds and semicolons between them is split into these
statements (`split_joined`). What a statement has to be for that is `Whole`: it is one line, its
quotes and brackets are closed, and it does not start with `#`. The front of a text up to a line
feed or a semicolon behind a whole statement is split by itself (`split_newline`,
`split_semicolon`), since the scan of the rest goes on behind it as it goes from the start
(`Splitter.Behind`). Each text with an expression is whole, so no statement that the language knows
is cut, joined with its neighbour or dropped (`statements_joined`).
-/

set_option autoImplicit false

namespace ScriptTree

namespace Script

/-! ## Scans that go on behind statements -/

/-- The first scan is the second one behind statements that have ended, with blanks before the
statement under way. -/
structure Splitter.Behind (before : List (List Char)) (s s' : Splitter) : Prop where
  ended : s.ended = s'.ended ++ before
  current : ∃ g, (∀ c ∈ g, Text.isBlank c = true) ∧ s.current = s'.current ++ g
  nesting : s.nesting = s'.nesting

namespace Splitter.Behind

variable {before : List (List Char)} {s s' : Splitter}

theorem push (h : Behind before s s') (c : Char) : Behind before (s.push c) (s'.push c) := by
  obtain ⟨g, hg, hcurrent⟩ := h.current
  exact ⟨h.ended, ⟨g, hg, by simp [Splitter.push, hcurrent]⟩, h.nesting⟩

theorem with_nesting (h : Behind before s s') (n : Nesting) :
    Behind before { s with nesting := n } { s' with nesting := n } :=
  ⟨h.ended, h.current, rfl⟩

/-- The blanks are trimmed where the statement ends. -/
theorem flush (h : Behind before s s') : Behind before s.flush s'.flush := by
  obtain ⟨g, hg, hcurrent⟩ := h.current
  have htrim : Text.trim s.current.reverse = Text.trim s'.current.reverse := by
    have hsame := Text.trim_surrounded (g := g.reverse) (t := []) (by simpa using hg) (by simp)
      s'.current.reverse
    simpa [hcurrent] using hsame
  refine ⟨?_, ⟨[], by simp, by simp⟩, h.nesting⟩
  simp only [Splitter.flush, htrim, h.ended]
  split <;> simp

theorem outside (h : Behind before s s') (c : Char) :
    Behind before (s.outside c) (s'.outside c) := by
  simp only [Splitter.outside, h.nesting]
  repeat' split
  · exact (h.push c).with_nesting _
  · exact (h.push c).with_nesting _
  · exact (h.push c).with_nesting _
  · exact h.flush
  · exact h.push c

theorem inside (h : Behind before s s') (q c : Char) :
    Behind before (s.inside q c) (s'.inside q c) := by
  simp only [Splitter.inside, h.nesting]
  split
  · exact (h.push c).with_nesting _
  · exact h.push c

theorem scan (h : Behind before s s') (cs : List Char) :
    Behind before (s.scan cs) (s'.scan cs) := by
  fun_induction Splitter.scan s cs generalizing s' with
  | case1 s => exact h
  | case2 s c rest hquote ih =>
      rw [h.nesting] at hquote
      rw [Splitter.scan.eq_def s']
      simp only [hquote]
      exact ih (h.outside c)
  | case3 s c q hquote hback =>
      rw [h.nesting] at hquote
      rw [Splitter.scan.eq_def s']
      simp only [hquote, hback, if_true]
      exact h.push c
  | case4 s c q hquote hback e rest ih =>
      rw [h.nesting] at hquote
      rw [Splitter.scan.eq_def s']
      simp only [hquote, hback, if_true]
      exact ih ((h.push c).push e)
  | case5 s c rest q hquote hback ih =>
      rw [h.nesting] at hquote
      rw [Splitter.scan.eq_def s']
      simp only [hquote, hback, Bool.false_eq_true, if_false]
      exact ih (h.inside q c)

/-- At the end of a line the statement under way goes on or ends in both. -/
theorem close (h : Behind before s s') :
    Behind before (if s.nesting.isOpen then s else s.flush)
      (if s'.nesting.isOpen then s' else s'.flush) := by
  rw [h.nesting]
  split
  · exact h
  · exact h.flush

theorem line (h : Behind before s s') (raw : List Char) :
    Behind before (s.line raw) (s'.line raw) := by
  simp only [Splitter.line, h.nesting]
  split
  · exact ((h.push ' ').scan (Text.trim raw)).close
  · split
    · exact h
    · exact (h.scan (Text.trim raw)).close

theorem lines (h : Behind before s s') (raws : List (List Char)) :
    Behind before (raws.foldl Splitter.line s) (raws.foldl Splitter.line s') := by
  induction raws generalizing s s' with
  | nil => exact h
  | cons raw raws ih => exact ih (h.line raw)

/-- The statements of both, at the end. -/
theorem statements (h : Behind before s s') :
    s.flush.ended.reverse = before.reverse ++ s'.flush.ended.reverse := by
  rw [h.flush.ended, List.reverse_append]

end Splitter.Behind

/-! ## The front of a text -/

/-- A part of one line that closes what it opens and does not read as a comment. -/
structure Closed (s : List Char) : Prop where
  line : '\n' ∉ s
  walk : (Standing.outside 0).walk s = some (.outside 0)
  kept : (Text.trimStart s).head? ≠ some '#'

/-- A statement on one line. -/
structure Whole (s : List Char) : Prop extends Closed s where
  dark : ∃ c ∈ s, Text.isBlank c = false

variable {s rest : List Char}

theorem Closed.nil : Closed [] := ⟨by simp, rfl, by simp [Text.trimStart]⟩

/-- Blanks behind a statement. -/
theorem Whole.append_blanks {g : List Char} (h : Whole s) (hg : ∀ c ∈ g, Text.isBlank c = true)
    (hline : '\n' ∉ g) : Whole (s ++ g) where
  line := by simp [h.line, hline]
  walk := by rw [Standing.walk_append, h.walk]; exact Standing.walk_outside_blanks 0 hg
  kept := by rw [Text.head?_trimStart_append h.dark]; exact h.kept
  dark := by
    obtain ⟨c, hc, hdark⟩ := h.dark
    exact ⟨c, List.mem_append_left g hc, hdark⟩

theorem Closed.walk_trimStart (h : Closed s) :
    (Standing.outside 0).walk (Text.trimStart s) = some (.outside 0) := by
  obtain ⟨g, hg, hs⟩ := Text.exists_trimStart_eq s
  have hwalk := h.walk
  rwa [← hs, Standing.walk_append, Standing.walk_outside_blanks 0 hg] at hwalk

/-- Its trimmed text is its only statement. -/
theorem Closed.split_eq (h : Closed s) :
    split s = if Text.trim s = [] then [] else [Text.trim s] := by
  rw [← split_trim]
  rcases stands_trim h.walk with hempty | ⟨p, hstands, -⟩
  · rw [hempty]
    rfl
  · have hline : '\n' ∉ Text.trim s := fun hmem => h.line ((Text.trim_infix s).subset hmem)
    have hkept : isComment (Text.trim s) = false := by
      simpa [isComment, Text.head?_trim] using h.kept
    rw [split_of_stands hstands hline, hkept, if_neg hstands.nonempty]
    rfl

theorem Whole.split_eq (h : Whole s) : split s = [Text.trim s] := by
  have hne : Text.trim s ≠ [] := by
    obtain ⟨c, hc⟩ := Text.exists_head?_trimStart h.dark
    rw [← Text.head?_trim] at hc
    rintro hempty
    simp [hempty] at hc
  rw [h.toClosed.split_eq, if_neg hne]

/-- The first line of a script, unless it is a comment. -/
theorem Splitter.start_line {raw : List Char} (hkept : (Text.trimStart raw).head? ≠ some '#') :
    Splitter.start.line raw =
      if (Splitter.start.scan (Text.trim raw)).nesting.isOpen
        then Splitter.start.scan (Text.trim raw)
        else (Splitter.start.scan (Text.trim raw)).flush := by
  rw [← Text.head?_trim] at hkept
  rw [Splitter.line, if_neg (by decide)]
  by_cases hempty : Text.trim raw = []
  · rw [hempty]
    rfl
  · rw [if_neg (by simp [hempty, hkept])]

/-- Where the front ends its statement, the scan starts again behind it. -/
theorem Closed.behind (h : Closed s) :
    Splitter.Behind (split s).reverse
      (Splitter.flush { Splitter.start with current := (Text.trimStart s).reverse })
      Splitter.start := by
  refine ⟨?_, ⟨[], by simp, rfl⟩, rfl⟩
  have htrim : Text.trim (Text.trimStart s).reverse.reverse = Text.trim s := by
    obtain ⟨g, hg, hs⟩ := Text.exists_trimStart_eq s
    have hsame := Text.trim_surrounded hg (t := []) (by simp) (Text.trimStart s)
    rw [List.append_nil, hs] at hsame
    rw [List.reverse_reverse, hsame]
  rw [h.split_eq]
  simp only [Splitter.flush, htrim]
  split <;> simp_all [Splitter.start]

/-- A line that goes on behind a semicolon. -/
theorem Closed.behind_semicolon (h : Closed s) {line : List Char}
    (hline : (Text.trimStart line).head? ≠ some '#') :
    Splitter.Behind (split s).reverse (Splitter.start.line (s ++ ';' :: line))
      (Splitter.start.line line) := by
  have htrim : Text.trim (s ++ ';' :: line) = Text.trimStart s ++ ';' :: Text.trimEnd line :=
    Text.trim_append_cons (by decide) s line
  have hkept : (Text.trimStart (s ++ ';' :: line)).head? ≠ some '#' := by
    have hhead := h.kept
    rw [← Text.head?_trim, htrim, List.head?_append]
    cases hfirst : (Text.trimStart s).head? with
    | none => simp
    | some c =>
        rw [hfirst] at hhead
        exact hhead
  have hscan : Splitter.start.scan (Text.trim (s ++ ';' :: line)) =
      (Splitter.flush { Splitter.start with current := (Text.trimStart s).reverse }).scan
        (Text.trimEnd line) := by
    have htaken := Splitter.scan_append_of_walk (p := .outside 0) trivial h.walk_trimStart
      (';' :: Text.trimEnd line) (.inl trivial) Splitter.start rfl
    rw [htrim, htaken, Splitter.scan_semicolon rfl]
    simp [Splitter.start]
  -- The blanks behind the semicolon come before the next statement.
  have hbehind : Splitter.Behind (split s).reverse
      (Splitter.start.scan (Text.trim (s ++ ';' :: line)))
      (Splitter.start.scan (Text.trim line)) := by
    obtain ⟨g, hg, hblanks⟩ := Text.exists_trimEnd_eq_append line
    have hwalk := Splitter.scan_append_of_walk (p := .outside 0) trivial
      (Standing.walk_outside_blanks 0 hg) (Text.trim line) (.inl trivial)
      (Splitter.flush { Splitter.start with current := (Text.trimStart s).reverse }) rfl
    rw [hscan, hblanks, hwalk]
    refine Splitter.Behind.scan ?_ _
    exact ⟨h.behind.ended, ⟨g.reverse, by simpa using hg, by simp [Splitter.start]⟩, rfl⟩
  rw [Splitter.start_line hkept, Splitter.start_line hline]
  exact hbehind.close

/-- The front of a text up to a semicolon is split by itself. -/
theorem split_semicolon (h : Closed s) (hrest : (Text.trimStart rest).head? ≠ some '#') :
    split (s ++ ';' :: rest) = split s ++ split rest := by
  have hfirst : (Text.trimStart ((Text.lines rest).head?.getD [])).head? ≠ some '#' := by
    intro hhead
    cases hlines : (Text.lines rest).head? with
    | none =>
        rw [hlines] at hhead
        cases hhead
    | some line =>
        -- The first line starts the text.
        rw [hlines, Option.getD_some] at hhead
        obtain ⟨after, rfl⟩ := Text.prefix_of_head?_lines hlines
        rw [Text.head?_trimStart_append (Text.exists_dark_of_head?_trimStart hhead)] at hrest
        exact hrest hhead
  have hsplit : split rest = (((Text.lines rest).tail).foldl Splitter.line
      (Splitter.start.line ((Text.lines rest).head?.getD []))).flush.ended.reverse := by
    rw [split]
    cases Text.lines rest <;> rfl
  rw [hsplit, split, Text.lines_append_cons h.line (by decide) (by decide), List.foldl_cons,
    ((h.behind_semicolon hfirst).lines _).statements, List.reverse_reverse]

/-- The front of a text up to a line feed is split by itself. -/
theorem split_newline (h : Closed s) (rest : List Char) :
    split (s ++ '\n' :: rest) = split s ++ split rest := by
  obtain ⟨line, hlines, htrim⟩ := Text.exists_lines_append_newline h.line rest
  have hline : (Text.trimStart line).head? ≠ some '#' := by
    rw [← Text.head?_trim, htrim, Text.head?_trim]
    exact h.kept
  have hbehind : Splitter.Behind (split s).reverse (Splitter.start.line line) Splitter.start := by
    rw [Splitter.start_line hline, htrim]
    rcases stands_trim h.walk with hempty | ⟨p, hstands, hnesting⟩
    · rw [h.split_eq, hempty]
      exact ⟨rfl, ⟨[], by simp, rfl⟩, rfl⟩
    · rw [h.split_eq, if_neg hstands.nonempty, Splitter.scan_stands hstands rfl, hnesting]
      refine ⟨?_, ⟨[], by simp, rfl⟩, rfl⟩
      exact Splitter.ended_flush (by simp [Splitter.start, hstands.trimmed]) hstands.nonempty
  rw [split, hlines, List.foldl_cons, (hbehind.lines _).statements, List.reverse_reverse, ← split]

/-! ## Gaps -/

/-- Blanks, line feeds among them, and semicolons. -/
def IsGap (gap : List Char) : Prop := ∀ c ∈ gap, Text.isBlank c = true ∨ c = ';'

instance (gap : List Char) : Decidable (IsGap gap) :=
  List.decidableBAll (fun c => Text.isBlank c = true ∨ c = ';') gap

/-- A character that ends a statement. -/
def isEnd (c : Char) : Bool := c == ';' || c == '\n'

/-- What follows a gap is no comment when it was none. -/
theorem IsGap.kept {gap : List Char} (h : IsGap gap)
    (hrest : (Text.trimStart rest).head? ≠ some '#') :
    (Text.trimStart (gap ++ rest)).head? ≠ some '#' := by
  induction gap with
  | nil => exact hrest
  | cons c gap ih =>
      rcases h c List.mem_cons_self with hblank | rfl
      · rw [List.cons_append, Text.trimStart, List.dropWhile_cons_of_pos hblank]
        exact ih fun d hd => h d (List.mem_cons_of_mem c hd)
      · rw [List.cons_append, Text.trimStart_eq_self (by simpa using (by decide))]
        simp

/-- A gap holds no statement. -/
theorem IsGap.split_append {gap : List Char} (h : IsGap gap)
    (hrest : (Text.trimStart rest).head? ≠ some '#') : split (gap ++ rest) = split rest := by
  induction gap with
  | nil => rfl
  | cons c gap ih =>
      have hgap : IsGap gap := fun d hd => h d (List.mem_cons_of_mem c hd)
      rcases h c List.mem_cons_self with hblank | rfl
      · rw [List.cons_append, split_blank_cons hblank, ih hgap]
      · have hsplit := split_semicolon Closed.nil (hgap.kept hrest)
        rw [List.nil_append] at hsplit
        rw [List.cons_append, hsplit, ih hgap]
        rfl

/-- A statement in front of a gap that ends it. -/
theorem Whole.split_append (h : Whole s) {gap : List Char} (hgap : IsGap gap)
    (hend : gap.any isEnd = true) (hrest : (Text.trimStart rest).head? ≠ some '#') :
    split (s ++ (gap ++ rest)) = Text.trim s :: split (gap ++ rest) := by
  -- Up to the first character that ends it only blanks follow the statement.
  obtain ⟨c, gap', hdrop⟩ : ∃ c gap', gap.dropWhile (!isEnd ·) = c :: gap' := by
    refine List.exists_cons_of_ne_nil ?_
    simpa using hend
  generalize hg : gap.takeWhile (!isEnd ·) = g
  have hsplit : gap = g ++ c :: gap' := by
    rw [← hg, ← hdrop, List.takeWhile_append_dropWhile]
  have hblank : ∀ d ∈ g, Text.isBlank d = true ∧ isEnd d = false := by
    intro d hd
    have hnot : isEnd d = false := by
      have hkept := List.mem_takeWhile_imp (p := (!isEnd ·)) (hg ▸ hd)
      simpa using hkept
    refine ⟨(hgap d ?_).resolve_right ?_, hnot⟩
    · rw [hsplit]
      exact List.mem_append_left _ hd
    · rintro rfl
      cases hnot
  have hline : '\n' ∉ g := by
    intro hmem
    cases (hblank _ hmem).2
  have hc : c = ';' ∨ c = '\n' := by
    have hhead := List.head?_dropWhile_not (!isEnd ·) gap
    rw [hdrop] at hhead
    simp only [List.head?_cons, isEnd, Bool.not_eq_false', Bool.or_eq_true, beq_iff_eq] at hhead
    exact hhead
  have hgap' : IsGap gap' := fun d hd => hgap d (by simp [hsplit, hd])
  have hwhole : Whole (s ++ g) := h.append_blanks (fun d hd => (hblank d hd).1) hline
  have htrim : Text.trim (s ++ g) = Text.trim s := by
    have hsame := Text.trim_surrounded (g := []) (by simp) (fun d hd => (hblank d hd).1) s
    rwa [List.nil_append] at hsame
  have htext : s ++ (gap ++ rest) = (s ++ g) ++ c :: (gap' ++ rest) := by
    rw [hsplit]
    simp
  have hfront : split (s ++ (gap ++ rest)) = split (s ++ g) ++ split (gap' ++ rest) := by
    rw [htext]
    rcases hc with rfl | rfl
    · exact split_semicolon hwhole.toClosed (hgap'.kept hrest)
    · exact split_newline hwhole.toClosed _
  rw [hfront, hwhole.split_eq, htrim, hgap.split_append hrest, hgap'.split_append hrest]
  rfl

/-- The last statement, with whatever gap behind it. -/
theorem Whole.split_last (h : Whole s) {gap : List Char} (hgap : IsGap gap) :
    split (s ++ gap) = [Text.trim s] := by
  have hnothing : (Text.trimStart []).head? ≠ some '#' := by simp [Text.trimStart]
  by_cases hend : gap.any isEnd = true
  · have hsplit := h.split_append hgap hend hnothing
    have hnone := hgap.split_append hnothing
    rw [List.append_nil] at hsplit hnone
    rw [hsplit, hnone]
    rfl
  · -- Without an end there are only blanks.
    have hnot : ∀ c ∈ gap, isEnd c = false := by simpa using hend
    have hblank : ∀ c ∈ gap, Text.isBlank c = true := by
      intro c hc
      refine (hgap c hc).resolve_right ?_
      rintro rfl
      cases hnot _ hc
    have hwhole := h.append_blanks hblank fun hmem => by cases hnot _ hmem
    have hsame := Text.trim_surrounded (g := []) (by simp) hblank s
    rw [List.nil_append] at hsame
    rw [hwhole.split_eq, hsame]

/-! ## Statements with gaps between them -/

/-- The text of statements with a gap behind each, behind a first gap. -/
def joined (gap : String) : List (String × String) → String
  | [] => gap
  | piece :: pieces => gap ++ piece.1 ++ joined piece.2 pieces

/-- The statements of such a text are those that it was made of. -/
theorem split_joined {pieces : List (String × String)} {gap : String} (hgap : IsGap gap.toList)
    (hwhole : ∀ piece ∈ pieces, Whole piece.1.toList)
    (hgaps : ∀ piece ∈ pieces, IsGap piece.2.toList)
    (hends : ∀ piece ∈ pieces.dropLast, piece.2.toList.any isEnd = true) :
    split (joined gap pieces).toList = pieces.map fun piece => Text.trim piece.1.toList := by
  induction pieces generalizing gap with
  | nil =>
      have hnothing : (Text.trimStart []).head? ≠ some '#' := by simp [Text.trimStart]
      have hnone := hgap.split_append hnothing
      rw [List.append_nil] at hnone
      exact hnone
  | cons piece pieces ih =>
      obtain ⟨s, gap'⟩ := piece
      have hs : Whole s.toList := hwhole _ List.mem_cons_self
      have hgap' : IsGap gap'.toList := hgaps _ List.mem_cons_self
      have hrest := ih hgap' (fun p hp => hwhole p (List.mem_cons_of_mem _ hp))
        (fun p hp => hgaps p (List.mem_cons_of_mem _ hp))
      have hkept : ∀ t, (Text.trimStart (s.toList ++ t)).head? ≠ some '#' := by
        intro t
        rw [Text.head?_trimStart_append hs.dark]
        exact hs.kept
      have htext : (joined gap ((s, gap') :: pieces)).toList =
          gap.toList ++ (s.toList ++ (joined gap' pieces).toList) := by
        simp [joined]
      rw [htext, hgap.split_append (hkept _), List.map_cons]
      cases pieces with
      | nil => exact hs.split_last hgap'
      | cons next pieces =>
          have hnext := hwhole next (by simp)
          have hafter : (joined gap' (next :: pieces)).toList =
              gap'.toList ++ (next.1.toList ++ (joined next.2 pieces).toList) := by
            simp [joined]
          rw [hafter] at hrest ⊢
          rw [hs.split_append hgap' (hends (s, gap') (by simp)) ?_,
            hrest (fun p hp => hends p (by simpa using .inr hp))]
          rw [Text.head?_trimStart_append hnext.dark]
          exact hnext.kept

/-- A statement of the language of expressions is whole. -/
theorem whole_of_parse {text : String} {e : Expr} (h : Expr.parse text = .ok e)
    (hline : '\n' ∉ text.toList) : Whole text.toList := by
  obtain ⟨c, hc, hne⟩ := Expr.head_of_parse h
  refine ⟨⟨hline, Expr.walk_of_parse h, ?_⟩, Text.exists_dark_of_head?_trimStart hc⟩
  rw [hc]
  simpa using hne

/-- A statement of the language of expressions on one line, without blanks around it, is a script of
one statement. -/
theorem statements_of_line {text : String} {e : Expr} (h : Expr.parse text = .ok e)
    (hline : '\n' ∉ text.toList) (htrim : Text.trim text.toList = text.toList) :
    statements text = [text] := by
  rw [statements, (whole_of_parse h hline).split_eq, htrim, List.map_singleton,
    String.ofList_toList]

/-- A statement of the language of expressions without blanks is a script of one statement. -/
theorem statements_of_parse {text : String} {e : Expr} (h : Expr.parse text = .ok e)
    (hdark : ∀ c ∈ text.toList, Text.isBlank c = false) : statements text = [text] := by
  refine statements_of_line h (fun hline => absurd (hdark _ hline) (by decide)) ?_
  exact Text.trim_eq_self (fun c hc => hdark c (List.mem_of_head? hc))
    (fun c hc => hdark c (List.mem_of_getLast? hc))

/-- Statements that the language of expressions knows, each on one line, with gaps of blanks,
line feeds and semicolons between them that have at least one line feed or semicolon: the text is
split into exactly these statements, in order and without the blanks around them. -/
theorem statements_joined {pieces : List (String × String)} {gap : String}
    (hgap : IsGap gap.toList)
    (hparse : ∀ piece ∈ pieces, ∃ e, Expr.parse piece.1 = .ok e)
    (hlines : ∀ piece ∈ pieces, '\n' ∉ piece.1.toList)
    (hgaps : ∀ piece ∈ pieces, IsGap piece.2.toList)
    (hends : ∀ piece ∈ pieces.dropLast, piece.2.toList.any isEnd = true) :
    statements (joined gap pieces) = pieces.map fun piece => Text.trimmed piece.1 := by
  have hwhole : ∀ piece ∈ pieces, Whole piece.1.toList := by
    intro piece hpiece
    obtain ⟨e, he⟩ := hparse piece hpiece
    exact whole_of_parse he (hlines piece hpiece)
  rw [statements, split_joined hgap hwhole hgaps hends, List.map_map]
  rfl

/-- Quotes, escapes, brackets and the marks of the splitter inside of texts. -/
theorem statements_joined_quoted :
    statements "  put('k;', [1, '#)']) ;\n x = \"a\\\";b\"\n\n; ;return(x[0].y)  " =
      ["put('k;', [1, '#)'])", "x = \"a\\\";b\"", "return(x[0].y)"] := by
  have h := @statements_joined [("put('k;', [1, '#)'])", " ;\n "), ("x = \"a\\\";b\"", "\n\n; ;"),
      ("return(x[0].y)", "  ")] "  " (by decide) ?_ (by simp) ?_ (by decide)
  · exact h
  · intro piece hpiece
    simp only [List.mem_cons, List.not_mem_nil, or_false] at hpiece
    rcases hpiece with rfl | rfl | rfl
    · exact ⟨_, by cbv⟩
    · exact ⟨_, by cbv⟩
    · exact ⟨_, by cbv⟩
  · simp only [List.forall_mem_cons, List.not_mem_nil, false_imp_iff, implies_true, and_true]
    exact ⟨by decide, by decide, by decide⟩

end Script

end ScriptTree
