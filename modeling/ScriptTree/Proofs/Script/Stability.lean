import ScriptTree.Proofs.Script.Origin

/-!
# Splitting is stable

A statement of a text is one line without blanks at its ends. Split again it stays whole
(`split_of_stands`), and so do the statements joined on one line (`split_join`): only what starts
with `#` is dropped where it starts a line. Blanks around a text change none of its statements
(`split_trim`).
-/

set_option autoImplicit false

namespace ScriptTree

namespace Script

/-! ## Splitting one line -/

namespace Splitter

variable {s : Splitter}

/-- What ends is the trimmed text of the statement under way. -/
theorem ended_flush {t : List Char} (h : Text.trim s.current.reverse = t) (ht : t ≠ []) :
    s.flush.ended = t :: s.ended := by
  simp [flush, h, ht]

theorem ended_flush_of_blank (h : Text.trim s.current.reverse = []) : s.flush.ended = s.ended := by
  simp [flush, h]

@[simp] theorem current_flush (s : Splitter) : s.flush.current = [] := rfl

@[simp] theorem nesting_flush (s : Splitter) : s.flush.nesting = s.nesting := rfl

/-- Nothing is under way after a statement has ended. -/
@[simp] theorem ended_flush_flush (s : Splitter) : s.flush.flush.ended = s.flush.ended :=
  ended_flush_of_blank rfl

/-- A semicolon where nothing is open. -/
theorem scan_semicolon (hs : s.nesting = ⟨none, 0⟩) (rest : List Char) :
    s.scan (';' :: rest) = s.flush.scan rest := by
  rw [scan.eq_def]
  simp only [hs, outside_semicolon hs]

/-- A statement is added to blanks before it. -/
theorem scan_stands {t : List Char} {p : Standing} (ht : Stands t p)
    (hs : s.nesting = ⟨none, 0⟩) :
    s.scan t = { s with current := t.reverse ++ s.current, nesting := p.nesting } := by
  have h := scan_append_of_walk (p := .outside 0) trivial ht.walk [] (.inr rfl) s hs
  simpa using h

/-- A statement, a blank and a semicolon. -/
theorem scan_stands_semicolon {t : List Char} (ht : Stands t (.outside 0))
    (hs : s.nesting = ⟨none, 0⟩) (rest : List Char) :
    s.scan (t ++ ' ' :: ';' :: rest) =
      Splitter.scan (Splitter.flush { s with current := ' ' :: (t.reverse ++ s.current) }) rest := by
  have hwalk : (Standing.outside 0).walk (t ++ [' ']) = some (.outside 0) := by
    rw [Standing.walk_append, ht.walk]
    rfl
  have h := scan_append_of_walk (p := .outside 0) trivial hwalk (';' :: rest) (.inl trivial) s hs
  rw [List.append_assoc, List.singleton_append] at h
  rw [h, scan_semicolon rfl]
  simp [hs]

/-- A blank between statements. -/
theorem scan_blank {c : Char} (hc : Text.isBlank c = true) (hs : s.nesting = ⟨none, 0⟩)
    (rest : List Char) : s.scan (c :: rest) = (s.push c).scan rest := by
  have hwalk : (Standing.outside 0).walk [c] = some (.outside 0) := by
    simp [Standing.next_outside_of_blank 0 hc]
  have h := scan_append_of_walk (p := .outside 0) trivial hwalk rest (.inl trivial) s hs
  simpa [push, hs] using h

end Splitter

/-- The separator of the statements on one line. -/
def separator : List Char := [' ', ';', ' ']

/-- Statements on one line are ended one after another. -/
theorem ended_scan_join (ss : List (List Char)) {s : Splitter} (hs : s.nesting = ⟨none, 0⟩)
    (hblank : ∀ c ∈ s.current, Text.isBlank c = true)
    (hclosed : ∀ t ∈ ss.dropLast, Stands t (.outside 0)) (hstands : ∀ t ∈ ss, ∃ p, Stands t p) :
    (s.scan (Text.join separator ss)).flush.ended = ss.reverse ++ s.ended := by
  have hreverse : ∀ c ∈ s.current.reverse, Text.isBlank c = true := by simpa using hblank
  induction ss generalizing s with
  | nil => simp [Text.join, Splitter.ended_flush_of_blank (Text.trim_of_blanks hreverse)]
  | cons t rest ih =>
      cases rest with
      | nil =>
          -- The last statement is ended by the end of the line, whether it stands open or not.
          obtain ⟨p, ht⟩ := hstands t (by simp)
          have htrim : Text.trim (s.current.reverse ++ t) = t := by
            have h := Text.trim_surrounded hreverse (t := []) (by simp) t
            rwa [List.append_nil, ht.trimmed] at h
          rw [Text.join, Splitter.scan_stands ht hs]
          refine (Splitter.ended_flush ?_ ht.nonempty).trans (by simp)
          simpa using htrim
      | cons next rest =>
          have ht : Stands t (.outside 0) := hclosed t (by simp)
          have htrim : Text.trim (s.current.reverse ++ t ++ [' ']) = t := by
            rw [Text.trim_surrounded hreverse (by simpa using (by decide)), ht.trimmed]
          have hended : ∀ s' : Splitter, s'.current = ' ' :: (t.reverse ++ s.current) →
              s'.flush.ended = t :: s'.ended := by
            intro s' hcurrent
            exact Splitter.ended_flush (by simpa [hcurrent] using htrim) ht.nonempty
          rw [Text.join_cons_cons _ _ (by simp), List.append_assoc]
          show (s.scan (t ++ ' ' :: ';' :: ' ' :: Text.join separator (next :: rest))).flush.ended = _
          rw [Splitter.scan_stands_semicolon ht hs, Splitter.scan_blank (by decide) (by exact hs)]
          rw [ih (by exact hs) (by simpa [Splitter.push] using (by decide))
            (fun u hu => hclosed u (by simpa using .inr hu))
            (fun u hu => hstands u (List.mem_cons_of_mem _ hu))
            (by simpa [Splitter.push] using (by decide))]
          simp [Splitter.push, hended]

/-- A text of one trimmed line is a comment or is scanned from the start. -/
theorem split_line {text : List Char} (hne : text ≠ []) (hline : '\n' ∉ text)
    (htrim : Text.trim text = text) :
    split text =
      if isComment text then [] else (Splitter.start.scan text).flush.ended.reverse := by
  rw [split, Text.lines_of_not_mem hne hline]
  simp only [List.foldl_cons, List.foldl_nil, Splitter.line, htrim, isComment]
  have hclosed : Splitter.start.nesting.isOpen = false := rfl
  rw [hclosed, if_neg (by simp)]
  by_cases hcomment : text.head? == some '#'
  · simp [hcomment, Splitter.start, Splitter.flush, Text.trim_of_blanks]
  · -- Whether the line ends closed or open, its end ends the statement.
    simp only [hcomment, hne, List.isEmpty_iff, Bool.or_false, Bool.false_eq_true, if_false]
    split <;> simp

/-! ## Splitting statements again -/

/-- A statement split again stays whole, unless it reads as a comment. -/
theorem split_of_stands {t : List Char} {p : Standing} (h : Stands t p) (hline : '\n' ∉ t) :
    split t = if isComment t then [] else [t] := by
  have hscan : (Splitter.start.scan t).flush.ended = [t] :=
    ended_scan_join [t] rfl (by simp [Splitter.start]) (by simp) (by simpa using ⟨p, h⟩)
  rw [split_line h.nonempty hline h.trimmed, hscan, List.reverse_singleton]

/-- The statements of a text on one line. -/
def normalised (text : String) : String :=
  String.ofList (Text.join separator (split text.toList))

/-- Statements on one line are split as they were, unless the first one reads as a comment and takes
all of them with it. -/
theorem split_join {ss : List (List Char)} (hclosed : ∀ t ∈ ss.dropLast, Stands t (.outside 0))
    (hstands : ∀ t ∈ ss, ∃ p, Stands t p) (hlines : ∀ t ∈ ss, '\n' ∉ t) :
    split (Text.join separator ss) = if ss.head?.any isComment then [] else ss := by
  cases ss with
  | nil => rfl
  | cons t rest =>
      obtain ⟨p, ht⟩ := hstands t List.mem_cons_self
      have hnonempty : ∀ u ∈ t :: rest, u ≠ [] := by
        intro u hu
        obtain ⟨q, hu⟩ := hstands u hu
        exact hu.nonempty
      have hhead := Text.head?_join separator rest ht.nonempty
      have hne : Text.join separator (t :: rest) ≠ [] := by
        intro hnil
        rw [hnil] at hhead
        exact ht.nonempty (List.head?_eq_none_iff.mp hhead.symm)
      have hline : '\n' ∉ Text.join separator (t :: rest) := by
        intro hmem
        rcases Text.mem_join hmem with hmem | ⟨u, hu, hmem⟩
        · exact absurd hmem (by decide)
        · exact hlines u hu hmem
      have htrim : Text.trim (Text.join separator (t :: rest)) =
          Text.join separator (t :: rest) := by
        -- Both ends are ends of statements.
        refine Text.trim_eq_self ?_ ?_
        · intro c hc
          exact Text.isBlank_head_of_trim ht.trimmed (hhead ▸ hc)
        · intro c hc
          rw [Text.getLast?_join separator hnonempty] at hc
          obtain ⟨last, hlast, hc⟩ := Option.bind_eq_some_iff.mp hc
          obtain ⟨q, hq⟩ := hstands last (List.mem_of_getLast? hlast)
          exact Text.isBlank_getLast_of_trim hq.trimmed hc
      have hscan : (Splitter.start.scan (Text.join separator (t :: rest))).flush.ended =
          (t :: rest).reverse ++ [] :=
        ended_scan_join _ rfl (by simp [Splitter.start]) hclosed hstands
      rw [split_line hne hline htrim, hscan]
      simp [isComment, hhead]

/-! ## Blanks around a text -/

namespace Splitter

/-- A line counts without the blanks at its ends. -/
theorem line_congr (s : Splitter) {raw raw' : List Char} (h : Text.trim raw = Text.trim raw') :
    s.line raw = s.line raw' := by
  rw [line, h, line]

/-- A blank line adds at most a blank to the statement under way. -/
theorem ended_line_blank (s : Splitter) {raw : List Char} (h : Text.trim raw = []) :
    (s.line raw).flush.ended = s.flush.ended := by
  have hpush : (s.push ' ').flush.ended = s.flush.ended := by
    have htrim := Text.trim_surrounded (g := []) (t := [' ']) (by simp)
      (by simpa using (by decide)) s.current.reverse
    simp only [List.nil_append] at htrim
    simp [flush, push, htrim]
  simp only [line, h, scan_nil]
  split
  · split
    · exact hpush
    · rw [ended_flush_flush, hpush]
  · simp

end Splitter

/-- A blank before a text starts no statement. -/
theorem split_blank_cons {c : Char} (hc : Text.isBlank c = true) (text : List Char) :
    split (c :: text) = split text := by
  by_cases hnewline : c = '\n'
  · subst hnewline
    rw [split, Text.lines, split]
    rfl
  · -- The blank stands in the first line.
    have htrim : ∀ s, Text.trim (c :: s) = Text.trim s := by
      intro s
      have h := Text.trim_surrounded (g := [c]) (t := []) (by simpa using hc) (by simp) s
      simpa using h
    have hmem : ∀ {s : List Char}, '\n' ∉ s → '\n' ∉ c :: s := by
      intro s hs
      simpa [hs] using fun h => hnewline h.symm
    rcases Text.lines_cases text with hline | ⟨first, rest, rfl, hfirst⟩
    · rw [split, Text.lines_of_not_mem (by simp) (hmem hline), split]
      cases text with
      | nil => simp [Splitter.ended_line_blank, Text.trim_of_blanks, hc, Text.lines]
      | cons d text =>
          rw [Text.lines_of_not_mem (by simp) hline, List.foldl_cons, List.foldl_cons,
            Splitter.line_congr _ (htrim _)]
    · obtain ⟨line, hlines, hline⟩ := Text.exists_lines_append_newline hfirst rest
      obtain ⟨line', hlines', hline'⟩ := Text.exists_lines_append_newline (hmem hfirst) rest
      rw [List.cons_append] at hlines'
      have hsame : Text.trim line' = Text.trim line := by rw [hline', htrim, hline]
      rw [split, hlines', split, hlines, List.foldl_cons, List.foldl_cons,
        Splitter.line_congr _ hsame]

/-- A blank behind a text adds nothing to it. -/
theorem split_append_blank {c : Char} (hc : Text.isBlank c = true) (text : List Char) :
    split (text ++ [c]) = split text := by
  suffices h : ∀ s : Splitter, ((Text.lines (text ++ [c])).foldl Splitter.line s).flush.ended =
      ((Text.lines text).foldl Splitter.line s).flush.ended by
    rw [split, h, split]
  -- Line after line; the blank stands in the last one or ends it.
  induction hlength : text.length using Nat.strong_induction_on generalizing text with
  | _ n ih =>
      intro s
      rcases Text.lines_cases text with hline | ⟨first, rest, rfl, hfirst⟩
      · obtain ⟨line, hlines, htrim⟩ :
            ∃ line, Text.lines (text ++ [c]) = [line] ∧ Text.trim line = Text.trim text := by
          by_cases hnewline : c = '\n'
          · subst hnewline
            exact Text.exists_lines_append_newline hline []
          · refine ⟨text ++ [c], Text.lines_of_not_mem (by simp) ?_, ?_⟩
            · simpa [hline] using fun h => hnewline h.symm
            · have h := Text.trim_surrounded (g := []) (t := [c]) (by simp) (by simpa using hc) text
              rwa [List.nil_append] at h
        rw [hlines, List.foldl_cons, List.foldl_nil]
        cases text with
        | nil => exact Splitter.ended_line_blank s htrim
        | cons d text =>
            rw [Text.lines_of_not_mem (by simp) hline, Splitter.line_congr s htrim]
            rfl
      · obtain ⟨line, hlines, htrim⟩ := Text.exists_lines_append_newline hfirst rest
        obtain ⟨line', hlines', htrim'⟩ := Text.exists_lines_append_newline hfirst (rest ++ [c])
        rw [List.append_assoc, List.cons_append, hlines', hlines, List.foldl_cons, List.foldl_cons,
          Splitter.line_congr s (htrim'.trans htrim.symm)]
        exact ih rest.length (by simp at hlength; omega) rest rfl _

/-- Blanks around a text do not count. -/
theorem split_trim (text : List Char) : split (Text.trim text) = split text := by
  obtain ⟨before, hbefore, hstart⟩ := Text.exists_trimStart_eq text
  obtain ⟨after, hafter, hend⟩ := Text.exists_trimEnd_eq (Text.trimStart text)
  have hfront : ∀ g : List Char, (∀ c ∈ g, Text.isBlank c = true) → ∀ s,
      split (g ++ s) = split s := by
    intro g hg s
    induction g with
    | nil => rfl
    | cons c g ih =>
        rw [List.cons_append, split_blank_cons (hg c List.mem_cons_self)]
        exact ih fun d hd => hg d (List.mem_cons_of_mem c hd)
  have hback : ∀ g : List Char, (∀ c ∈ g, Text.isBlank c = true) → ∀ s,
      split (s ++ g) = split s := by
    intro g hg s
    induction g generalizing s with
    | nil => rw [List.append_nil]
    | cons c g ih =>
        rw [List.append_cons, ih fun d hd => hg d (List.mem_cons_of_mem c hd)]
        exact split_append_blank (hg c List.mem_cons_self) s
  calc split (Text.trim text)
      = split (Text.trim text ++ after) := (hback after hafter _).symm
    _ = split (Text.trimStart text) := by rw [Text.trim, hend]
    _ = split (before ++ Text.trimStart text) := (hfront before hbefore _).symm
    _ = split text := by rw [hstart]

end Script

end ScriptTree
