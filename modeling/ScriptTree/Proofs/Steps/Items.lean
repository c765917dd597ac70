import ScriptTree.Proofs.Script.Conservation
import ScriptTree.Proofs.Script.Separation
import ScriptTree.Proofs.Steps.Ending

/-!
# Steps in a list

The items of a list are steps one by one, or one text in which a semicolon and a line feed stand
between them. A text that ends outside quotes and brackets comes to its end with the semicolon, in
whatever line it falls (`Splitter.line_semicolon`), and the scan of what is behind goes on as from
the start. So the text of a list has the statements of its items, in the same order, and running
them is running item after item (`World.statements_stepsText`).
-/

set_option autoImplicit false

namespace ScriptTree

namespace Script

/-! ## A semicolon at the end of a line -/

namespace Splitter

variable {s : Splitter}

/-- Where nothing is open no statement is under way. -/
def Fresh (s : Splitter) : Prop := s.nesting.isOpen = false → s.current = []

theorem fresh_start : start.Fresh := fun _ => rfl

theorem fresh_close (s : Splitter) : s.close.Fresh := by
  rw [close]
  split
  · rename_i hopen
    exact fun hclosed => absurd hopen (by simp [hclosed])
  · exact fun _ => rfl

/-- The end of a line has nothing to end behind a statement that has ended. -/
theorem Fresh.close_eq (h : s.Fresh) : s.close = s := by
  rw [close]
  split
  · rfl
  · rename_i hclosed
    rw [Bool.not_eq_true] at hclosed
    obtain ⟨ended, current, nesting⟩ := s
    obtain rfl : current = [] := h hclosed
    rfl

theorem Fresh.line (h : s.Fresh) (raw : List Char) : (s.line raw).Fresh := by
  rw [line_eq]
  split
  · exact fresh_close _
  · split
    · exact h
    · exact fresh_close _

theorem Fresh.lines (h : s.Fresh) (raws : List (List Char)) :
    (raws.foldl Splitter.line s).Fresh := by
  induction raws generalizing s with
  | nil => exact h
  | cons raw raws ih => exact ih (h.line raw)

theorem nesting_eq_of_not_isOpen (h : s.nesting.isOpen = false) : s.nesting = ⟨none, 0⟩ := by
  rcases hs : s.nesting with ⟨quote, depth⟩
  rw [hs] at h
  simpa [Nesting.isOpen] using h

/-- Behind a part outside quotes the scan goes on by itself. -/
theorem scan_append {a : List Char} (h : (s.scan a).nesting.quote = none) (b : List Char) :
    s.scan (a ++ b) = (s.scan a).scan b := by
  fun_induction Splitter.scan s a with
  | case1 s => rfl
  | case2 s c rest hquote ih =>
      rw [List.cons_append, Splitter.scan.eq_def s (c :: (rest ++ b))]
      simp only [hquote]
      exact ih h
  | case3 s c q hquote hback =>
      -- A backslash at the end stands inside a quote.
      rw [push, hquote] at h
      cases h
  | case4 s c q hquote hback e rest ih =>
      rw [List.cons_append, List.cons_append, Splitter.scan.eq_def s (c :: e :: (rest ++ b))]
      simp only [hquote, hback, if_true]
      exact ih h
  | case5 s c rest q hquote hback ih =>
      rw [List.cons_append, Splitter.scan.eq_def s (c :: (rest ++ b))]
      simp only [hquote, hback, Bool.false_eq_true, if_false]
      exact ih h

theorem flush_flush (s : Splitter) : s.flush.flush = s.flush := by
  simp [flush, Text.trim_of_blanks]

/-- Blanks at the end of a statement do not count. -/
theorem flush_blanks {g : List Char} (hg : ∀ c ∈ g, Text.isBlank c = true) :
    Splitter.flush { s with current := g.reverse ++ s.current } = s.flush := by
  have htrim := Text.trim_surrounded (g := []) (by simp) hg s.current.reverse
  rw [List.nil_append] at htrim
  simp [flush, htrim]

/-- A semicolon behind blanks where nothing is open. -/
theorem scan_blanks_semicolon {g : List Char} (hg : ∀ c ∈ g, Text.isBlank c = true)
    (hs : s.nesting = ⟨none, 0⟩) : s.scan (g ++ [';']) = s.flush := by
  have hwalk := scan_append_of_walk (p := .outside 0) trivial
    (Standing.walk_outside_blanks 0 hg) [';'] (.inl trivial) s hs
  rw [hwalk, scan_semicolon rfl, scan_nil]
  have hflush := flush_blanks (s := s) hg
  rw [← hflush, Standing.nesting_outside, ← hs]

/-- What a semicolon leaves of a line, blanks before it included. -/
theorem exists_trim_semicolon (raw : List Char) :
    ∃ g, (∀ c ∈ g, Text.isBlank c = true) ∧
      Text.trim (raw ++ [';']) = Text.trim raw ++ (g ++ [';']) := by
  obtain ⟨g, hg, hstart⟩ := Text.exists_trimEnd_eq (Text.trimStart raw)
  have hboth := Text.trim_append_cons (c := ';') (by decide) raw []
  refine ⟨g, hg, ?_⟩
  rw [hboth, ← List.append_assoc, Text.trim, hstart]
  rfl

/-- A semicolon makes no line a comment. -/
theorem isComment_trim_semicolon (raw : List Char) :
    isComment (Text.trim (raw ++ [';'])) = isComment (Text.trim raw) := by
  obtain ⟨g, hg, htrim⟩ := exists_trim_semicolon raw
  rw [htrim]
  cases Text.trim raw with
  | cons c rest => rfl
  | nil =>
      cases g with
      | nil => rfl
      | cons c g =>
          have hne : c ≠ '#' := by
            rintro rfl
            exact absurd (hg _ List.mem_cons_self) (by decide)
          simpa [isComment] using hne

/-- What closes with a line has ended at a semicolon behind it already. -/
theorem close_scan_semicolon {raw : List Char}
    (h : (s.scan (Text.trim raw)).close.nesting.isOpen = false) :
    (s.scan (Text.trim (raw ++ [';']))).close = (s.scan (Text.trim raw)).close := by
  have hclosed : (s.scan (Text.trim raw)).nesting.isOpen = false := by
    rw [close] at h
    split at h
    · exact h
    · simpa using h
  have hnesting := nesting_eq_of_not_isOpen hclosed
  obtain ⟨g, hg, htrim⟩ := exists_trim_semicolon raw
  have hscan : s.scan (Text.trim (raw ++ [';'])) = (s.scan (Text.trim raw)).flush := by
    rw [htrim, scan_append (by rw [hnesting]), scan_blanks_semicolon hg hnesting]
  simp only [hscan, close, nesting_flush, hclosed, flush_flush, Bool.false_eq_true, if_false]

/-- Where a line ends outside quotes and brackets, a semicolon behind it changes nothing. -/
theorem line_semicolon (hfresh : s.Fresh) {raw : List Char}
    (h : (s.line raw).nesting.isOpen = false) : s.line (raw ++ [';']) = s.line raw := by
  rw [line_eq] at h
  rw [line_eq, line_eq, isComment_trim_semicolon]
  by_cases hopen : s.nesting.isOpen = true
  · rw [if_pos hopen] at h ⊢
    rw [if_pos hopen]
    exact close_scan_semicolon h
  · rw [if_neg hopen] at h ⊢
    rw [if_neg hopen]
    by_cases hcomment : isComment (Text.trim raw) = true
    · simp only [hcomment, Bool.or_true, if_true]
    · -- A blank line is skipped, and with the semicolon it has nothing to end.
      have hblank : (if (Text.trim raw).isEmpty then s else (s.scan (Text.trim raw)).close) =
          (s.scan (Text.trim raw)).close := by
        split
        · rename_i hempty
          rw [List.isEmpty_iff.mp hempty, scan_nil, hfresh.close_eq]
        · rfl
      have hline : (Text.trim (raw ++ [';'])).isEmpty = false := by
        obtain ⟨g, -, htrim⟩ := exists_trim_semicolon raw
        simp [htrim]
      rw [Bool.not_eq_true] at hcomment
      simp only [hcomment, Bool.or_false, hline, Bool.false_eq_true, if_false, hblank] at h ⊢
      exact close_scan_semicolon h

/-- Lines with a semicolon and a line feed behind them, and those of the rest. -/
theorem lines_semicolon (hfresh : s.Fresh) {text : List Char} (rest : List Char)
    (h : ((Text.lines text).foldl Splitter.line s).nesting.isOpen = false) :
    (Text.lines (text ++ ';' :: '\n' :: rest)).foldl Splitter.line s =
      (Text.lines rest).foldl Splitter.line ((Text.lines text).foldl Splitter.line s) := by
  -- Line after line; the semicolon stands at the end of the last one.
  induction hlength : text.length using Nat.strong_induction_on generalizing s text with
  | _ n ih =>
      rcases Text.lines_cases text with hline | ⟨first, text, rfl, hfirst⟩
      · have hsemicolon : '\n' ∉ text ++ [';'] := by simpa using hline
        obtain ⟨last, hlines, htrim⟩ := Text.exists_lines_append_newline hsemicolon rest
        rw [List.append_assoc, List.singleton_append] at hlines
        rw [hlines, List.foldl_cons, line_congr s htrim]
        congr 1
        cases text with
        | nil =>
            have hclosed : s.nesting.isOpen = false := h
            have hempty : s.line [] = s := by
              rw [line_eq, if_neg (by simp [hclosed])]
              rfl
            have hline := @line_semicolon s hfresh [] (by rw [hempty, hclosed])
            rwa [hempty] at hline
        | cons c text =>
            rw [Text.lines_of_not_mem (by simp) hline] at h ⊢
            exact line_semicolon hfresh h
      · obtain ⟨line, hlines, htrim⟩ := Text.exists_lines_append_newline hfirst text
        obtain ⟨line', hlines', htrim'⟩ :=
          Text.exists_lines_append_newline hfirst (text ++ ';' :: '\n' :: rest)
        rw [hlines, List.foldl_cons] at h
        rw [List.append_assoc, List.cons_append, hlines', hlines, List.foldl_cons, List.foldl_cons,
          line_congr s (htrim'.trans htrim.symm)]
        exact ih text.length (by simp at hlength; omega) (hfresh.line line) h rfl

end Splitter

/-! ## Joined texts -/

/-- A text that ends outside quotes and brackets, with a semicolon and a line feed behind it, is
split by itself. -/
theorem split_append_semicolon {text : List Char} (h : (ending text).nesting.isOpen = false)
    (rest : List Char) : split (text ++ ';' :: '\n' :: rest) = split text ++ split rest := by
  generalize hs : (Text.lines text).foldl Splitter.line Splitter.start = s
  have hfresh : s.Fresh := hs ▸ Splitter.fresh_start.lines (Text.lines text)
  have hclosed : s.nesting.isOpen = false := by rw [← hs, (Splitter.holds_split text).nesting, h]
  have hflush : s.flush = s := by
    have hclose := hfresh.close_eq
    rwa [Splitter.close, hclosed, if_neg (by simp)] at hclose
  -- The rest is scanned behind the statements that have ended.
  have hbehind : Splitter.Behind s.ended s Splitter.start :=
    ⟨rfl, ⟨[], by simp, hfresh hclosed⟩, Splitter.nesting_eq_of_not_isOpen hclosed⟩
  have hlines := Splitter.lines_semicolon Splitter.fresh_start rest
    (by rw [hs]; exact hclosed)
  rw [split, hlines, hs, (hbehind.lines _).statements, split, hs, hflush]
  rfl

/-- Texts that end outside quotes and brackets, but for the last one, with a semicolon and a line
feed between them. -/
theorem split_join_semicolon {texts : List (List Char)}
    (h : ∀ text ∈ texts.dropLast, (ending text).nesting.isOpen = false) :
    split (Text.join [';', '\n'] texts) = texts.flatMap split := by
  induction texts with
  | nil => rfl
  | cons text texts ih =>
      cases texts with
      | nil => simp [Text.join]
      | cons next texts =>
          have hjoin : Text.join [';', '\n'] (text :: next :: texts) =
              text ++ ';' :: '\n' :: Text.join [';', '\n'] (next :: texts) := by
            simp [Text.join]
          rw [hjoin, split_append_semicolon (h text (by simp)), List.flatMap_cons,
            ih fun other hother => h other (by simpa using .inr hother)]

end Script

/-! ## Lists of steps -/

/-- Statements after others are evaluated behind them. -/
theorem Language.evaluateAll_append (lang : Language) (c : Context) (before rest : List String)
    (first : Value) :
    lang.evaluateAll c (before ++ rest) first =
      lang.evaluateAll c before first >>= lang.evaluateAll c rest := by
  induction before generalizing first with
  | nil => rfl
  | cons s before ih =>
      rw [List.cons_append, evaluateAll, evaluateAll, bind_assoc]
      exact congrArg _ (funext fun value => ih value)

/-- What runs statements one behind the other runs those of items item after item. -/
theorem Action.run_flatMap {run : List String → Value → Action Value}
    (hnil : ∀ last, run [] last = pure last)
    (happend : ∀ before rest first, run (before ++ rest) first = run before first >>= run rest)
    (statements : String → List String) (items : List String) (last : Value) :
    run (items.flatMap statements) last =
      items.foldlM (fun last item => run (statements item) last) last := by
  induction items generalizing last with
  | nil => exact hnil last
  | cons item items ih =>
      rw [List.flatMap_cons, happend, List.foldlM_cons]
      exact congrArg _ (funext fun value => ih value)

/-- The text of a list whose items end outside quotes and brackets, but for the last one, has the
statements of the items in the order of the items. So a sequence performs them item after item, and
evaluation evaluates them item after item. Items that are null do not count. -/
theorem World.statements_stepsText (w : World) {items : List Value}
    (hends : ∀ text ∈ (w.itemTexts items).dropLast,
      (Script.ending text.toList).nesting.isOpen = false) :
    Script.statements (w.stepsText (.list items)) =
        (w.stepsList (.list items)).flatMap Script.statements ∧
      (∀ lang (n : NodeId) indent last,
        n.performAll lang indent (Script.statements (w.stepsText (.list items))) last =
          (w.stepsList (.list items)).foldlM
            (fun last item => n.performAll lang indent (Script.statements item) last) last) ∧
      ∀ (lang : Language) c last,
        lang.evaluateAll c (Script.statements (w.stepsText (.list items))) last =
          (w.stepsList (.list items)).foldlM
            (fun last item => lang.evaluateAll c (Script.statements item) last) last := by
  have hstatements : Script.statements (w.stepsText (.list items)) =
      (w.stepsList (.list items)).flatMap Script.statements := by
    have hsplit := @Script.split_join_semicolon ((w.itemTexts items).map String.toList) (by
      intro text htext
      rw [← List.map_dropLast] at htext
      obtain ⟨item, hitem, rfl⟩ := List.mem_map.mp htext
      exact hends item hitem)
    rw [Script.statements, stepsText, String.toList_ofList, hsplit, List.flatMap_map,
      List.map_flatMap]
    rfl
  refine ⟨hstatements, ?_, ?_⟩
  · intro lang n indent last
    rw [hstatements]
    exact Action.run_flatMap (fun _ => rfl) NodeId.performAll_append Script.statements _ last
  · intro lang c last
    rw [hstatements]
    exact Action.run_flatMap (fun _ => rfl) (lang.evaluateAll_append c) Script.statements _ last

/-- An item that ends in a comment, an empty one, one of several lines, null, and one that stays
open. -/
def Value.mixedSteps : List Value :=
  [.text "a = 1\n# it's", .text "", .text "f(1,\n 2); b ", .null, .text "# c\n'd"]

theorem World.statements_stepsText_mixed :
    (World.initial ⟨false, false, 0⟩ .empty).stepsText (.list Value.mixedSteps) =
        "a = 1\n# it's;\n;\nf(1,\n 2); b ;\n# c\n'd" ∧
      Script.statements "a = 1\n# it's;\n;\nf(1,\n 2); b ;\n# c\n'd" =
        ["a = 1", "f(1, 2)", "b", "'d"] := by
  obtain ⟨hstatements, -, -⟩ := @statements_stepsText (World.initial ⟨false, false, 0⟩ .empty)
    Value.mixedSteps (by decide +kernel)
  have htext : (World.initial ⟨false, false, 0⟩ .empty).stepsText (.list Value.mixedSteps) =
      "a = 1\n# it's;\n;\nf(1,\n 2); b ;\n# c\n'd" := by decide +kernel
  rw [htext] at hstatements
  exact ⟨htext, hstatements.trans (by decide +kernel)⟩

end ScriptTree
