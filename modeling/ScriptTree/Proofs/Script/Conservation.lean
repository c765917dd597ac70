import ScriptTree.Proofs.Script.Stability

/-!
# What splitting keeps of a text

A scan of a text goes over its trimmed lines and stands outside of quotes and brackets or inside of
them at each character (`Standing.trail`). Outside it drops the blank lines, the comment lines and
the semicolons, and `kept` is what is left of the text. The statements hold these characters and no
others, in the same order and up to blanks (`statements_conserve`): each step of the splitter adds
to the statements so far what the scan keeps (`Splitter.Holds`).
-/

set_option autoImplicit false

namespace ScriptTree

namespace Text

/-- The characters of a text that are no blanks. -/
def dark (s : List Char) : List Char := s.filter (!isBlank ·)

theorem dark_append (s t : List Char) : dark (s ++ t) = dark s ++ dark t := List.filter_append s t

theorem dark_of_blanks {s : List Char} (h : ∀ c ∈ s, isBlank c = true) : dark s = [] := by
  simpa [dark] using h

/-- Trimming takes blanks away and nothing else. -/
theorem dark_trim (s : List Char) : dark (trim s) = dark s := by
  obtain ⟨before, hbefore, hstart⟩ := exists_trimStart_eq s
  obtain ⟨after, hafter, hend⟩ := exists_trimEnd_eq (trimStart s)
  calc dark (trim s)
      = dark (trim s ++ after) := by rw [dark_append, dark_of_blanks hafter, List.append_nil]
    _ = dark (trimStart s) := by rw [trim, hend]
    _ = dark (before ++ trimStart s) := by rw [dark_append, dark_of_blanks hbefore, List.nil_append]
    _ = dark s := by rw [hstart]

end Text

namespace Script

/-! ## The scan -/

namespace Standing

/-- One character on. A semicolon that ends a statement leaves the scan where it stands. -/
def onward (p : Standing) (c : Char) : Standing := (p.next c).getD p

/-- The characters of a text, each with where the scan stands before it. -/
def trail : Standing → List Char → List (Standing × Char)
  | _, [] => []
  | p, c :: rest => (p, c) :: trail (p.onward c) rest

/-- Where the scan stands behind a text. -/
def behind (p : Standing) (s : List Char) : Standing := s.foldl onward p

/-- At the end of a line there is no character for a backslash to take along. -/
def settled : Standing → Standing
  | .inside quote depth _ => .inside quote depth false
  | p => p

/-- The character is a semicolon outside quotes and brackets. -/
def endsAt (p : Standing) (c : Char) : Bool := c == ';' && !p.nesting.isOpen

/-- A line that begins outside quotes and brackets and is blank or a comment. -/
def skips (p : Standing) (line : List Char) : Bool :=
  !p.nesting.isOpen && (line.isEmpty || isComment line)

/-- Where the scan stands behind a line of a text. -/
def behindLine (p : Standing) (raw : List Char) : Standing :=
  if p.skips (Text.trim raw) then p else (p.behind (Text.trim raw)).settled

/-- A text without the semicolons outside quotes and brackets. -/
def keep (p : Standing) (s : List Char) : List Char :=
  ((p.trail s).filter fun place => !place.1.endsAt place.2).map Prod.snd

/-- What is left of a line of a text. -/
def keepLine (p : Standing) (raw : List Char) : List Char :=
  if p.skips (Text.trim raw) then [] else p.keep (Text.trim raw)

/-- What is left of the lines of a text. -/
def keepLines : Standing → List (List Char) → List Char
  | _, [] => []
  | p, raw :: raws => p.keepLine raw ++ keepLines (p.behindLine raw) raws

end Standing

/-- What is left of a text without the blank lines and the comment lines that begin outside quotes
and brackets, and without the semicolons outside quotes and brackets. -/
def kept (text : List Char) : List Char := (Standing.outside 0).keepLines (Text.lines text)

/-- Where the scan of a text ends. -/
def ending (text : List Char) : Standing := (Text.lines text).foldl Standing.behindLine (.outside 0)

namespace Standing

variable {p q : Standing} {c : Char}

/-- The walk goes on at each character but a semicolon outside quotes and brackets. -/
theorem endsAt_of_next (h : p.next c = some q) : p.endsAt c = false := by
  by_contra hends
  simp only [endsAt, Bool.not_eq_false, Bool.and_eq_true, beq_iff_eq,
    Bool.not_eq_true'] at hends
  obtain ⟨rfl, hclosed⟩ := hends
  obtain rfl := eq_outside_of_not_isOpen hclosed
  cases h

theorem onward_of_next (h : p.next c = some q) : p.onward c = q := by
  rw [onward, h, Option.getD_some]

@[simp] theorem behind_nil (p : Standing) : p.behind [] = p := rfl

@[simp] theorem behind_cons (p : Standing) (c : Char) (s : List Char) :
    p.behind (c :: s) = (p.onward c).behind s := rfl

@[simp] theorem keep_nil (p : Standing) : p.keep [] = [] := rfl

/-- A character that the walk takes is kept. -/
theorem keep_of_next (h : p.next c = some q) (s : List Char) : p.keep (c :: s) = c :: q.keep s := by
  simp [keep, trail, endsAt_of_next h, onward_of_next h]

/-- A semicolon outside quotes and brackets is not kept. -/
theorem keep_semicolon (s : List Char) : (outside 0).keep (';' :: s) = (outside 0).keep s := rfl

theorem onward_semicolon : (outside 0).onward ';' = outside 0 := rfl

theorem settled_of_plain (h : p.Plain) : p.settled = p := by
  cases p with
  | outside depth => rfl
  | inside quote depth escaped =>
      cases escaped with
      | true => cases h
      | false => rfl

/-- A text on which the walk goes through has no semicolon outside quotes and brackets. -/
theorem endsAt_of_walk {s : List Char} (h : p.walk s = some q) :
    ∀ place ∈ p.trail s, place.1.endsAt place.2 = false := by
  induction s generalizing p with
  | nil => simp [trail]
  | cons c s ih =>
      rw [walk_cons] at h
      obtain ⟨p', hnext, hwalk⟩ := Option.bind_eq_some_iff.mp h
      rw [trail, onward_of_next hnext]
      intro place hplace
      rcases List.mem_cons.mp hplace with rfl | hplace
      · exact endsAt_of_next hnext
      · exact ih hwalk place hplace

theorem behind_of_walk {s : List Char} (h : p.walk s = some q) : p.behind s = q := by
  induction s generalizing p with
  | nil => exact Option.some.inj h
  | cons c s ih =>
      rw [walk_cons] at h
      obtain ⟨p', hnext, hwalk⟩ := Option.bind_eq_some_iff.mp h
      rw [behind_cons, onward_of_next hnext, ih hwalk]

end Standing

/-! ## What the splitter holds -/

namespace Splitter

open Standing

/-- The characters of the statements that have ended and of the one under way. -/
def text (s : Splitter) : List Char := s.ended.reverse.flatten ++ s.current.reverse

/-- The end of a line ends the statement under way where nothing is open. -/
def close (s : Splitter) : Splitter := if s.nesting.isOpen then s else s.flush

/-- A line is scanned and closed, unless it is skipped. -/
theorem line_eq (s : Splitter) (raw : List Char) :
    s.line raw =
      if s.nesting.isOpen then ((s.push ' ').scan (Text.trim raw)).close
      else if (Text.trim raw).isEmpty || isComment (Text.trim raw) then s
      else (s.scan (Text.trim raw)).close := rfl

theorem text_push (s : Splitter) (c : Char) : (s.push c).text = s.text ++ [c] := by
  simp [text, push]

theorem dark_text_flush (s : Splitter) : Text.dark s.flush.text = Text.dark s.text := by
  have htrim := Text.dark_trim s.current.reverse
  simp only [text, flush, List.reverse_nil, List.append_nil]
  split
  · rename_i hempty
    rw [List.isEmpty_iff] at hempty
    rw [hempty] at htrim
    rw [Text.dark_append, ← htrim]
    simp [Text.dark]
  · rw [Text.dark_append, ← htrim, ← Text.dark_append]
    simp

/-- The scan of the splitter stands at `p`, and its statements have the characters taken so far, up
to blanks. -/
structure Holds (s : Splitter) (p : Standing) (taken : List Char) : Prop where
  plain : p.Plain
  nesting : s.nesting = p.nesting
  dark : Text.dark s.text = Text.dark taken

variable {s : Splitter} {p : Standing} {taken : List Char}

theorem holds_start : start.Holds (.outside 0) [] := ⟨trivial, rfl, rfl⟩

theorem Holds.push (h : s.Holds p taken) {q : Standing} (hq : q.Plain) (c : Char) :
    Splitter.Holds { s.push c with nesting := q.nesting } q (taken ++ [c]) where
  plain := hq
  nesting := rfl
  dark := by
    have htext : Text.dark (s.push c).text = Text.dark (taken ++ [c]) := by
      rw [text_push, Text.dark_append, h.dark, ← Text.dark_append]
    exact htext

theorem Holds.push_same (h : s.Holds p taken) (c : Char) : (s.push c).Holds p (taken ++ [c]) := by
  have hpush := h.push h.plain c
  rwa [← h.nesting] at hpush

/-- A blank between two lines does not count. -/
theorem Holds.push_blank (h : s.Holds p taken) : (s.push ' ').Holds p taken where
  plain := h.plain
  nesting := h.nesting
  dark := by
    rw [text_push, Text.dark_append, h.dark]
    exact List.append_nil _

theorem Holds.flush (h : s.Holds p taken) : s.flush.Holds p taken where
  plain := h.plain
  nesting := h.nesting
  dark := by rw [dark_text_flush, h.dark]

theorem Holds.close (h : s.Holds p taken) : s.close.Holds p taken := by
  rw [Splitter.close]
  split
  · exact h
  · exact h.flush

/-- Scanning characters of a line adds what the scan keeps of them. -/
theorem Holds.scan (h : s.Holds p taken) (cs : List Char) :
    (s.scan cs).Holds (p.behind cs).settled (taken ++ p.keep cs) := by
  fun_induction Splitter.scan s cs generalizing p taken with
  | case1 s =>
      rw [behind_nil, settled_of_plain h.plain, keep_nil, List.append_nil]
      exact h
  | case2 s c rest hquote ih =>
      cases p with
      | inside quote depth escaped => simp [h.nesting] at hquote
      | outside depth =>
          cases hnext : (Standing.outside depth).next c with
          | some q =>
              rw [outside_of_next h.nesting hnext] at ih ⊢
              rw [behind_cons, onward_of_next hnext, keep_of_next hnext, List.append_cons]
              exact ih (h.push (plain_of_next_outside hnext) c)
          | none =>
              -- The statement ends, and the semicolon is in none.
              obtain ⟨rfl, rfl⟩ := eq_semicolon_of_next hnext
              rw [outside_semicolon h.nesting] at ih ⊢
              rw [behind_cons, onward_semicolon, keep_semicolon]
              exact ih h.flush
  | case3 s c q hquote hback =>
      -- A backslash at the end of a line has no character to take along.
      obtain ⟨quote, depth, rfl, -⟩ := eq_inside_of_quote h.nesting h.plain hquote
      obtain rfl := eq_of_beq hback
      exact h.push_same '\\'
  | case4 s c q hquote hback e rest ih =>
      obtain ⟨quote, depth, rfl, -⟩ := eq_inside_of_quote h.nesting h.plain hquote
      obtain rfl := eq_of_beq hback
      have hback :
          (Standing.inside quote depth false).next '\\' = some (.inside quote depth true) := rfl
      have hescape : (Standing.inside quote depth true).next e = some (.inside quote depth false) :=
        rfl
      rw [behind_cons, onward_of_next hback, keep_of_next hback, List.append_cons, behind_cons,
        onward_of_next hescape, keep_of_next hescape, List.append_cons]
      exact ih ((h.push_same '\\').push_same e)
  | case5 s c rest q hquote hback ih =>
      -- The quote ends or goes on.
      obtain ⟨quote, depth, rfl, rfl⟩ := eq_inside_of_quote h.nesting h.plain hquote
      obtain ⟨q', hnext⟩ := exists_next_inside quote depth c
      obtain ⟨hinside, hplain⟩ := inside_of_next h.nesting hback hnext
      rw [hinside] at ih ⊢
      rw [behind_cons, onward_of_next hnext, keep_of_next hnext, List.append_cons]
      exact ih (h.push hplain c)

/-- A line adds what is left of it. -/
theorem Holds.line (h : s.Holds p taken) (raw : List Char) :
    (s.line raw).Holds (p.behindLine raw) (taken ++ p.keepLine raw) := by
  have hscanned : ∀ {s' : Splitter}, s'.Holds p taken → p.skips (Text.trim raw) = false →
      (s'.scan (Text.trim raw)).close.Holds (p.behindLine raw) (taken ++ p.keepLine raw) := by
    intro s' h' hkept
    rw [behindLine, keepLine, hkept]
    exact (h'.scan _).close
  rw [line_eq]
  split
  · rename_i hopen
    exact hscanned h.push_blank (by simp [skips, ← h.nesting, hopen])
  · rename_i hclosed
    split
    · rename_i hskipped
      have hskips : p.skips (Text.trim raw) = true := by
        simp [skips, ← h.nesting, hclosed, hskipped]
      rw [behindLine, keepLine, if_pos hskips, if_pos hskips, List.append_nil]
      exact h
    · rename_i hkept
      rw [Bool.not_eq_true] at hkept
      exact hscanned h (by simp [skips, hkept])

theorem Holds.lines (h : s.Holds p taken) (raws : List (List Char)) :
    (raws.foldl Splitter.line s).Holds (raws.foldl behindLine p) (taken ++ p.keepLines raws) := by
  induction raws generalizing s p taken with
  | nil =>
      rw [keepLines, List.append_nil]
      exact h
  | cons raw raws ih =>
      rw [keepLines, ← List.append_assoc]
      exact ih (h.line raw)

/-- Behind all lines of a text. -/
theorem holds_split (text : List Char) :
    ((Text.lines text).foldl Splitter.line start).Holds (ending text) (Script.kept text) :=
  holds_start.lines (Text.lines text)

end Splitter

/-! ## What the statements hold -/

/-- The statements have the characters that are left of the text, up to blanks. -/
theorem dark_split (text : List Char) :
    Text.dark (split text).flatten = Text.dark (kept text) := by
  have hended := (Splitter.holds_split text).flush.dark
  rw [Splitter.text, Splitter.current_flush, List.reverse_nil, List.append_nil] at hended
  exact hended

/-- Splitting loses and invents nothing: up to blanks, the statements of a text are in a row what is
left of it without the blank lines and the comment lines that begin outside quotes and brackets and
the semicolons outside quotes and brackets. No such semicolon is in a statement, and all but the
last end outside quotes and brackets. -/
theorem statements_conserve (text : String) :
    Text.dark ((statements text).flatMap String.toList) = Text.dark (kept text.toList) ∧
      (∀ t ∈ statements text, ∀ place ∈ (Standing.outside 0).trail t.toList,
        place.1.endsAt place.2 = false) ∧
      ∀ t ∈ (statements text).dropLast,
        ((Standing.outside 0).behind t.toList).nesting.isOpen = false := by
  refine ⟨?_, ?_, ?_⟩
  · rw [statements, List.flatMap_map]
    simp only [String.toList_ofList, List.flatMap_id']
    exact dark_split text.toList
  · intro t ht
    obtain ⟨p, hstands⟩ := exists_stands_of_mem (mem_statements.mp ht)
    exact Standing.endsAt_of_walk hstands.walk
  · intro t ht
    rw [statements, ← List.map_dropLast] at ht
    obtain ⟨s, hs, rfl⟩ := List.mem_map.mp ht
    rw [String.toList_ofList, Standing.behind_of_walk (stands_of_mem_dropLast hs).walk]
    rfl

/-- A text with marks that count and marks that do not: in a comment, behind a backslash, in a quote
that goes on over the end of a line, in a bracket, and behind the quote that the text leaves
open. -/
def marks : String :=
  "# it's\n x = 'a;b\\\n# \\'; c' ;# d\n\n #e; f(1;\nf(1;\n\n# 2;\n) ;; \"open; ["

theorem statements_conserve_marks :
    statements marks = ["x = 'a;b\\ # \\'; c'", "# d", "f(1;  # 2; )", "\"open; ["] ∧
      Text.dark (kept marks.toList) = "x='a;b\\#\\';c'#df(1;#2;)\"open;[".toList ∧
      (∀ place ∈ (Standing.outside 0).trail "f(1;  # 2; )".toList,
        place.1.endsAt place.2 = false) ∧
      ((Standing.outside 0).behind "x = 'a;b\\ # \\'; c'".toList).nesting.isOpen = false := by
  obtain ⟨hdark, hclosed, hends⟩ := statements_conserve marks
  have hstatements : statements marks =
      ["x = 'a;b\\ # \\'; c'", "# d", "f(1;  # 2; )", "\"open; ["] := by decide +kernel
  rw [hstatements] at hdark hclosed hends
  refine ⟨hstatements, hdark.symm.trans (by decide +kernel), ?_, ?_⟩
  · exact hclosed _ (by decide)
  · exact hends _ (by decide)

end Script

end ScriptTree
