import ScriptTree.Proofs.Text.Parts
import ScriptTree.Properties.Lines

/-!
# Properties are read back

A property is written in a line `key=value`, where a backslash stands before every character with a
meaning of its own and before every blank (`writtenChar`). The line may be broken between any two
written characters, and blank lines and comments may stand between the properties (`Layout`). The
passes of the reader agree on such a text: a line goes on exactly where it was broken, since a
written character never ends in a lone backslash (`continues_append`), the key ends at the one
separator that is not escaped (`cutKey_written`), and every escape is resolved to what it was
written for (`unescape_written`). So the properties are read back, in order and with repetitions,
whatever the layout (`ofLines_write`).
-/

set_option autoImplicit false

namespace ScriptTree.Properties

/-! ## How properties are written -/

/-- The character has a backslash before it. -/
def isMarked (c : Char) : Bool :=
  c == '\\' || c == '=' || c == ':' || c == '#' || c == '!' || Text.isBlank c

/-- A character of a key or a value as it is written. -/
def writtenChar (c : Char) : List Char :=
  if c == '\n' then ['\\', 'n']
  else if c == '\r' then ['\\', 'r']
  else if c == '\t' then ['\\', 't']
  else if c.toNat == 0x0C then ['\\', 'f']
  else if isMarked c then ['\\', c]
  else [c]

/-- The written characters of a property, with the separator between key and value. -/
def writtenParts (p : String × String) : List (List Char) :=
  p.1.toList.map writtenChar ++ ['='] :: p.2.toList.map writtenChar

/-- Blanks that stay in a line. -/
structure Blanks where
  chars : List Char
  blank : ∀ c ∈ chars, Text.isBlank c = true ∧ c ≠ '\n'

/-- The end of a line that goes on, and the blanks at the start of the next one. -/
def Blanks.lineBreak (blanks : Blanks) : List Char := '\\' :: '\n' :: blanks.chars

/-- A line that holds no property. -/
inductive Filler where
  /-- A blank line. -/
  | blank (blanks : Blanks)
  /-- A comment, which may end in backslashes. -/
  | comment (indent : Blanks) (mark : Char) (marks : mark = '#' ∨ mark = '!') (text : List Char)
      (inline : '\n' ∉ text)

/-- The characters of a line without a property. -/
def Filler.chars : Filler → List Char
  | .blank blanks => blanks.chars
  | .comment indent mark _ text _ => indent.chars ++ mark :: text

/-- The parts of a line in order, with line breaks between them: those of the number of parts
before them. -/
def broken (breaks : Nat → List Blanks) : List (List Char) → List Char
  | [] => []
  | [part] => part
  | part :: next :: rest =>
      part ++ (breaks 0).flatMap Blanks.lineBreak ++ broken (fun i => breaks (i + 1)) (next :: rest)

/-- What stands in a source beside the properties. -/
structure Layout where
  /-- The lines before the property of a number; behind the last property for the number of all. -/
  fillers : Nat → List Filler
  /-- The line breaks in the property of a number, behind each of its written characters but the
  last. -/
  breaks : Nat → Nat → List Blanks

/-- The layout from the second property on. -/
def Layout.next (layout : Layout) : Layout :=
  ⟨fun i => layout.fillers (i + 1), fun i => layout.breaks (i + 1)⟩

/-- The lines of properties; one that is broken counts as one line. -/
def writtenLines (layout : Layout) : List (String × String) → List (List Char)
  | [] => (layout.fillers 0).map Filler.chars
  | p :: rest =>
      (layout.fillers 0).map Filler.chars ++
        broken (layout.breaks 0) (writtenParts p) :: writtenLines layout.next rest

/-- The source of properties in a layout. A line feed at its end comes from a blank line there. -/
def write (layout : Layout) (properties : List (String × String)) : String :=
  String.ofList (Text.join ['\n'] (writtenLines layout properties))

/-! ## Written characters -/

/-- A character as it is written: a plain one, or one behind a backslash. Neither ends a line. -/
inductive Written : List Char → Prop
  | plain {c : Char} : c ≠ '\\' → Text.isBlank c = false → Written [c]
  | marked {c : Char} : c ≠ '\n' → c ≠ '\r' → Written ['\\', c]

theorem not_isMarked {c : Char} (h : isMarked c = false) :
    c ≠ '\\' ∧ c ≠ '=' ∧ c ≠ ':' ∧ c ≠ '#' ∧ c ≠ '!' ∧ Text.isBlank c = false := by
  simp only [isMarked, Bool.or_eq_false_iff, beq_eq_false_iff_ne] at h
  obtain ⟨⟨⟨⟨⟨hslash, hequals⟩, hcolon⟩, hhash⟩, hbang⟩, hblank⟩ := h
  exact ⟨hslash, hequals, hcolon, hhash, hbang, hblank⟩

/-- A marked character stands for itself behind its backslash: no letter is marked. -/
theorem escaped_of_isMarked {c : Char} (h : isMarked c = true) : c ≠ 'u' ∧ escaped c = c := by
  have hletters : isMarked 'u' = false ∧ isMarked 't' = false ∧ isMarked 'n' = false ∧
      isMarked 'r' = false ∧ isMarked 'f' = false := by decide
  obtain ⟨hu, ht, hn, hr, hf⟩ := hletters
  refine ⟨fun heq => Bool.false_ne_true ((heq ▸ hu).symm.trans h), ?_⟩
  rw [escaped]
  · rintro rfl
    exact Bool.false_ne_true (ht.symm.trans h)
  · rintro rfl
    exact Bool.false_ne_true (hn.symm.trans h)
  · rintro rfl
    exact Bool.false_ne_true (hr.symm.trans h)
  · rintro rfl
    exact Bool.false_ne_true (hf.symm.trans h)

/-- A character is written as an escape that stands for it, or as itself. -/
theorem writtenChar_cases (c : Char) :
    (∃ e, writtenChar c = ['\\', e] ∧ e ≠ '\n' ∧ e ≠ '\r' ∧ e ≠ 'u' ∧ escaped e = c) ∨
      (writtenChar c = [c] ∧ isMarked c = false) := by
  rw [writtenChar]
  split
  · rename_i h
    exact .inl ⟨'n', rfl, by decide, by decide, by decide, (eq_of_beq h).symm⟩
  · rename_i hfeed
    split
    · rename_i h
      exact .inl ⟨'r', rfl, by decide, by decide, by decide, (eq_of_beq h).symm⟩
    · rename_i hreturn
      split
      · rename_i h
        exact .inl ⟨'t', rfl, by decide, by decide, by decide, (eq_of_beq h).symm⟩
      · split
        · rename_i h
          refine .inl ⟨'f', rfl, by decide, by decide, by decide, ?_⟩
          show Char.ofNat 0x0C = c
          rw [← eq_of_beq h, Char.ofNat_toNat]
        · split
          · rename_i hmarked
            obtain ⟨hu, hescaped⟩ := escaped_of_isMarked hmarked
            exact .inl ⟨c, rfl, fun heq => hfeed (beq_iff_eq.mpr heq),
              fun heq => hreturn (beq_iff_eq.mpr heq), hu, hescaped⟩
          · rename_i hplain
            exact .inr ⟨rfl, Bool.eq_false_iff.mpr hplain⟩

theorem written_writtenChar (c : Char) : Written (writtenChar c) := by
  rcases writtenChar_cases c with ⟨e, heq, hfeed, hreturn, -⟩ | ⟨heq, hplain⟩
  · rw [heq]
    exact .marked hfeed hreturn
  · obtain ⟨hslash, -, -, -, -, hblank⟩ := not_isMarked hplain
    rw [heq]
    exact .plain hslash hblank

theorem written_of_mem_writtenParts {p : String × String} {part : List Char}
    (h : part ∈ writtenParts p) : Written part := by
  rcases List.mem_append.mp h with h | h
  · obtain ⟨c, -, rfl⟩ := List.mem_map.mp h
    exact written_writtenChar c
  · rcases List.mem_cons.mp h with rfl | h
    · exact .plain (by decide) (by decide)
    · obtain ⟨c, -, rfl⟩ := List.mem_map.mp h
      exact written_writtenChar c

namespace Written

variable {part : List Char}

/-- A written character ends with a character that ends no line. -/
theorem exists_concat (h : Written part) :
    ∃ s c, part = s ++ [c] ∧ '\n' ∉ s ∧ c ≠ '\n' ∧ c ≠ '\r' := by
  cases h with
  | @plain c _ hblank =>
      refine ⟨[], c, rfl, List.not_mem_nil, ?_, ?_⟩
      · rintro rfl
        exact absurd hblank (by decide)
      · rintro rfl
        exact absurd hblank (by decide)
  | @marked c hfeed hreturn => exact ⟨['\\'], c, rfl, by decide, hfeed, hreturn⟩

theorem newline_notMem (h : Written part) : '\n' ∉ part := by
  obtain ⟨s, c, rfl, hs, hfeed, -⟩ := h.exists_concat
  rw [List.mem_append, List.mem_singleton, not_or]
  exact ⟨hs, hfeed.symm⟩

/-- A written character does not start with a blank. -/
theorem exists_cons (h : Written part) : ∃ c rest, part = c :: rest ∧ Text.isBlank c = false := by
  cases h with
  | plain _ hblank => exact ⟨_, _, rfl, hblank⟩
  | marked => exact ⟨_, _, rfl, by decide⟩

end Written

/-! ## Lines that go on -/

/-- The backslashes at the end of a line. -/
def trailing (line : List Char) : Nat := (line.reverse.takeWhile (· == '\\')).length

theorem continues_eq (line : List Char) : continues line = (trailing line % 2 == 1) := rfl

theorem trailing_concat (line : List Char) (c : Char) :
    trailing (line ++ [c]) = if c == '\\' then trailing line + 1 else 0 := by
  rw [trailing, List.reverse_concat, List.takeWhile_cons]
  split <;> rfl

/-- A line stays whole when a written character comes behind it. -/
theorem continues_append {line part : List Char} (hline : continues line = false)
    (h : Written part) : continues (line ++ part) = false := by
  rw [continues_eq, beq_eq_false_iff_ne] at hline ⊢
  cases h with
  | @plain c hc _ =>
      rw [trailing_concat, if_neg fun heq => hc (eq_of_beq heq)]
      decide
  | @marked c _ _ =>
      rw [show line ++ ['\\', c] = line ++ ['\\'] ++ [c] by simp, trailing_concat]
      split
      · rw [trailing_concat, if_pos (beq_self_eq_true '\\')]
        omega
      · decide

/-- A whole line goes on when a backslash comes behind it. -/
theorem continues_backslash {line : List Char} (hline : continues line = false) :
    continues (line ++ ['\\']) = true := by
  rw [continues_eq, beq_eq_false_iff_ne] at hline
  rw [continues_eq, trailing_concat, if_pos (beq_self_eq_true '\\'), beq_iff_eq]
  omega

/-! ## Lines of a source -/

/-- The lines behind a line, with the line feed before them. -/
def behind : List (List Char) → List Char
  | [] => []
  | line :: rest => '\n' :: Text.join ['\n'] (line :: rest)

theorem join_cons (line : List Char) (rest : List (List Char)) :
    Text.join ['\n'] (line :: rest) = line ++ behind rest := by
  cases rest with
  | nil => exact (List.append_nil line).symm
  | cons next rest =>
      rw [Text.join, behind, List.append_assoc]
      rfl

/-- A line ends where the lines behind it start. -/
theorem lines_concat_behind {s : List Char} {c : Char} (hs : '\n' ∉ s) (hfeed : c ≠ '\n')
    (hreturn : c ≠ '\r') (rest : List (List Char)) :
    Text.lines (s ++ c :: behind rest) = (s ++ [c]) :: Text.lines (Text.join ['\n'] rest) := by
  rw [Text.lines_append_cons hs hfeed hreturn]
  cases rest <;> rfl

theorem lines_break {s : List Char} (hs : '\n' ∉ s) (rest : List Char) :
    Text.lines (s ++ '\\' :: '\n' :: rest) = (s ++ ['\\']) :: Text.lines rest := by
  rw [Text.lines_append_cons hs (by decide) (by decide), Text.lines]
  rfl

/-! ## Lines without a property -/

theorem isSkipped_congr {s t : List Char} (h : s.head? = t.head?) : isSkipped s = isSkipped t := by
  rw [isSkipped, isSkipped, h]
  cases s with
  | nil =>
      cases t with
      | nil => rfl
      | cons c t => cases h
  | cons c s =>
      cases t with
      | nil => cases h
      | cons d t => rfl

theorem Blanks.trimStart_append (blanks : Blanks) (s : List Char) :
    Text.trimStart (blanks.chars ++ s) = Text.trimStart s :=
  Text.trimStart_blanks_append (fun c hc => (blanks.blank c hc).1) s

theorem Blanks.newline_notMem (blanks : Blanks) : '\n' ∉ blanks.chars := fun h =>
  (blanks.blank '\n' h).2 rfl

theorem Filler.newline_notMem (filler : Filler) : '\n' ∉ filler.chars := by
  cases filler with
  | blank blanks => exact blanks.newline_notMem
  | comment indent mark marks text inline =>
      rw [Filler.chars, List.mem_append, List.mem_cons, not_or, not_or]
      refine ⟨indent.newline_notMem, ?_, inline⟩
      rcases marks with rfl | rfl <;> decide

theorem Filler.isSkipped_chars (filler : Filler) :
    isSkipped (Text.trimStart filler.chars) = true := by
  cases filler with
  | blank blanks =>
      rw [Filler.chars, ← List.append_nil blanks.chars, blanks.trimStart_append]
      rfl
  | comment indent mark marks text inline =>
      rw [Filler.chars, indent.trimStart_append]
      rcases marks with rfl | rfl <;> rfl

/-- A line without a property is passed over, also when it ends in backslashes. -/
theorem logicalLines_filler (filler : Filler) (rest : List (List Char)) :
    logicalLines none (Text.lines (filler.chars ++ behind rest)) =
      logicalLines none (Text.lines (Text.join ['\n'] rest)) := by
  have hskipped := filler.isSkipped_chars
  cases rest with
  | nil =>
      by_cases hnil : filler.chars = []
      · rw [hnil]
        rfl
      · rw [behind, List.append_nil, Text.lines_of_not_mem hnil filler.newline_notMem,
          logicalLines, if_pos hskipped]
        rfl
  | cons next rest =>
      obtain ⟨line, hline, htrim⟩ := Text.exists_lines_append_newline filler.newline_notMem
        (Text.join ['\n'] (next :: rest))
      -- A carriage return at the end of the line is not a part of it.
      have hhead : (Text.trimStart line).head? = (Text.trimStart filler.chars).head? := by
        rw [← Text.head?_trim, htrim, Text.head?_trim]
      rw [behind, hline, logicalLines, if_pos ((isSkipped_congr hhead).trans hskipped)]

/-! ## Broken lines -/

/-- The line so far starts with the blanks, and what is behind them does not start with one. -/
theorem trimStart_line (blanks : Blanks) {s part : List Char} (t : List Char)
    (hs : ∀ c, s.head? = some c → Text.isBlank c = false) (hpart : Written part) :
    Text.trimStart (blanks.chars ++ (s ++ (part ++ t))) = s ++ (part ++ t) := by
  rw [blanks.trimStart_append]
  apply Text.trimStart_eq_self
  intro c hc
  cases s with
  | nil =>
      obtain ⟨d, others, rfl, hd⟩ := hpart.exists_cons
      rw [← Option.some.inj hc]
      exact hd
  | cons d s => exact hs c hc

/-- Line breaks right behind each other count as one. -/
theorem logicalLines_breaks {pending : List Char} (hpending : continues pending = false)
    (first : Blanks) (more : List Blanks) (t : List Char) :
    ∃ last : Blanks,
      logicalLines (some pending)
          (Text.lines (first.chars ++ (more.flatMap Blanks.lineBreak ++ t))) =
        logicalLines (some pending) (Text.lines (last.chars ++ t)) := by
  induction more generalizing first with
  | nil => exact ⟨first, rfl⟩
  | cons next more ih =>
      obtain ⟨last, hlast⟩ := ih next
      refine ⟨last, ?_⟩
      have htrim : Text.trimStart (first.chars ++ ['\\']) = ['\\'] := by
        rw [first.trimStart_append]
        rfl
      rw [← hlast, List.flatMap_cons, Blanks.lineBreak, List.append_assoc, List.cons_append,
        List.cons_append, lines_break first.newline_notMem, logicalLines, htrim,
        if_pos (continues_backslash hpending), List.dropLast_concat]

/-- The parts of a line are read as if the line were not broken. Before them, `pending` is what the
lines before have left, and `s` what the current one holds behind its blanks. -/
theorem logicalLines_broken (breaks : Nat → List Blanks) {part : List Char}
    {parts : List (List Char)} (hparts : ∀ x ∈ part :: parts, Written x) (rest : List (List Char))
    (pending : List Char) (blanks : Blanks) (s : List Char) (hfeed : '\n' ∉ s)
    (hdark : ∀ c, s.head? = some c → Text.isBlank c = false)
    (hwhole : continues (pending ++ s) = false) :
    logicalLines (some pending)
        (Text.lines (blanks.chars ++ (s ++ (broken breaks (part :: parts) ++ behind rest)))) =
      (pending ++ s ++ (part :: parts).flatten) ::
        logicalLines none (Text.lines (Text.join ['\n'] rest)) := by
  induction parts generalizing part breaks pending blanks s with
  | nil =>
      have hpart := hparts part List.mem_cons_self
      obtain ⟨t, c, heq, ht, hc, hreturn⟩ := hpart.exists_concat
      have hline : blanks.chars ++ (s ++ (part ++ behind rest)) =
          (blanks.chars ++ (s ++ t)) ++ c :: behind rest := by
        simp [heq]
      have hinline : '\n' ∉ blanks.chars ++ (s ++ t) := by
        simp only [List.mem_append, not_or]
        exact ⟨blanks.newline_notMem, hfeed, ht⟩
      have hjoined : blanks.chars ++ (s ++ t) ++ [c] = blanks.chars ++ (s ++ (part ++ [])) := by
        simp [heq]
      rw [broken, hline, lines_concat_behind hinline hc hreturn, hjoined, logicalLines,
        trimStart_line blanks [] hdark hpart, List.append_nil, ← List.append_assoc,
        if_neg (by rw [continues_append hwhole hpart]; exact Bool.false_ne_true)]
      simp
  | cons next parts ih =>
      have hpart := hparts part List.mem_cons_self
      have hnext : ∀ x ∈ next :: parts, Written x := fun x hx =>
        hparts x (List.mem_cons_of_mem _ hx)
      have hwhole' := continues_append hwhole hpart
      have hfeed' : '\n' ∉ s ++ part := by
        rw [List.mem_append, not_or]
        exact ⟨hfeed, hpart.newline_notMem⟩
      rw [broken]
      cases hbreaks : breaks 0 with
      | nil =>
          -- The line holds the part as well.
          have hdark' : ∀ c, (s ++ part).head? = some c → Text.isBlank c = false := by
            intro c hc
            have htrim := Text.head?_trimStart (blanks.chars ++ (s ++ (part ++ []))) c
            rw [trimStart_line blanks [] hdark hpart, List.append_nil] at htrim
            exact htrim hc
          have hih := ih (fun i => breaks (i + 1)) hnext pending blanks (s ++ part) hfeed' hdark'
            (by rw [← List.append_assoc]; exact hwhole')
          simp only [List.flatMap_nil, List.append_nil, List.flatten_cons, List.append_assoc]
            at hih ⊢
          exact hih
      | cons first more =>
          have hih := fun last => ih (fun i => breaks (i + 1)) hnext (pending ++ s ++ part) last []
            List.not_mem_nil (fun _ hc => nomatch hc) (by rw [List.append_nil]; exact hwhole')
          obtain ⟨last, hlast⟩ := logicalLines_breaks hwhole' first more
            (broken (fun i => breaks (i + 1)) (next :: parts) ++ behind rest)
          have hline : blanks.chars ++ (s ++ (part ++ (first :: more).flatMap Blanks.lineBreak ++
              broken (fun i => breaks (i + 1)) (next :: parts) ++ behind rest)) =
                (blanks.chars ++ (s ++ part)) ++ '\\' :: '\n' :: (first.chars ++
                  (more.flatMap Blanks.lineBreak ++
                    (broken (fun i => breaks (i + 1)) (next :: parts) ++ behind rest))) := by
            simp [Blanks.lineBreak]
          have hinline : '\n' ∉ blanks.chars ++ (s ++ part) := by
            rw [List.mem_append, not_or]
            exact ⟨blanks.newline_notMem, hfeed'⟩
          have hjoined : blanks.chars ++ (s ++ part) ++ ['\\'] =
              blanks.chars ++ (s ++ (part ++ ['\\'])) := by simp
          have hgoes : pending ++ (s ++ (part ++ ['\\'])) = pending ++ s ++ part ++ ['\\'] := by
            simp
          rw [hline, lines_break hinline, logicalLines, hjoined,
            trimStart_line blanks ['\\'] hdark hpart, hgoes,
            if_pos (continues_backslash hwhole'), List.dropLast_concat, hlast]
          have hread := hih last
          rw [List.nil_append, List.append_nil] at hread
          rw [hread]
          simp

/-! ## Properties and lines without one -/

/-- The first character of a property is neither a blank nor the mark of a comment. -/
theorem exists_writtenParts_cons (p : String × String) :
    ∃ c others parts, writtenParts p = (c :: others) :: parts ∧ Text.isBlank c = false ∧
      c ≠ '#' ∧ c ≠ '!' := by
  rw [writtenParts]
  cases p.1.toList with
  | nil => exact ⟨'=', [], _, rfl, by decide, by decide, by decide⟩
  | cons c key =>
      rw [List.map_cons, List.cons_append]
      rcases writtenChar_cases c with ⟨e, heq, -⟩ | ⟨heq, hplain⟩
      · exact ⟨'\\', [e], _, by rw [heq], by decide, by decide, by decide⟩
      · obtain ⟨-, -, -, hhash, hbang, hblank⟩ := not_isMarked hplain
        exact ⟨c, [], _, by rw [heq], hblank, hhash, hbang⟩

theorem exists_broken_cons (breaks : Nat → List Blanks) (c : Char) (others : List Char)
    (parts : List (List Char)) : ∃ t, broken breaks ((c :: others) :: parts) = c :: t := by
  cases parts with
  | nil => exact ⟨others, rfl⟩
  | cons next parts => exact ⟨_, rfl⟩

/-- A line that holds a property is read like the rest of a line that went on with nothing. -/
theorem logicalLines_first {c : Char} (hblank : Text.isBlank c = false) (hhash : c ≠ '#')
    (hbang : c ≠ '!') (t : List Char) :
    logicalLines none (Text.lines (c :: t)) = logicalLines (some []) (Text.lines (c :: t)) := by
  have hfeed : c ≠ '\n' := by
    rintro rfl
    exact absurd hblank (by decide)
  have hreturn : c ≠ '\r' := by
    rintro rfl
    exact absurd hblank (by decide)
  have hlines := Text.lines_append_cons (s := []) List.not_mem_nil hfeed hreturn t
  rw [List.nil_append, List.nil_append] at hlines
  rw [hlines, logicalLines, logicalLines, Text.trimStart_eq_self, List.nil_append, if_neg]
  · simp [isSkipped, hhash, hbang]
  · intro d hd
    rw [← Option.some.inj hd]
    exact hblank

theorem logicalLines_fillers (fillers : List Filler) (rest : List (List Char)) :
    logicalLines none (Text.lines (Text.join ['\n'] (fillers.map Filler.chars ++ rest))) =
      logicalLines none (Text.lines (Text.join ['\n'] rest)) := by
  induction fillers with
  | nil => rfl
  | cons filler fillers ih =>
      rw [List.map_cons, List.cons_append, join_cons, logicalLines_filler, ih]

/-- The lines of a source that hold properties, as if none of them were broken. -/
theorem logicalLines_writtenLines (layout : Layout) (properties : List (String × String)) :
    logicalLines none (Text.lines (Text.join ['\n'] (writtenLines layout properties))) =
      properties.map fun p => (writtenParts p).flatten := by
  induction properties generalizing layout with
  | nil =>
      rw [writtenLines, ← List.append_nil ((layout.fillers 0).map Filler.chars),
        logicalLines_fillers]
      rfl
  | cons p properties ih =>
      obtain ⟨c, others, parts, hparts, hblank, hhash, hbang⟩ := exists_writtenParts_cons p
      obtain ⟨t, hfirst⟩ := exists_broken_cons (layout.breaks 0) c others parts
      have hwritten : ∀ x ∈ (c :: others) :: parts, Written x := fun x hx =>
        written_of_mem_writtenParts (hparts ▸ hx)
      have hread := logicalLines_broken (layout.breaks 0) hwritten
        (writtenLines layout.next properties) [] ⟨[], fun _ hc => nomatch hc⟩ [] List.not_mem_nil
        (fun _ hc => nomatch hc) (by decide)
      rw [List.nil_append, List.nil_append, List.nil_append, hfirst, List.cons_append] at hread
      rw [writtenLines, logicalLines_fillers, join_cons, hparts, hfirst, List.cons_append,
        logicalLines_first hblank hhash hbang, hread, ih, List.map_cons, hparts, List.nil_append]

/-! ## Keys and values -/

theorem isBlank_of_isSeparatorBlank {c : Char} (h : isSeparatorBlank c = true) :
    Text.isBlank c = true := by
  simp only [isSeparatorBlank, Bool.or_eq_true, beq_iff_eq] at h
  rcases h with (rfl | rfl) | h
  · decide
  · decide
  · rw [← Char.ofNat_toNat c, h]
    decide

theorem not_endsKey {c : Char} (h : isMarked c = false) : endsKey c = false := by
  obtain ⟨-, hequals, hcolon, -, -, hblank⟩ := not_isMarked h
  simp only [endsKey, Bool.or_eq_false_iff, beq_eq_false_iff_ne]
  refine ⟨⟨hequals, hcolon⟩, Bool.eq_false_iff.mpr fun hseparator => ?_⟩
  rw [isBlank_of_isSeparatorBlank hseparator] at hblank
  cases hblank

/-- The key ends at the first separator that is not written as a part of it. -/
theorem cutKey_written (key rest : List Char) :
    cutKey (key.flatMap writtenChar ++ '=' :: rest) = (key.flatMap writtenChar, '=' :: rest) := by
  induction key with
  | nil =>
      rw [List.flatMap_nil, List.nil_append, cutKey, if_pos (by decide)]
      rintro e others heq
      exact absurd heq (by decide)
  | cons c key ih =>
      rw [List.flatMap_cons, List.append_assoc]
      rcases writtenChar_cases c with ⟨e, heq, -⟩ | ⟨heq, hplain⟩
      · rw [heq, List.cons_append, List.cons_append, List.nil_append, cutKey, ih]
        rfl
      · rw [heq, List.singleton_append, cutKey, ih, not_endsKey hplain]
        · rfl
        · rintro e others hslash -
          exact (not_isMarked hplain).1 hslash

theorem dropSeparator_written (value : List Char) :
    dropSeparator ('=' :: value.flatMap writtenChar) = value.flatMap writtenChar := by
  have hfirst : (value.flatMap writtenChar).dropWhile isSeparatorBlank =
      value.flatMap writtenChar := by
    cases value with
    | nil => rfl
    | cons c value =>
        obtain ⟨d, others, heq, hd⟩ := (written_writtenChar c).exists_cons
        rw [List.flatMap_cons, heq, List.cons_append, List.dropWhile_cons_of_neg]
        intro hseparator
        rw [isBlank_of_isSeparatorBlank hseparator] at hd
        cases hd
  rw [dropSeparator, List.dropWhile_cons_of_neg (by decide)]
  exact hfirst

/-- A one-letter escape stands for one character. -/
theorem unescape_escape {e : Char} (h : e ≠ 'u') (rest : List Char) :
    unescape ('\\' :: e :: rest) = (unescape rest).map (escaped e :: ·) := by
  rw [unescape.eq_def]
  simp only [bne_self_eq_false, Bool.false_eq_true, if_false]
  split
  · contradiction
  · rename_i heq
    exact absurd (List.cons.inj heq).1 h
  · rename_i heq
    exact absurd (List.cons.inj heq).1 h
  · rename_i heq
    obtain ⟨rfl, rfl⟩ := List.cons.inj heq
    rfl

/-- What is written is resolved to what it was written for. -/
theorem unescape_written (s : List Char) : unescape (s.flatMap writtenChar) = .ok s := by
  induction s with
  | nil => rw [List.flatMap_nil, unescape]
  | cons c s ih =>
      rw [List.flatMap_cons]
      rcases writtenChar_cases c with ⟨e, heq, -, -, hu, hescaped⟩ | ⟨heq, hplain⟩
      · rw [heq, List.cons_append, List.cons_append, List.nil_append, unescape_escape hu, ih,
          hescaped]
        rfl
      · rw [heq, List.singleton_append, unescape.eq_def]
        have hslash : (c != '\\') = true := bne_iff_ne.mpr (not_isMarked hplain).1
        simp only [hslash, if_true, ih]
        rfl

theorem flatten_writtenParts (p : String × String) :
    (writtenParts p).flatten =
      p.1.toList.flatMap writtenChar ++ '=' :: p.2.toList.flatMap writtenChar := by
  simp [writtenParts, List.flatMap]

theorem property_written (p : String × String) : property (writtenParts p).flatten = .ok p := by
  rw [flatten_writtenParts, property, cutKey_written]
  simp only [unescape_written, dropSeparator_written]
  show Except.ok (String.ofList p.1.toList, String.ofList p.2.toList) = Except.ok p
  rw [String.ofList_toList, String.ofList_toList]

theorem mapM_property_written (properties : List (String × String)) :
    (properties.map fun p => (writtenParts p).flatten).mapM property = .ok properties := by
  induction properties with
  | nil => rfl
  | cons p properties ih =>
      rw [List.map_cons, List.mapM_cons, property_written, ih]
      rfl

/-- Properties that are written are read back, in order and with repetitions, wherever their lines
are broken and whatever stands between them. -/
theorem ofLines_write (layout : Layout) (properties : List (String × String)) :
    ofLines (write layout properties) = .ok properties := by
  rw [ofLines, write, String.toList_ofList, logicalLines_writtenLines, mapM_property_written]

/-- The comments end in a backslash and do not go on; the line of the property goes on behind the
blank in its key. -/
example :
    write ⟨fun _ => [.comment ⟨[], List.forall_mem_nil _⟩ '#' (.inl rfl) [' ', '\\'] (by decide)],
        fun _ i => if i = 1 then [⟨[' '], List.forall_mem_singleton.mpr (by decide)⟩] else []⟩
        [("a b", "1")] =
      "# \\\na\\ \\\n b=1\n# \\" := by
  decide

end ScriptTree.Properties
