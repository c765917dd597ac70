import ScriptTree.Proofs.Text.Parts
import ScriptTree.Script.Statement

/-!
# Where a scan stands inside a statement

The splitter scans a script line by line. Inside one statement its scan is a walk over characters
(`Standing.walk`): a quote or a bracket opens and closes, and a semicolon outside all of them has no
next place. A text on which the walk goes through is scanned in one go
(`Splitter.scan_append_of_walk`). The walk goes through each statement that the splitter gives, and
all but the last end with nothing open (`split_stands`).
-/

set_option autoImplicit false

namespace ScriptTree

namespace Script

/-- Where the scan of a statement stands: outside quotes or inside one, with a number of open
brackets. Inside a quote the character before may have been a backslash that takes the next one
along. -/
inductive Standing where
  | outside (depth : Nat)
  | inside (quote : { c : Char // isQuote c = true }) (depth : Nat) (escaped : Bool)

namespace Standing

/-- What is open. -/
def nesting : Standing → Nesting
  | .outside depth => ⟨none, depth⟩
  | .inside quote depth _ => ⟨some quote, depth⟩

@[simp] theorem nesting_outside (depth : Nat) : (outside depth).nesting = ⟨none, depth⟩ := rfl

@[simp] theorem nesting_inside (quote : { c : Char // isQuote c = true }) (depth : Nat)
    (escaped : Bool) : (inside quote depth escaped).nesting = ⟨some quote, depth⟩ := rfl

/-- No backslash takes the next character along. -/
def Plain : Standing → Prop
  | .inside _ _ true => False
  | _ => True

/-- One character on. A semicolon outside quotes and brackets belongs to no statement. -/
def next : Standing → Char → Option Standing
  | .outside depth, c =>
      if h : isQuote c = true then some (.inside ⟨c, h⟩ depth false)
      else if isOpening c then some (.outside (depth + 1))
      else if isClosing c then some (.outside (depth - 1))
      else if c == ';' && depth == 0 then none
      else some (.outside depth)
  | .inside quote depth true, _ => some (.inside quote depth false)
  | .inside quote depth false, c =>
      if c == '\\' then some (.inside quote depth true)
      else if c == quote then some (.outside depth)
      else some (.inside quote depth false)

/-- Some characters on. -/
def walk (p : Standing) (s : List Char) : Option Standing := s.foldlM next p

@[simp] theorem walk_nil (p : Standing) : p.walk [] = some p := rfl

@[simp] theorem walk_cons (p : Standing) (c : Char) (s : List Char) :
    p.walk (c :: s) = (p.next c).bind (·.walk s) := rfl

theorem walk_append (p : Standing) (s t : List Char) :
    p.walk (s ++ t) = (p.walk s).bind (·.walk t) :=
  List.foldlM_append

/-- What the walk comes to on the first part of a text. -/
theorem exists_walk_of_append {p p' : Standing} {s t : List Char}
    (h : p.walk (s ++ t) = some p') : ∃ q, p.walk s = some q ∧ q.walk t = some p' := by
  rw [walk_append] at h
  exact Option.bind_eq_some_iff.mp h

/-- Only a backslash in a quote takes the next character along. -/
theorem eq_backslash_of_next {p q : Standing} {c : Char} (hp : p.Plain) (h : p.next c = some q)
    (hq : ¬ q.Plain) :
    ∃ quote depth, p = .inside quote depth false ∧ c = '\\' ∧ q = .inside quote depth true := by
  cases p with
  | outside depth =>
      simp only [next] at h
      repeat' split at h
      all_goals
        cases h
        try exact absurd trivial hq
  | inside quote depth escaped =>
      cases escaped with
      | true => cases hp
      | false =>
          simp only [next] at h
          split at h
          · rename_i hback
            exact ⟨quote, depth, rfl, eq_of_beq hback, (Option.some.inj h).symm⟩
          · split at h
            all_goals
              obtain rfl := Option.some.inj h
              exact absurd trivial hq

theorem plain_of_next_outside {depth : Nat} {q : Standing} {c : Char}
    (h : (outside depth).next c = some q) : q.Plain := by
  by_contra hq
  obtain ⟨quote, d, hp, -⟩ := eq_backslash_of_next (p := outside depth) trivial h hq
  cases hp

/-- The walk ends at a semicolon where nothing is open. -/
theorem eq_semicolon_of_next {depth : Nat} {c : Char} (h : (outside depth).next c = none) :
    c = ';' ∧ depth = 0 := by
  simp only [next] at h
  repeat' split at h
  all_goals try cases h
  rename_i hsemicolon
  simpa using hsemicolon

/-- Inside a quote the walk always goes on. -/
theorem exists_next_inside (quote : { c : Char // isQuote c = true }) (depth : Nat) (c : Char) :
    ∃ q, (inside quote depth false).next c = some q := by
  simp only [next]
  repeat' split
  all_goals exact ⟨_, rfl⟩

/-! ### Blanks -/

theorem not_special_of_blank {c : Char} (h : Text.isBlank c = true) :
    isQuote c = false ∧ isOpening c = false ∧ isClosing c = false ∧ c ≠ ';' ∧ c ≠ '\\' := by
  -- None of the special characters is a blank.
  refine ⟨?_, ?_, ?_, ?_, ?_⟩
  · by_contra hc
    simp only [isQuote, Bool.not_eq_false, Bool.or_eq_true, beq_iff_eq] at hc
    rcases hc with rfl | rfl <;> exact absurd h (by decide)
  · by_contra hc
    simp only [isOpening, Bool.not_eq_false, Bool.or_eq_true, beq_iff_eq] at hc
    rcases hc with (rfl | rfl) | rfl <;> exact absurd h (by decide)
  · by_contra hc
    simp only [isClosing, Bool.not_eq_false, Bool.or_eq_true, beq_iff_eq] at hc
    rcases hc with (rfl | rfl) | rfl <;> exact absurd h (by decide)
  · rintro rfl
    exact absurd h (by decide)
  · rintro rfl
    exact absurd h (by decide)

theorem next_outside_of_blank (depth : Nat) {c : Char} (h : Text.isBlank c = true) :
    (outside depth).next c = some (outside depth) := by
  obtain ⟨hquote, hopening, hclosing, hsemicolon, -⟩ := not_special_of_blank h
  simp [next, hquote, hopening, hclosing, hsemicolon]

/-- A blank opens and closes nothing, and no backslash reaches over it. -/
theorem exists_next_of_blank (p : Standing) {c : Char} (h : Text.isBlank c = true) :
    ∃ p', p.next c = some p' ∧ p'.nesting = p.nesting ∧ p'.Plain := by
  cases p with
  | outside depth => exact ⟨_, next_outside_of_blank depth h, rfl, trivial⟩
  | inside quote depth escaped =>
      refine ⟨.inside quote depth false, ?_, rfl, trivial⟩
      cases escaped with
      | true => rfl
      | false =>
          obtain ⟨hquote, -, -, -, hbackslash⟩ := not_special_of_blank h
          have hne : c ≠ quote.1 := by
            rintro rfl
            simp [quote.2] at hquote
          simp [next, hbackslash, hne]

theorem exists_walk_of_blanks (p : Standing) {g : List Char}
    (hg : ∀ c ∈ g, Text.isBlank c = true) : ∃ p', p.walk g = some p' ∧ p'.nesting = p.nesting := by
  induction g generalizing p with
  | nil => exact ⟨p, rfl, rfl⟩
  | cons c g ih =>
      obtain ⟨q, hq, hnesting, -⟩ := exists_next_of_blank p (hg c List.mem_cons_self)
      obtain ⟨p', hp', hrest⟩ := ih q fun d hd => hg d (List.mem_cons_of_mem _ hd)
      exact ⟨p', by simp [hq, hp'], hrest.trans hnesting⟩

theorem walk_outside_blanks (depth : Nat) {g : List Char}
    (hg : ∀ c ∈ g, Text.isBlank c = true) : (outside depth).walk g = some (outside depth) := by
  induction g with
  | nil => rfl
  | cons c g ih =>
      rw [walk_cons, next_outside_of_blank depth (hg c List.mem_cons_self)]
      exact ih fun d hd => hg d (List.mem_cons_of_mem _ hd)

/-- Outside quotes the blanks at the ends of a text open and close nothing. -/
theorem exists_walk_trim {depth : Nat} {s : List Char} {p : Standing}
    (h : (outside depth).walk s = some p) :
    ∃ p', (outside depth).walk (Text.trim s) = some p' ∧ p'.nesting = p.nesting := by
  obtain ⟨before, hb, hbefore⟩ := Text.exists_trimStart_eq s
  obtain ⟨after, ha, hafter⟩ := Text.exists_trimEnd_eq (Text.trimStart s)
  rw [← hbefore, walk_append, walk_outside_blanks depth hb] at h
  obtain ⟨p', hp', hrest⟩ := exists_walk_of_append (hafter.symm ▸ h)
  obtain ⟨q, hq, hnesting⟩ := exists_walk_of_blanks p' ha
  rw [hq] at hrest
  obtain rfl := Option.some.inj hrest
  exact ⟨p', hp', hnesting.symm⟩

theorem eq_outside_of_nesting {p : Standing} {depth : Nat} (h : p.nesting = ⟨none, depth⟩) :
    p = outside depth := by
  cases p with
  | outside d => simpa using h
  | inside quote d escaped => simp at h

theorem eq_outside_of_not_isOpen {p : Standing} (h : p.nesting.isOpen = false) :
    p = outside 0 := by
  cases p with
  | outside d => simpa [Nesting.isOpen] using h
  | inside quote d escaped => simp [Nesting.isOpen] at h

end Standing

/-! ## Scanning along a walk -/

namespace Splitter

open Standing

variable {s : Splitter}

@[simp] theorem scan_nil (s : Splitter) : s.scan [] = s := rfl

/-- A character outside quotes that the walk takes is added to the statement under way. -/
theorem outside_of_next {depth : Nat} {c : Char} {q : Standing}
    (hs : s.nesting = ⟨none, depth⟩) (h : (Standing.outside depth).next c = some q) :
    s.outside c = { s.push c with nesting := q.nesting } := by
  simp only [next] at h
  simp only [outside, hs]
  -- The splitter asks what the character is in the same order.
  split at h
  · rename_i hquote
    obtain rfl := Option.some.inj h
    rw [if_pos hquote, nesting_inside]
  · rename_i hquote
    rw [if_neg hquote]
    split at h
    · rename_i hopening
      obtain rfl := Option.some.inj h
      rw [if_pos hopening, nesting_outside]
    · rename_i hopening
      rw [if_neg hopening]
      split at h
      · rename_i hclosing
        obtain rfl := Option.some.inj h
        rw [if_pos hclosing, nesting_outside]
      · rename_i hclosing
        rw [if_neg hclosing]
        split at h
        · cases h
        · rename_i hsemicolon
          obtain rfl := Option.some.inj h
          rw [if_neg hsemicolon, push, hs, nesting_outside]

/-- A semicolon where nothing is open ends the statement under way. -/
theorem outside_semicolon (hs : s.nesting = ⟨none, 0⟩) : s.outside ';' = s.flush := by
  simp [outside, isQuote, isOpening, isClosing, hs]

/-- A character inside a quote other than a backslash. -/
theorem inside_of_next {quote : { c : Char // isQuote c = true }} {depth : Nat} {c : Char}
    {q : Standing} (hs : s.nesting = ⟨some quote, depth⟩) (hback : ¬(c == '\\') = true)
    (h : (Standing.inside quote depth false).next c = some q) :
    s.inside quote c = { s.push c with nesting := q.nesting } ∧ q.Plain := by
  simp only [next] at h
  rw [if_neg hback] at h
  rw [inside]
  split at h
  · rename_i hclose
    obtain rfl := Option.some.inj h
    simp only [hs, if_pos hclose, nesting_outside]
    exact ⟨trivial, trivial⟩
  · rename_i hclose
    obtain rfl := Option.some.inj h
    rw [if_neg hclose, push, hs, nesting_inside]
    exact ⟨rfl, trivial⟩

/-- A character that the walk takes is added to the statement under way, unless it is a backslash in
a quote. -/
theorem scan_cons_of_next {p q : Standing} {c : Char} (hs : s.nesting = p.nesting)
    (hp : p.Plain) (h : p.next c = some q) (hq : q.Plain) (rest : List Char) :
    s.scan (c :: rest) = Splitter.scan { s.push c with nesting := q.nesting } rest := by
  rw [scan.eq_def]
  cases p with
  | outside depth => simp only [hs, nesting_outside, outside_of_next hs h]
  | inside quote depth escaped =>
      cases escaped with
      | true => cases hp
      | false =>
          by_cases hback : (c == '\\') = true
          · simp only [next, if_pos hback, Option.some.injEq] at h
            subst h
            cases hq
          · simp only [hs, nesting_inside]
            rw [if_neg hback, (inside_of_next hs hback h).1]

/-- A backslash in a quote takes the next character along. -/
theorem scan_escape {quote : { c : Char // isQuote c = true }} {depth : Nat}
    (hs : s.nesting = ⟨some quote, depth⟩) (e : Char) (rest : List Char) :
    s.scan ('\\' :: e :: rest) = ((s.push '\\').push e).scan rest := by
  rw [scan]
  simp [hs]

/-- Characters that the walk takes are added to the statement under way. Only at the end of the line
may a backslash be left over. -/
theorem scan_append_of_walk {p p' : Standing} {taken : List Char} (hp : p.Plain)
    (h : p.walk taken = some p') (rest : List Char) (hend : p'.Plain ∨ rest = [])
    (s : Splitter) (hs : s.nesting = p.nesting) :
    s.scan (taken ++ rest) =
      Splitter.scan { s with current := taken.reverse ++ s.current, nesting := p'.nesting } rest :=
  match taken with
  | [] => by
      obtain rfl := Option.some.inj h
      rw [← hs]
      rfl
  | c :: taken => by
      rw [walk_cons] at h
      obtain ⟨q, hnext, hwalk⟩ := Option.bind_eq_some_iff.mp h
      rw [List.cons_append]
      by_cases hq : q.Plain
      · rw [scan_cons_of_next hs hp hnext hq, scan_append_of_walk hq hwalk rest hend _ rfl]
        simp [push]
      · -- The character is a backslash in a quote, and the walk takes one more with it.
        obtain ⟨quote, depth, rfl, rfl, rfl⟩ := eq_backslash_of_next hp hnext hq
        cases taken with
        | nil =>
            obtain rfl := Option.some.inj hwalk
            rcases hend with hfalse | rfl
            · exact absurd hfalse hq
            · rw [List.nil_append, scan.eq_def]
              simp [push, hs]
        | cons e taken =>
            have hrest := scan_append_of_walk (p := .inside quote depth false) trivial hwalk rest
              hend ((s.push '\\').push e) hs
            rw [List.cons_append, scan_escape hs, hrest]
            simp [push]
  termination_by taken.length

end Splitter

/-! ## Statements -/

/-- A statement as the splitter gives it, with where the scan stands behind it: it has no blanks at
its ends, and no semicolon ends it before that. -/
structure Stands (t : List Char) (p : Standing) : Prop where
  nonempty : t ≠ []
  trimmed : Text.trim t = t
  walk : (Standing.outside 0).walk t = some p

/-- The statements that have ended stand closed, and the scan of the one under way stands at `p`. -/
structure Splitter.At (s : Splitter) (p : Standing) : Prop where
  ended : ∀ t ∈ s.ended, Stands t (.outside 0)
  walk : (Standing.outside 0).walk s.current.reverse = some p
  nesting : s.nesting = p.nesting

/-- What ends at a place is a statement that stands there, or blanks alone. -/
theorem stands_trim {s : List Char} {p : Standing}
    (hwalk : (Standing.outside 0).walk s = some p) :
    Text.trim s = [] ∨ ∃ p', Stands (Text.trim s) p' ∧ p'.nesting = p.nesting := by
  by_cases hempty : Text.trim s = []
  · exact .inl hempty
  · obtain ⟨p', hp', hnesting⟩ := Standing.exists_walk_trim hwalk
    exact .inr ⟨p', ⟨hempty, Text.trim_trim s, hp'⟩, hnesting⟩

namespace Splitter

open Standing

variable {s : Splitter} {p : Standing}

theorem at_start : start.At (.outside 0) where
  ended := by simp [start]
  walk := rfl
  nesting := rfl

theorem At.push {q : Standing} {c : Char} (h : s.At p) (hq : p.next c = some q) :
    Splitter.At { s.push c with nesting := q.nesting } q where
  ended := h.ended
  walk := by
    show (Standing.outside 0).walk (c :: s.current).reverse = _
    rw [List.reverse_cons, walk_append, h.walk]
    simp [hq]
  nesting := rfl

theorem At.push_same {q : Standing} {c : Char} (h : s.At p) (hq : p.next c = some q)
    (hsame : q.nesting = p.nesting) : (s.push c).At q := by
  have hpush := h.push hq
  rw [hsame, ← h.nesting] at hpush
  exact hpush

/-- In a quote the scan stands in that quote. -/
theorem eq_inside_of_quote {q : Char} (h : s.nesting = p.nesting) (hp : p.Plain)
    (hquote : s.nesting.quote = some q) :
    ∃ quote depth, p = .inside quote depth false ∧ q = quote.1 := by
  rw [h] at hquote
  cases p with
  | outside depth => cases hquote
  | inside quote depth escaped =>
      cases escaped with
      | true => cases hp
      | false => exact ⟨quote, depth, rfl, (Option.some.inj hquote).symm⟩

/-- Ending the statement under way where nothing is open. -/
theorem At.flush (h : s.At (.outside 0)) : s.flush.At (.outside 0) where
  ended := by
    intro t ht
    simp only [Splitter.flush] at ht
    split at ht
    · exact h.ended t ht
    · rename_i hnonempty
      rcases List.mem_cons.mp ht with rfl | ht
      · rcases stands_trim h.walk with hnone | ⟨p', hstands, hnesting⟩
        · simp [hnone] at hnonempty
        · obtain rfl := eq_outside_of_nesting hnesting
          exact hstands
      · exact h.ended t ht
  walk := rfl
  nesting := h.nesting

/-- Characters of a line are scanned to some place. -/
theorem At.scan {cs : List Char} (h : s.At p) (hp : p.Plain) : ∃ q, (s.scan cs).At q := by
  fun_induction Splitter.scan s cs generalizing p with
  | case1 s => exact ⟨p, h⟩
  | case2 s c rest hquote ih =>
      cases p with
      | inside quote depth escaped => simp [h.nesting] at hquote
      | outside depth =>
          cases hnext : (Standing.outside depth).next c with
          | some q =>
              rw [outside_of_next h.nesting hnext] at ih ⊢
              exact ih (h.push hnext) (plain_of_next_outside hnext)
          | none =>
              -- Only a semicolon where nothing is open ends the walk, and there the statement.
              obtain ⟨rfl, rfl⟩ := eq_semicolon_of_next hnext
              rw [outside_semicolon h.nesting] at ih ⊢
              exact ih h.flush trivial
  | case3 s c q hquote hback =>
      obtain ⟨quote, depth, rfl, -⟩ := eq_inside_of_quote h.nesting hp hquote
      obtain rfl := eq_of_beq hback
      exact ⟨.inside quote depth true, h.push_same rfl rfl⟩
  | case4 s c q hquote hback e rest ih =>
      obtain ⟨quote, depth, rfl, -⟩ := eq_inside_of_quote h.nesting hp hquote
      obtain rfl := eq_of_beq hback
      have hescape : (s.push '\\').At (.inside quote depth true) := h.push_same rfl rfl
      have hescaped : ((s.push '\\').push e).At (.inside quote depth false) :=
        hescape.push_same rfl rfl
      exact ih hescaped trivial
  | case5 s c rest q hquote hback ih =>
      obtain ⟨quote, depth, rfl, rfl⟩ := eq_inside_of_quote h.nesting hp hquote
      obtain ⟨q', hnext⟩ := exists_next_inside quote depth c
      obtain ⟨hinside, hplain⟩ := inside_of_next h.nesting hback hnext
      rw [hinside] at ih ⊢
      exact ih (h.push hnext) hplain

/-- What closes with a line is flushed at its end. -/
theorem exists_at_end {s : Splitter} (h : ∃ q, s.At q) :
    ∃ q, (if s.nesting.isOpen then s else s.flush).At q := by
  obtain ⟨q, hq⟩ := h
  split
  · exact ⟨q, hq⟩
  · rename_i hclosed
    rw [hq.nesting, Bool.not_eq_true] at hclosed
    obtain rfl := eq_outside_of_not_isOpen hclosed
    exact ⟨_, hq.flush⟩

/-- A line is taken to some place. -/
theorem At.line (h : s.At p) (raw : List Char) : ∃ q, (s.line raw).At q := by
  rw [Splitter.line]
  split
  · -- The blank between the lines reaches the next line without a backslash left over.
    obtain ⟨q, hq, hnesting, hplain⟩ := exists_next_of_blank p (c := ' ') (by decide)
    exact exists_at_end ((h.push_same hq hnesting).scan hplain)
  · rename_i hclosed
    rw [h.nesting, Bool.not_eq_true] at hclosed
    obtain rfl := eq_outside_of_not_isOpen hclosed
    split
    · exact ⟨_, h⟩
    · exact exists_at_end (h.scan trivial)

theorem At.lines (h : s.At p) (raws : List (List Char)) :
    ∃ q, (raws.foldl Splitter.line s).At q := by
  induction raws generalizing s p with
  | nil => exact ⟨p, h⟩
  | cons raw raws ih =>
      obtain ⟨q, hq⟩ := h.line raw
      exact ih hq

end Splitter

/-- The statements of a text stand closed, but for the last one, which may stand open. -/
theorem split_stands (text : List Char) :
    ∃ closed last, split text = closed ++ last ∧ (∀ t ∈ closed, Stands t (.outside 0)) ∧
      (last = [] ∨ ∃ t p, last = [t] ∧ Stands t p) := by
  obtain ⟨p, hat⟩ := Splitter.at_start.lines (Text.lines text)
  generalize hs : (Text.lines text).foldl Splitter.line Splitter.start = s at hat
  have hclosed : ∀ t ∈ s.ended.reverse, Stands t (.outside 0) :=
    fun t ht => hat.ended t (List.mem_reverse.mp ht)
  rw [split, hs, Splitter.flush]
  rcases stands_trim hat.walk with hnone | ⟨p', hstands, -⟩
  · exact ⟨s.ended.reverse, [], by simp [hnone], hclosed, .inl rfl⟩
  · refine ⟨s.ended.reverse, [Text.trim s.current.reverse], ?_, hclosed, .inr ⟨_, p', rfl, hstands⟩⟩
    simp [hstands.nonempty]

theorem mem_statements {text s : String} :
    s ∈ statements text ↔ s.toList ∈ split text.toList := by
  constructor
  · intro h
    obtain ⟨t, ht, rfl⟩ := List.mem_map.mp h
    rwa [String.toList_ofList]
  · intro h
    exact List.mem_map.mpr ⟨s.toList, h, String.ofList_toList⟩

theorem exists_stands_of_mem {text t : List Char} (h : t ∈ split text) : ∃ p, Stands t p := by
  obtain ⟨closed, last, hsplit, hclosed, hlast⟩ := split_stands text
  rw [hsplit] at h
  rcases List.mem_append.mp h with hmem | hmem
  · exact ⟨_, hclosed t hmem⟩
  · rcases hlast with rfl | ⟨t', p, rfl, hstands⟩
    · cases hmem
    · rw [List.mem_singleton] at hmem
      exact ⟨p, hmem ▸ hstands⟩

/-- Only the last statement may stand open. -/
theorem stands_of_mem_dropLast {text t : List Char} (h : t ∈ (split text).dropLast) :
    Stands t (.outside 0) := by
  obtain ⟨closed, last, hsplit, hclosed, hlast⟩ := split_stands text
  rw [hsplit] at h
  rcases hlast with rfl | ⟨t', p, rfl, -⟩
  · rw [List.append_nil] at h
    exact hclosed t (List.dropLast_subset closed h)
  · rw [List.dropLast_concat] at h
    exact hclosed t h

end Script

end ScriptTree
