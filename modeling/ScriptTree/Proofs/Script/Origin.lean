import ScriptTree.Proofs.Script.Standing

/-!
# What statements have from their lines

The characters of a statement are those of its lines, with a blank where one line goes on in the
next. So a property of texts that passes to starts and to trimmed texts passes from the lines to the
statements, once it passes over such a blank and to what stands behind a semicolon
(`Handed.split`). Three properties do: a statement has no line feed (`not_mem_of_mem_split`), it has
no two characters in a row that its text does not have (`not_infix_of_mem_split`), and it starts
with `#` only behind a semicolon (`exists_commented`).
-/

set_option autoImplicit false

namespace ScriptTree

namespace Script

/-- A line that starts so is dropped outside of a statement. -/
def isComment (s : List Char) : Bool := s.head? == some '#'

/-- A property that passes to the starts of a text and to what trimming leaves of it. -/
structure Handed (P : List Char → Prop) : Prop where
  nil : P []
  start : ∀ {s t : List Char}, P (s ++ t) → P s
  trim : ∀ {s : List Char}, P s → P (Text.trim s)

/-- A line from which statements have the property: one that starts with the line, one that starts
behind a semicolon in it, and one that was under way before the line. -/
structure Gives (P : List Char → Prop) (line : List Char) : Prop where
  fresh : isComment line = false → P line
  behind : ∀ before after, line = before ++ ';' :: after → P after
  onward : ∀ s, (∃ c ∈ s, Text.isBlank c = false) → P s → P (s ++ ' ' :: line)

/-- The statements that have ended and the one under way have the property, and where nothing is
open none is under way. -/
structure Splitter.Has (P : List Char → Prop) (s : Splitter) : Prop where
  ended : ∀ t ∈ s.ended, P t
  current : P s.current.reverse
  fresh : s.nesting.isOpen = false → s.current = []

/-- What is open was opened by a character that is no blank. -/
theorem Splitter.At.exists_dark {s : Splitter} {p : Standing} (h : s.At p)
    (hopen : s.nesting.isOpen = true) : ∃ c ∈ s.current.reverse, Text.isBlank c = false := by
  by_contra hnone
  have hblank : ∀ c ∈ s.current.reverse, Text.isBlank c = true := by simpa using hnone
  have hwalk := h.walk
  rw [Standing.walk_outside_blanks 0 hblank] at hwalk
  obtain rfl := Option.some.inj hwalk
  simp [h.nesting, Nesting.isOpen] at hopen

namespace Handed

variable {P : List Char → Prop} {s : Splitter}

theorem flush (hP : Handed P) (hended : ∀ t ∈ s.ended, P t) (hcurrent : P s.current.reverse) :
    ∀ t ∈ s.flush.ended, P t := by
  intro t ht
  simp only [Splitter.flush] at ht
  split at ht
  · exact hended t ht
  · rcases List.mem_cons.mp ht with rfl | ht
    · exact hP.trim hcurrent
    · exact hended t ht

/-- A character outside quotes is a semicolon that ends the statement under way, or joins it. -/
theorem outside_eq (s : Splitter) (c : Char) :
    (c = ';' ∧ s.outside c = s.flush) ∨ ∃ n, s.outside c = { s.push c with nesting := n } := by
  by_cases hends : s.outside c = s.flush ∧ c = ';'
  · exact .inl hends.symm
  · right
    rw [Splitter.outside] at hends ⊢
    repeat' split
    all_goals try exact ⟨_, rfl⟩
    simp_all

theorem inside_eq (s : Splitter) (q c : Char) :
    ∃ n, s.inside q c = { s.push c with nesting := n } := by
  rw [Splitter.inside]
  split
  all_goals exact ⟨_, rfl⟩

/-- Scanning characters: the statement under way goes on in them, and others start behind the
semicolons. -/
theorem scan (hP : Handed P) {cs : List Char} (hended : ∀ t ∈ s.ended, P t)
    (hcs : P (s.current.reverse ++ cs))
    (hbehind : ∀ before after, cs = before ++ ';' :: after → P after) :
    (∀ t ∈ (s.scan cs).ended, P t) ∧ P (s.scan cs).current.reverse := by
  fun_induction Splitter.scan s cs with
  | case1 s => exact ⟨hended, by simpa using hcs⟩
  | case2 s c rest hquote ih =>
      have hrest : ∀ before after, rest = before ++ ';' :: after → P after :=
        fun before after h => hbehind (c :: before) after (by simp [h])
      rcases outside_eq s c with ⟨rfl, hflush⟩ | ⟨n, hpush⟩
      · rw [hflush] at ih ⊢
        exact ih (hP.flush hended (hP.start hcs)) (hbehind [] rest rfl) hrest
      · rw [hpush] at ih ⊢
        exact ih hended (by simpa [Splitter.push] using hcs) hrest
  | case3 s c q hquote hback => exact ⟨hended, by simpa [Splitter.push] using hcs⟩
  | case4 s c q hquote hback e rest ih =>
      refine ih hended (by simpa [Splitter.push] using hcs) fun before after h => ?_
      exact hbehind (c :: e :: before) after (by simp [h])
  | case5 s c rest q hquote hback ih =>
      obtain ⟨n, hpush⟩ := inside_eq s q c
      rw [hpush] at ih ⊢
      refine ih hended (by simpa [Splitter.push] using hcs) fun before after h => ?_
      exact hbehind (c :: before) after (by simp [h])

theorem line (hP : Handed P) {raw : List Char} {p : Standing} (h : s.Has P) (hat : s.At p)
    (hraw : Gives P (Text.trim raw)) : (s.line raw).Has P := by
  -- At the end of the line the statement under way goes on or ends.
  have hend : ∀ s' : Splitter, (∀ t ∈ s'.ended, P t) ∧ P s'.current.reverse →
      (if s'.nesting.isOpen then s' else s'.flush).Has P := by
    rintro s' ⟨hended, hcurrent⟩
    split
    · rename_i hopen
      exact ⟨hended, hcurrent, by simp [hopen]⟩
    · exact ⟨hP.flush hended hcurrent, hP.nil, fun _ => rfl⟩
  rw [Splitter.line]
  split
  · rename_i hopen
    refine hend _ (hP.scan h.ended ?_ hraw.behind)
    simpa [Splitter.push] using hraw.onward _ (hat.exists_dark hopen) h.current
  · rename_i hclosed
    split
    · exact h
    · rename_i hkept
      have hcomment : isComment (Text.trim raw) = false := by
        simp only [Bool.or_eq_true, not_or, Bool.not_eq_true] at hkept
        exact hkept.2
      refine hend _ (hP.scan h.ended ?_ hraw.behind)
      rw [h.fresh (by simpa using hclosed)]
      exact hraw.fresh hcomment

/-- What every line gives, every statement has. -/
theorem split (hP : Handed P) {text : List Char}
    (h : ∀ raw ∈ Text.lines text, Gives P (Text.trim raw)) : ∀ t ∈ Script.split text, P t := by
  have hfold : ∀ (raws : List (List Char)) (s : Splitter) (p : Standing),
      (∀ raw ∈ raws, Gives P (Text.trim raw)) → s.Has P → s.At p →
        (raws.foldl Splitter.line s).Has P := by
    intro raws
    induction raws with
    | nil => exact fun _ _ _ hs _ => hs
    | cons raw raws ih =>
        intro s p hraws hs hat
        obtain ⟨q, hat'⟩ := hat.line raw
        exact ih _ q (fun other hother => hraws other (List.mem_cons_of_mem raw hother))
          (hP.line hs hat (hraws raw List.mem_cons_self)) hat'
  have hstart : Splitter.start.Has P := ⟨by simp [Splitter.start], hP.nil, fun _ => rfl⟩
  have hall := hfold _ _ _ h hstart Splitter.at_start
  intro t ht
  exact hP.flush hall.ended hall.current t (List.mem_reverse.mp ht)

end Handed

/-! ## Parts of a text -/

/-- A property that passes to the parts of a text, and to two texts joined by a blank. -/
structure Inherited (P : List Char → Prop) : Prop where
  part : ∀ {s t : List Char}, s <:+: t → P t → P s
  joined : ∀ {s t : List Char}, P s → P t → P (s ++ ' ' :: t)

/-- What every line has, every statement has. -/
theorem Inherited.split {P : List Char → Prop} (hP : Inherited P) {text : List Char} (hnil : P [])
    (h : ∀ raw ∈ Text.lines text, P raw) : ∀ t ∈ Script.split text, P t := by
  have hhanded : Handed P := by
    refine ⟨hnil, fun hst => hP.part ⟨[], _, rfl⟩ hst, fun hs => hP.part (Text.trim_infix _) hs⟩
  refine hhanded.split fun raw hraw => ?_
  have htrim : P (Text.trim raw) := hP.part (Text.trim_infix raw) (h raw hraw)
  refine ⟨fun _ => htrim, fun before after hafter => ?_, fun s _ hs => hP.joined hs htrim⟩
  rw [hafter] at htrim
  exact hP.part ⟨before ++ [';'], [], by simp⟩ htrim

/-- A statement is one line. -/
theorem not_mem_of_mem_split {text t : List Char} (h : t ∈ split text) : '\n' ∉ t := by
  have hP : Inherited fun s => '\n' ∉ s := by
    constructor
    · exact fun hpart ht hs => ht (hpart.subset hs)
    · intro s t hs ht
      simp [hs, ht]
  exact hP.split (by simp) (fun raw => Text.not_mem_lines text raw) t h

/-- Two characters in a row of a statement, none of them a blank between two lines, are in a row in
its text. -/
theorem not_infix_of_mem_split {text t : List Char} {a b : Char} (ha : a ≠ ' ') (hb : b ≠ ' ')
    (hab : ¬ [a, b] <:+: text) (h : t ∈ split text) : ¬ [a, b] <:+: t := by
  have hP : Inherited fun s => ¬ [a, b] <:+: s := by
    constructor
    · exact fun hpart ht hs => ht (hs.trans hpart)
    · exact fun hs ht hjoined => (Text.pair_infix_joined ha hb hjoined).elim hs ht
  exact hP.split (by simp) (fun raw hraw hpart => hab (hpart.trans (Text.infix_of_mem_lines hraw)))
    t h

/-! ## Comments -/

/-- A line with a semicolon and, behind it and blanks, a `#`. -/
def Commented (line : List Char) : Prop :=
  ∃ before after, line = before ++ ';' :: after ∧ (Text.trimStart after).head? = some '#'

/-- A statement reads as a comment only where its line has a `#` behind a semicolon. -/
theorem exists_commented {text t : List Char} (h : t ∈ split text) (hcomment : isComment t = true) :
    ∃ line ∈ Text.lines text, Commented line := by
  by_contra hnone
  have hplain : ∀ line ∈ Text.lines text, ¬ Commented line := by simpa using hnone
  -- Behind blanks no text of the scan starts with the character.
  have hP : Handed fun s => (Text.trimStart s).head? ≠ some '#' := by
    constructor
    · simp [Text.trimStart]
    · intro s t hst hs
      rw [Text.head?_trimStart_append (Text.exists_dark_of_head?_trimStart hs)] at hst
      exact hst hs
    · intro s hs htrim
      have hself : Text.trimStart (Text.trim s) = Text.trim s :=
        Text.trimStart_eq_self fun c => Text.isBlank_head_of_trim (Text.trim_trim s)
      rw [hself, Text.head?_trim] at htrim
      exact hs htrim
  have hgives : ∀ raw ∈ Text.lines text,
      Gives (fun s => (Text.trimStart s).head? ≠ some '#') (Text.trim raw) := by
    intro raw hraw
    refine ⟨fun hkept hhead => ?_, fun before after hafter hhead => ?_, fun s hdark hs => ?_⟩
    · have hself : Text.trimStart (Text.trim raw) = Text.trim raw :=
        Text.trimStart_eq_self fun c => Text.isBlank_head_of_trim (Text.trim_trim raw)
      rw [hself] at hhead
      simp [isComment, hhead] at hkept
    · obtain ⟨front, back, hfront⟩ := Text.trim_infix raw
      refine hplain raw hraw ⟨front ++ before, after ++ back, ?_, ?_⟩
      · rw [hafter] at hfront
        simp [← hfront]
      · by_contra hback
        exact hP.start hback hhead
    · rwa [Text.head?_trimStart_append hdark]
  refine hP.split hgives t h ?_
  obtain ⟨p, hstands⟩ := exists_stands_of_mem h
  rw [Text.trimStart_eq_self fun c => Text.isBlank_head_of_trim hstands.trimmed]
  simpa [isComment] using hcomment

end Script

end ScriptTree
