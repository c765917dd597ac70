import ScriptTree.Proofs.Expr.Printing
import ScriptTree.Proofs.Reading.Finding
import ScriptTree.Proofs.Script.Separation

/-!
# Dotted paths as expressions

A path of an identifier and further segments, which are identifiers and list positions, has the same
names for the reader of paths (`pathNames_path`) as for the parser, which takes it for a chain of
members (`parse_path`). The lexer takes two positions with a point between them for a decimal, and a
position of more than 63 bits for a double, so no position may follow another one (`Segment.Apart`).
-/

set_option autoImplicit false

namespace ScriptTree.Expr

/-- A part of a path behind the first one. -/
inductive Segment where
  | name (s : String)
  /-- A position in a list. -/
  | position (k : Nat)
  deriving DecidableEq, Repr

namespace Segment

/-- The segment in a path. -/
def text : Segment → String
  | name s => s
  | position k => toString k

/-- The token of the segment. -/
def token : Segment → Token
  | name s => .word s
  | position k => .int k

/-- The name is an identifier, and the position has 63 bits at most. -/
def Sound : Segment → Prop
  | name s => IsIdentifier s
  | position k => k < 0x8000000000000000

/-- One of the segments is no position. -/
def Apart : Segment → Segment → Prop
  | position _, position _ => False
  | _, _ => True

instance : DecidableRel Apart
  | position _, position _ => .isFalse id
  | name _, _ | position _, name _ => .isTrue trivial

end Segment

/-- The segments with a point in front of each. -/
def dotted (segments : List Segment) : List Char := segments.flatMap fun s => '.' :: s.text.toList

/-- The path of an identifier and segments. -/
def path (first : String) (segments : List Segment) : String :=
  ".".intercalate (first :: segments.map Segment.text)

/-- The part that a chain of segments leads to from the value of an expression. -/
def along (e : Expr) (segments : List Segment) : Expr :=
  segments.foldl (fun e s => .member e s.text) e

variable {x : String} {segments : List Segment}

theorem toList_path (x : String) (segments : List Segment) :
    (path x segments).toList = x.toList ++ dotted segments := by
  rw [path]
  induction segments generalizing x with
  | nil => simp [dotted]
  | cons s segments ih =>
      rw [List.map_cons, String.intercalate_cons_cons, String.toList_append, String.toList_append,
        ih, dotted, dotted, List.flatMap_cons]
      simp

/-! ## Names -/

theorem IsIdentifier.isBlank (hx : IsIdentifier x) {c : Char} (hc : c ∈ x.toList) :
    Text.isBlank c = false := by
  by_contra hblank
  rw [Bool.not_eq_false] at hblank
  exact hx.notMem (startsWord_of_isBlank hblank) (continuesWord_of_isBlank hblank) hc

theorem IsIdentifier.plainKey (hx : IsIdentifier x) : PlainKey x := by
  refine ⟨?_, hx.notMem (by decide +kernel) (by decide +kernel), ?_⟩
  · rintro rfl
    obtain ⟨first, others, hlist, -⟩ := hx
    cases hlist
  · exact Text.trim_eq_self (fun c hc => hx.isBlank (List.mem_of_head? hc))
      (fun c hc => hx.isBlank (List.mem_of_getLast? hc))

namespace Segment

variable {s : Segment}

theorem isBlank (hs : s.Sound) {c : Char} (hc : c ∈ s.text.toList) : Text.isBlank c = false := by
  cases s with
  | name x => exact IsIdentifier.isBlank hs hc
  | position k => exact isBlank_of_isDigit (isDigit_of_mem_toString hc)

theorem plainKey (hs : s.Sound) : PlainKey s.text := by
  cases s with
  | name x => exact IsIdentifier.plainKey hs
  | position k =>
      refine ⟨?_, fun hpoint => ?_, ?_⟩
      · intro hempty
        obtain ⟨c, others, hlist, -⟩ := exists_toString_eq_cons k
        rw [show toString k = "" from hempty] at hlist
        cases hlist
      · exact absurd (isDigit_of_mem_toString hpoint) (by decide)
      · exact Text.trim_eq_self (fun c hc => isBlank hs (List.mem_of_head? hc))
          (fun c hc => isBlank hs (List.mem_of_getLast? hc))

end Segment

theorem pathNames_path (hx : IsIdentifier x) (hsound : ∀ s ∈ segments, s.Sound) :
    NodeId.pathNames (path x segments) = x :: segments.map Segment.text := by
  refine NodeId.pathNames_intercalate fun key hkey => ?_
  rcases List.mem_cons.mp hkey with rfl | hkey
  · exact hx.plainKey
  · obtain ⟨s, hs, rfl⟩ := List.mem_map.mp hkey
    exact Segment.plainKey (hsound s hs)

/-! ## Tokens -/

/-- What stands behind a segment ends the word. -/
theorem continuesWord_of_head?_dotted (segments : List Segment) :
    ∀ c ∈ (dotted segments).head?, continuesWord c = false := by
  cases segments with
  | nil => rintro c ⟨⟩
  | cons s segments =>
      rintro c ⟨⟩
      decide +kernel

/-- What stands behind a position ends the number unless it is another position. -/
theorem endsNumber_dotted (hsound : ∀ s ∈ segments, s.Sound)
    (hname : ∀ s ∈ segments.head?, ∃ y, s = .name y) : EndsNumber (dotted segments) := by
  cases segments with
  | nil => exact ⟨by rintro c ⟨⟩, rfl, rfl⟩
  | cons s segments =>
      obtain ⟨y, rfl⟩ := hname s rfl
      obtain ⟨first, others, hlist, hword⟩ :=
        IsIdentifier.wordlike (hsound (.name y) List.mem_cons_self)
      have hdotted : dotted (.name y :: segments) =
          '.' :: first :: (others ++ dotted segments) := by
        simp [dotted, Segment.text, hlist]
      refine ⟨?_, ?_, ?_⟩
      · rw [hdotted]
        rintro c ⟨⟩
        decide
      · rw [hdotted]
        simp [takeFraction, hword.noDigit]
      · rw [hdotted]
        rfl

/-- The lexer takes a segment from the front of the others. -/
theorem Segment.firstToken {s : Segment} (hs : s.Sound) (hsound : ∀ t ∈ segments, t.Sound)
    (hapart : ∀ t ∈ segments.head?, s.Apart t) :
    ∃ c others, s.text.toList = c :: others ∧ Text.isBlank c = false ∧
      ∀ place, firstToken place c (others ++ dotted segments) = .ok (s.token, dotted segments) := by
  cases s with
  | name y =>
      obtain ⟨c, others, hlist, hword⟩ := IsIdentifier.wordlike hs
      exact ⟨c, others, hlist, hword.dark,
        firstToken_word hlist hword (continuesWord_of_head?_dotted segments)⟩
  | position k =>
      have hends : EndsNumber (dotted segments) := by
        refine endsNumber_dotted hsound fun t ht => ?_
        cases t with
        | name y => exact ⟨y, rfl⟩
        | position => exact (hapart _ ht).elim
      obtain ⟨c, others, hlist, hdigit⟩ := exists_toString_eq_cons k
      exact ⟨c, others, hlist, isBlank_of_isDigit hdigit, firstToken_int hs hlist hends⟩

/-- The tokens of segments with points in front of them. -/
def dottedTokens (segments : List Segment) : List Token :=
  segments.flatMap fun s => [.mark .dot, s.token]

/-- Each segment is read as two tokens. -/
theorem tokensFrom_dotted (total : Nat) {fuel : Nat} (hsound : ∀ s ∈ segments, s.Sound)
    (hapart : segments.IsChain Segment.Apart) (hfuel : 2 * segments.length < fuel) :
    tokensFrom total fuel (dotted segments) = .ok (dottedTokens segments ++ [.finish]) := by
  induction segments generalizing fuel with
  | nil =>
      obtain ⟨fuel, rfl⟩ : ∃ k, fuel = k + 1 := ⟨fuel - 1, by omega⟩
      rfl
  | cons s segments ih =>
      rw [List.length_cons] at hfuel
      obtain ⟨fuel, rfl⟩ : ∃ k, fuel = k + 2 := ⟨fuel - 2, by omega⟩
      obtain ⟨hs, hrest⟩ := List.forall_mem_cons.mp hsound
      obtain ⟨hnext, hchain⟩ := List.isChain_cons.mp hapart
      obtain ⟨c, others, hlist, hc, hfirst⟩ := Segment.firstToken hs hrest hnext
      have hdotted : dotted (s :: segments) = '.' :: c :: (others ++ dotted segments) := by
        simp [dotted, hlist]
      rw [hdotted]
      refine tokensFrom_cons (by decide) (fun place => rfl) ?_
      exact tokensFrom_cons hc hfirst (ih hrest hchain (by omega))

theorem length_le_length_dotted (segments : List Segment) (hsound : ∀ s ∈ segments, s.Sound) :
    2 * segments.length ≤ (dotted segments).length := by
  induction segments with
  | nil => exact Nat.le_refl _
  | cons s segments ih =>
      obtain ⟨hs, hrest⟩ := List.forall_mem_cons.mp hsound
      have htext : 0 < s.text.toList.length := by
        rw [List.length_pos_iff, ne_eq, String.toList_eq_nil_iff]
        exact (Segment.plainKey hs).1
      have hdotted : dotted (s :: segments) = '.' :: s.text.toList ++ dotted segments := rfl
      have hothers := ih hrest
      rw [hdotted, List.length_append, List.length_cons, List.length_cons]
      omega

theorem tokenize_path (hx : IsIdentifier x) (hsound : ∀ s ∈ segments, s.Sound)
    (hapart : segments.IsChain Segment.Apart) :
    tokenize (path x segments) = .ok (.word x :: dottedTokens segments ++ [.finish]) := by
  obtain ⟨first, others, hlist, hword⟩ := hx.wordlike
  have hlength := length_le_length_dotted segments hsound
  rw [tokenize, tokenizeChars, toList_path, hlist]
  exact tokensFrom_cons hword.dark
    (firstToken_word hlist hword (continuesWord_of_head?_dotted segments))
    (tokensFrom_dotted _ hsound hapart (by simp; omega))

/-! ## Expressions -/

theorem Segment.labels (s : Segment) : Labels s.token s.text := by
  cases s with
  | name y => exact .word y
  | position k => exact .int k

/-- Points and segments behind an operand lead to parts of it. -/
theorem derives_along {e : Expr} {tokens : List Token} (h : Derives .access tokens e)
    (segments : List Segment) :
    Derives .access (tokens ++ dottedTokens segments) (along e segments) := by
  induction segments generalizing e tokens with
  | nil =>
      rw [dottedTokens, List.flatMap_nil, List.append_nil]
      exact h
  | cons s segments ih =>
      have hcons : tokens ++ dottedTokens (s :: segments) =
          tokens ++ [.mark .dot, s.token] ++ dottedTokens segments := by
        simp [dottedTokens]
      rw [hcons]
      exact ih (.member h s.labels)

/-- The parser takes a path for a chain of members. -/
theorem parse_path (hx : IsIdentifier x) (hreserved : x ∉ reserved)
    (hsound : ∀ s ∈ segments, s.Sound) (hapart : segments.IsChain Segment.Apart) :
    parse (path x segments) = .ok (along (.name x) segments) := by
  have hname : Derives .access [.word x] (.name x) := (Derives.name hreserved).loosen (by decide)
  exact parse_of_tokenize (tokenize_path hx hsound hapart) (derives_along hname segments).loosest

/-- A path has no blanks. -/
theorem isBlank_of_mem_path (hx : IsIdentifier x) (hsound : ∀ s ∈ segments, s.Sound) {c : Char}
    (hc : c ∈ (path x segments).toList) : Text.isBlank c = false := by
  rw [toList_path, List.mem_append] at hc
  rcases hc with hc | hc
  · exact hx.isBlank hc
  · obtain ⟨s, hs, hc⟩ := List.mem_flatMap.mp hc
    rcases List.mem_cons.mp hc with rfl | hc
    · decide
    · exact Segment.isBlank (hsound s hs) hc

/-- A path is one statement. -/
theorem statements_path (hx : IsIdentifier x) (hreserved : x ∉ reserved)
    (hsound : ∀ s ∈ segments, s.Sound) (hapart : segments.IsChain Segment.Apart) :
    Script.statements (path x segments) = [path x segments] :=
  Script.statements_of_parse (parse_path hx hreserved hsound hapart) fun _ =>
    isBlank_of_mem_path hx hsound

end ScriptTree.Expr
