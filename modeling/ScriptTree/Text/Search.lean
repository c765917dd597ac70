/-!
# Searching, splitting and replacing

Operations on texts as lists of characters. `indexOf?` finds the least place of a text in another
(`indexOf?_isPrefixOf`), `split` cuts at every occurrence that does not overlap the one before,
and joining the pieces again with the separator gives the text back (`join_split`). An
empty separator occurs once at every boundary, the two ends included.
-/

set_option autoImplicit false

namespace ScriptTree.Text

/-- The least number of characters after which `needle` stands in the text. -/
def indexOf? (needle : List Char) : List Char → Option Nat
  | [] => if needle.isEmpty then some 0 else none
  | c :: rest =>
      if needle.isPrefixOf (c :: rest) then some 0 else (indexOf? needle rest).map (· + 1)

/-- The text contains `needle`. -/
def containsText (needle s : List Char) : Bool := (indexOf? needle s).isSome

/-- Puts a character in front of the first piece. -/
def consFirst (c : Char) : List (List Char) → List (List Char)
  | [] => [[c]]
  | piece :: pieces => (c :: piece) :: pieces

/-- The pieces of a text between occurrences of the nonempty `separator`, where the first `skip`
characters belong to an occurrence already found. -/
def splitFrom (separator : List Char) : Nat → List Char → List (List Char)
  | _, [] => [[]]
  | skip + 1, _ :: rest => splitFrom separator skip rest
  | 0, c :: rest =>
      if separator.isPrefixOf (c :: rest) then
        [] :: splitFrom separator (separator.length - 1) rest
      else
        consFirst c (splitFrom separator 0 rest)

/-- The pieces of a text between occurrences of `separator`. -/
def split (separator s : List Char) : List (List Char) :=
  if separator.isEmpty then [] :: s.map (fun c => [c]) ++ [[]] else splitFrom separator 0 s

/-- The pieces of a text between occurrences of one character. -/
def splitAt (separator : Char) (s : List Char) : List (List Char) := split [separator] s

/-- The pieces joined with `separator` between each two. -/
def join (separator : List Char) : List (List Char) → List Char
  | [] => []
  | [piece] => piece
  | piece :: next :: pieces => piece ++ separator ++ join separator (next :: pieces)

/-- The text with every occurrence of `target` replaced. -/
def replace (target replacement s : List Char) : List Char := join replacement (split target s)

/-- `s` ends with `suffix`. -/
def endsWith (suffix s : List Char) : Bool := suffix.isSuffixOf s

theorem indexOf?_isPrefixOf {needle s : List Char} {k : Nat} (h : indexOf? needle s = some k) :
    needle.isPrefixOf (s.drop k) = true := by
  induction s generalizing k with
  | nil =>
      cases needle with
      | nil => simp
      | cons c r => simp [indexOf?] at h
  | cons c rest ih =>
      by_cases hp : needle.isPrefixOf (c :: rest) = true
      · simp only [indexOf?, hp, if_true, Option.some.injEq] at h
        subst h
        exact hp
      · simp only [indexOf?, hp, Bool.false_eq_true, if_false, Option.map_eq_some_iff] at h
        obtain ⟨j, hj, rfl⟩ := h
        simpa using ih hj

theorem consFirst_ne_nil (c : Char) (pieces : List (List Char)) : consFirst c pieces ≠ [] := by
  cases pieces <;> simp [consFirst]

theorem splitFrom_ne_nil (separator : List Char) (skip : Nat) (s : List Char) :
    splitFrom separator skip s ≠ [] := by
  induction s generalizing skip with
  | nil => cases skip <;> simp [splitFrom]
  | cons c rest ih =>
      cases skip with
      | zero =>
          simp only [splitFrom]
          split
          · simp
          · exact consFirst_ne_nil c _
      | succ k => simpa [splitFrom] using ih k

theorem join_cons_cons (separator piece : List Char) {pieces : List (List Char)}
    (h : pieces ≠ []) :
    join separator (piece :: pieces) = piece ++ separator ++ join separator pieces := by
  cases pieces with
  | nil => exact absurd rfl h
  | cons next rest => rfl

theorem join_consFirst (separator : List Char) (c : Char) (pieces : List (List Char)) :
    join separator (consFirst c pieces) = c :: join separator pieces := by
  match pieces with
  | [] => rfl
  | [piece] => rfl
  | piece :: next :: rest => simp [consFirst, join]

theorem join_splitFrom (separator : List Char) (hne : separator ≠ []) (skip : Nat)
    (s : List Char) (hskip : skip ≤ s.length) :
    join separator (splitFrom separator skip s) = s.drop skip := by
  induction s generalizing skip with
  | nil =>
      have : skip = 0 := by simpa using hskip
      subst this
      rfl
  | cons c rest ih =>
      cases skip with
      | succ k =>
          have hk : k ≤ rest.length := by simpa using hskip
          simpa [splitFrom] using ih k hk
      | zero =>
          by_cases hp : separator.isPrefixOf (c :: rest) = true
          · obtain ⟨tail, htail⟩ := List.isPrefixOf_iff_prefix.1 hp
            obtain ⟨d, ds, rfl⟩ := List.exists_cons_of_ne_nil hne
            simp only [List.cons_append, List.cons.injEq] at htail
            obtain ⟨rfl, htail⟩ := htail
            have hlen : ds.length ≤ rest.length := by
              rw [← htail, List.length_append]
              exact Nat.le_add_right _ _
            simp only [splitFrom, hp, if_true, List.length_cons, Nat.add_sub_cancel, List.drop_zero]
            rw [join_cons_cons _ _ (splitFrom_ne_nil _ _ _), ih ds.length hlen, ← htail]
            simp
          · simp only [splitFrom, hp, Bool.false_eq_true, if_false, List.drop_zero]
            rw [join_consFirst, ih 0 (Nat.zero_le _), List.drop_zero]

theorem join_nil_singletons (s : List Char) : join [] (s.map (fun c => [c]) ++ [[]]) = s := by
  induction s with
  | nil => rfl
  | cons c rest ih =>
      rw [List.map_cons, List.cons_append, join_cons_cons _ _ (by simp), ih]
      simp

/-- Joining the pieces with the separator gives the text back. -/
theorem join_split (separator s : List Char) : join separator (split separator s) = s := by
  cases separator with
  | nil =>
      rw [split, if_pos List.isEmpty_nil, List.cons_append, join_cons_cons _ _ (by simp),
        join_nil_singletons]
      simp
  | cons c r =>
      rw [split, if_neg (by simp)]
      exact join_splitFrom (c :: r) (by simp) 0 s (Nat.zero_le _)

end ScriptTree.Text
