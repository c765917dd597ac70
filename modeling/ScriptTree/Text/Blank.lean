/-!
# Blank characters and trimming

The Unicode `White_Space` class, and the removal of blanks at the ends of a text. Every blank of
the standard library's ASCII class is blank here (`isBlank_of_isWhitespace`), and a trimmed text
neither starts nor ends with a blank (`head?_trimStart`, `getLast?_trimEnd`).
-/

set_option autoImplicit false

namespace ScriptTree.Text

/-- A character whose code lies in one of the closed ranges. -/
def inRanges (ranges : List (Nat × Nat)) (c : Char) : Bool :=
  ranges.any fun r => r.1 ≤ c.toNat && c.toNat ≤ r.2

/-- Characters of the class `White_Space`, by code. -/
def blankRanges : List (Nat × Nat) :=
  [(0x9, 0xD), (0x20, 0x20), (0x85, 0x85), (0xA0, 0xA0), (0x1680, 0x1680), (0x2000, 0x200A),
    (0x2028, 0x2029), (0x202F, 0x202F), (0x205F, 0x205F), (0x3000, 0x3000)]

/-- A blank: a character of the class `White_Space`. -/
def isBlank (c : Char) : Bool := inRanges blankRanges c

/-- The text without the blanks at its start. -/
def trimStart (s : List Char) : List Char := s.dropWhile isBlank

/-- The text without the blanks at its end. -/
def trimEnd (s : List Char) : List Char := (s.reverse.dropWhile isBlank).reverse

/-- The text without the blanks at either end. -/
def trim (s : List Char) : List Char := trimEnd (trimStart s)

/-- `trim` on strings. -/
def trimmed (s : String) : String := String.ofList (trim s.toList)

theorem isBlank_of_isWhitespace (c : Char) (h : c.isWhitespace = true) : isBlank c = true := by
  simp only [Char.isWhitespace, Bool.or_eq_true, decide_eq_true_eq] at h
  rcases h with ((h | h) | h) | h <;> subst h <;> decide

theorem head?_trimStart (s : List Char) (c : Char) (h : (trimStart s).head? = some c) :
    isBlank c = false := by
  have := List.head?_dropWhile_not isBlank s
  rw [show s.dropWhile isBlank = trimStart s from rfl, h] at this
  simpa using this

theorem getLast?_trimEnd (s : List Char) (c : Char) (h : (trimEnd s).getLast? = some c) :
    isBlank c = false := by
  have := List.head?_dropWhile_not isBlank s.reverse
  rw [trimEnd, List.getLast?_reverse] at h
  rw [h] at this
  simpa using this

end ScriptTree.Text
