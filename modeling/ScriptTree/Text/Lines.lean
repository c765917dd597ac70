import ScriptTree.Text.Search

/-!
# Lines

A line ends at a line feed, and a carriage return right before that line feed belongs to the end
of the line. A text that ends with a line feed has no empty line after it.
-/

set_option autoImplicit false

namespace ScriptTree.Text

/-- The lines of a text, without their ends. -/
def lines : List Char → List (List Char)
  | [] => []
  | '\n' :: rest => [] :: lines rest
  | '\r' :: '\n' :: rest => [] :: lines rest
  | c :: rest => consFirst c (lines rest)

theorem not_mem_lines (s line : List Char) (h : line ∈ lines s) : '\n' ∉ line := by
  fun_induction lines s generalizing line with
  | case1 => simp at h
  | case2 rest ih =>
      rcases List.mem_cons.1 h with rfl | h
      · simp
      · exact ih line h
  | case3 rest ih =>
      rcases List.mem_cons.1 h with rfl | h
      · simp
      · exact ih line h
  | case4 c rest hn _ ih =>
      have hc : ¬ '\n' = c := fun e => hn e.symm
      cases hl : lines rest with
      | nil =>
          rw [hl] at h
          simp only [consFirst, List.mem_singleton] at h
          subst h
          simpa using hc
      | cons first others =>
          rw [hl] at h ih
          rcases List.mem_cons.1 h with rfl | h
          · simp only [List.mem_cons, not_or]
            exact ⟨hc, ih first (by simp)⟩
          · exact ih line (by simp [h])

end ScriptTree.Text
