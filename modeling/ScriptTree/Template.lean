import ScriptTree.Expr.Evaluate
import ScriptTree.Expr.Parser

/-!
# Templates

A template is a text with expressions between `${` and the brace that closes them. Expanding it
puts the text of each value in the place of its expression, nothing for null, and leaves a
placeholder as it stands when its expression fails. Expansions inside each other go at most
`depthLimit` deep; a template further inside stays as it is. The pieces of a template make up its
text (`flatMap_text_pieces`).
-/

set_option autoImplicit false

namespace ScriptTree.Template

/-- A part of a template. -/
inductive Piece where
  /-- Text as it stands. -/
  | plain (s : List Char)
  /-- The text of an expression between its braces. -/
  | hole (body : List Char)
  deriving DecidableEq, Repr

/-- The start of a placeholder. -/
def opening : List Char := "$\x7b".toList

/-- The text of a placeholder. -/
def holeText (body : List Char) : List Char := opening ++ body ++ ['\x7d']

/-- The text of a piece. -/
def Piece.text : Piece → List Char
  | .plain s => s
  | .hole body => holeText body

/-- Puts a character in front of a body. -/
def consBody (c : Char) : Option (List Char × List Char) → Option (List Char × List Char)
  | some (body, rest) => some (c :: body, rest)
  | none => none

/-- The text up to the closing brace and what is behind it. Braces in quotes and in pairs do not
count, and inside quotes a backslash takes the next character along. -/
def takeBody : Option Char → Nat → List Char → Option (List Char × List Char)
  | _, _, [] => none
  | some quote, depth, c :: rest =>
      if c == '\\' then
        match rest with
        | [] => none
        | e :: rest => consBody c (consBody e (takeBody (some quote) depth rest))
      else consBody c (takeBody (if c == quote then none else some quote) depth rest)
  | none, depth, c :: rest =>
      if Script.isQuote c then consBody c (takeBody (some c) depth rest)
      else if c == '\x7b' then consBody c (takeBody none (depth + 1) rest)
      else if c == '\x7d' then
        match depth with
        | 0 => some ([], rest)
        | depth + 1 => consBody c (takeBody none depth rest)
      else consBody c (takeBody none depth rest)

theorem consBody_eq_some {c : Char} {found : Option (List Char × List Char)}
    {body rest : List Char} (h : consBody c found = some (body, rest)) :
    ∃ inner, found = some (inner, rest) ∧ body = c :: inner := by
  cases found with
  | none => simp [consBody] at h
  | some p =>
      obtain ⟨inner, after⟩ := p
      simp only [consBody, Option.some.injEq, Prod.mk.injEq] at h
      exact ⟨inner, by rw [h.2], h.1.symm⟩

/-- The body, its closing brace and the rest make up the text. -/
theorem eq_append_of_takeBody (quote : Option Char) (depth : Nat) (s body rest : List Char)
    (h : takeBody quote depth s = some (body, rest)) : s = body ++ '\x7d' :: rest := by
  fun_induction takeBody quote depth s generalizing body with
  | case1 => simp at h
  | case2 => simp at h
  | case3 _ _ _ _ _ _ ih =>
      obtain ⟨one, h₁, rfl⟩ := consBody_eq_some h
      obtain ⟨two, h₂, rfl⟩ := consBody_eq_some h₁
      simp [ih _ h₂]
  | case7 _ _ _ _ hc =>
      simp only [Option.some.injEq, Prod.mk.injEq] at h
      simp_all
  | case4 | case5 | case6 | case8 | case9 =>
      rename_i ih
      obtain ⟨inner, h₁, rfl⟩ := consBody_eq_some h
      simp [ih _ h₁]

/-- The pieces of a template, at most as many holes as the fuel. After a placeholder that is not
closed all is plain. -/
def piecesWithin : Nat → List Char → List Piece
  | 0, s => [.plain s]
  | fuel + 1, s =>
      match Text.indexOf? opening s with
      | none => [.plain s]
      | some k =>
          match takeBody none 0 (s.drop (k + 2)) with
          | none => [.plain s]
          | some (body, rest) => .plain (s.take k) :: .hole body :: piecesWithin fuel rest

/-- The pieces of a template. -/
def pieces (s : List Char) : List Piece := piecesWithin s.length s

theorem flatMap_text_piecesWithin (fuel : Nat) (s : List Char) :
    (piecesWithin fuel s).flatMap Piece.text = s := by
  induction fuel generalizing s with
  | zero => simp [piecesWithin, Piece.text]
  | succ fuel ih =>
      unfold piecesWithin
      split
      · simp [Piece.text]
      · rename_i k hk
        split
        · simp [Piece.text]
        · rename_i body rest hb
          have hp := List.isPrefixOf_iff_prefix.mp (Text.indexOf?_isPrefixOf hk)
          obtain ⟨tail, ht⟩ := hp
          have hlen : opening.length = 2 := by decide
          have hd : s.drop (k + 2) = tail := by
            rw [← List.drop_drop, ← ht, List.drop_append_of_le_length (by omega)]
            simp [hlen]
          rw [hd] at hb
          have hs := eq_append_of_takeBody _ _ _ _ _ hb
          calc (Piece.plain (s.take k) :: Piece.hole body :: piecesWithin fuel rest).flatMap
                Piece.text
              = s.take k ++ (opening ++ (body ++ '\x7d' :: rest)) := by
                simp [Piece.text, holeText, ih]
            _ = s.take k ++ s.drop k := by rw [← hs, ht]
            _ = s := List.take_append_drop k s

/-- The pieces make up the template. -/
theorem flatMap_text_pieces (s : List Char) : (pieces s).flatMap Piece.text = s :=
  flatMap_text_piecesWithin _ _

/-- The text that takes the place of a hole. -/
def render (lang : Language) (c : Context) (body : List Char) : Action (List Char) :=
  match Expr.parse (String.ofList (Text.trim body)) with
  | .error _ => pure (holeText body)
  | .ok e => do
      match ← Action.attempt (e.eval lang c) with
      | .error _ => pure (holeText body)
      | .ok .null => pure []
      | .ok value =>
          Action.holding value.nodes (Action.inspect fun w => (w.text value).toList)

/-- The text of the pieces in order, with holes filled. -/
def renderAll (lang : Language) (c : Context) : List Piece → Action (List Char)
  | [] => pure []
  | .plain s :: rest => do
      let after ← renderAll lang c rest
      pure (s ++ after)
  | .hole body :: rest => do
      let filled ← render lang c body
      let after ← renderAll lang c rest
      pure (filled ++ after)

/-- The greatest number of expansions inside each other. -/
def depthLimit : Nat := 32

/-- The text of a template in a context. -/
def expand (lang : Language) (c : Context) (text : String) : Action String := do
  let s := text.toList
  if !Text.containsText opening s then pure text
  else if ← Action.inspect fun w => decide (depthLimit ≤ w.expansions) then pure text
  else
    Action.within (fun w => { w with expansions := w.expansions + 1 })
      (fun w => { w with expansions := w.expansions - 1 }) do
        let filled ← renderAll lang c (pieces s)
        pure (String.ofList filled)

end ScriptTree.Template
