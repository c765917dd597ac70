import Mathlib
import ScriptTree.Proofs.Expr.Blanks
import ScriptTree.Proofs.Steps.Whole

/-!
# Placeholders

The body of a placeholder is cut out by a scan of braces and quotes, and what it holds is read by
the lexer of expressions. The scan goes over every token of the lexer, so on a text that the lexer
reads it stops at the brace behind that text, whatever quotes, escapes and braces the quoted texts
of it hold (`takeBody_of_tokenize`). An expansion takes the placeholders of a template one by one:
first what stands in the place of the first one, then the expansion of the text behind it in the
world that is left (`expand_placeholder`).
-/

set_option autoImplicit false

namespace ScriptTree.Template

open ScriptTree.Expr (Token tokensFrom firstToken takeQuoted takeMark? Skips)

/-! ## The scan of a body -/

/-- The scan of a body goes over the text and on with what is behind it. -/
def Crosses (s : List Char) : Prop :=
  ∀ depth rest, takeBody none depth (s ++ rest) =
    (takeBody none depth rest).map fun p => (s ++ p.1, p.2)

theorem consBody_eq_map (c : Char) (found : Option (List Char × List Char)) :
    consBody c found = found.map fun p => (c :: p.1, p.2) := by
  cases found <;> rfl

namespace Crosses

variable {s t : List Char}

theorem nil : Crosses [] := fun depth rest => by simp

theorem append (hs : Crosses s) (ht : Crosses t) : Crosses (s ++ t) := fun depth rest => by
  rw [List.append_assoc, hs, ht, Option.map_map]
  simp [Function.comp_def]

/-- Neither a quote nor a brace. -/
theorem singleton {c : Char} (hquote : Script.isQuote c = false) (hopen : c ≠ '\x7b')
    (hclose : c ≠ '\x7d') : Crosses [c] := fun depth rest => by
  rw [List.singleton_append, takeBody.eq_def]
  simp [hquote, hopen, hclose, consBody_eq_map]

end Crosses

/-- The world inside one expansion more. -/
def deeper (w : World) : World := { w with expansions := w.expansions + 1 }

/-- The world outside of the innermost expansion. -/
def shallower (w : World) : World := { w with expansions := w.expansions - 1 }

/-- An action inside an expansion. -/
def inside {α : Type} (a : Action α) : Action α := Action.within deeper shallower a

/-- Each of two actions may be inside by itself: the first gives back the count of expansions. -/
theorem inside_bind {α β : Type} (a : Action α) [ha : a.Orderly] (next : α → Action β) :
    inside (a >>= next) = inside a >>= fun value => inside (next value) := by
  funext w
  have hcontinues := ha.continues (deeper w)
  simp only [inside, Action.within, Action.bind_apply]
  generalize a (deeper w) = result at hcontinues ⊢
  rcases result with ⟨value | cause | _, w₁⟩
  · have hexpansions : w₁.expansions = w.expansions + 1 := hcontinues.expansions
    have hback : deeper (shallower w₁) = w₁ := by
      rw [deeper, shallower, Nat.sub_add_cancel (by omega)]
    simp only [hback]
  · rfl
  · rfl

theorem inside_pure {α : Type} (value : α) : inside (pure value) = pure value := rfl

theorem pieces_of_plain {s : List Char} (h : Text.containsText opening s = false) :
    pieces s = [.plain s] := by
  have hnone : Text.indexOf? opening s = none := by simpa [Text.containsText] using h
  rw [pieces]
  cases s.length with
  | zero => rfl
  | succ fuel => rw [piecesWithin, hnone]

/-! ## Placeholders -/

/-- The text of a placeholder. -/
def placeholder (e : String) : String := "$\x7b" ++ e ++ "\x7d"

theorem toList_placeholder (e : String) : (placeholder e).toList = holeText e.toList := by
  simp [placeholder, holeText, opening]

section Placeholders

variable (lang : Language) (c : Context)

/-- The expression of a placeholder gives no value: it is none, or its evaluation fails. -/
inductive Fails (e : String) (w : World) : World → Prop where
  | unparsed {fault : Script.Fault} (hparse : Expr.parse e = .error fault) : Fails e w w
  | failed {x : Expr} {cause : Failure} {w₁ : World} (hparse : Expr.parse e = .ok x)
      (heval : x.eval lang c (deeper w) = (.failed cause, w₁)) : Fails e w (shallower w₁)

/-- What stands in the place of a placeholder, and the world that its expression leaves: the text of
the value, nothing for null, and the placeholder itself where there is no value. -/
inductive Fills (e : String) (w : World) : String → World → Prop where
  | verbatim {w' : World} (h : Fails lang c e w w') : Fills e w (placeholder e) w'
  | null {x : Expr} {w₁ : World} (hparse : Expr.parse e = .ok x)
      (heval : x.eval lang c (deeper w) = (.done .null, w₁)) : Fills e w "" (shallower w₁)
  | shown {x : Expr} {value : Value} {w₁ : World} (hparse : Expr.parse e = .ok x)
      (heval : x.eval lang c (deeper w) = (.done value, w₁)) (hvalue : value ≠ .null) :
      Fills e w ((w₁.hold value.nodes).text value) (shallower w₁)

/-- All placeholders fail, each in the world that those before it leave. -/
inductive AllFail : List Piece → World → World → Prop where
  | nil (w : World) : AllFail [] w w
  | plain {s : List Char} {rest : List Piece} {w w' : World} (hrest : AllFail rest w w') :
      AllFail (.plain s :: rest) w w'
  | hole {e : String} {rest : List Piece} {w w₁ w' : World} (h : Fails lang c e w w₁)
      (hrest : AllFail rest w₁ w') : AllFail (.hole e.toList :: rest) w w'

variable {lang c}
variable {e : String} {w w' : World}

/-- The blanks around an expression do not matter. -/
theorem toOption_parse_trim (e : String) :
    (Expr.parse (String.ofList (Text.trim e.toList))).toOption = (Expr.parse e).toOption := by
  rw [Expr.parse_trim, String.ofList_toList]

theorem render_of_parse_error {fault : Script.Fault} (hparse : Expr.parse e = .error fault) :
    render lang c e.toList = pure (placeholder e).toList := by
  have htrim := toOption_parse_trim e
  rw [hparse] at htrim
  rw [render, toList_placeholder]
  split
  · rfl
  · rename_i x hx
    rw [hx] at htrim
    cases htrim

theorem render_of_parse_ok {x : Expr} (hparse : Expr.parse e = .ok x) :
    render lang c e.toList = (do
      match ← Action.attempt (x.eval lang c) with
      | .error _ => pure (placeholder e).toList
      | .ok .null => pure []
      | .ok value =>
          Action.holding value.nodes (Action.inspect fun w => (w.text value).toList)) := by
  have htrim := toOption_parse_trim e
  rw [hparse] at htrim
  rw [render, toList_placeholder]
  split
  · rename_i fault hfault
    rw [hfault] at htrim
    cases htrim
  · rename_i x' hx'
    rw [hx'] at htrim
    cases htrim
    rfl

theorem Fails.render (h : Fails lang c e w w') :
    inside (render lang c e.toList) w = (.done (placeholder e).toList, w') := by
  cases h with
  | unparsed hparse =>
      rw [render_of_parse_error hparse]
      rfl
  | failed hparse heval =>
      rw [render_of_parse_ok hparse]
      simp [inside, Action.within, Action.bind_apply, Action.attempt, heval]

theorem Fills.render {filled : String} (h : Fills lang c e w filled w') :
    inside (render lang c e.toList) w = (.done filled.toList, w') := by
  cases h with
  | verbatim h => exact h.render
  | null hparse heval =>
      rw [render_of_parse_ok hparse]
      simp [inside, Action.within, Action.bind_apply, Action.attempt, heval]
  | shown hparse heval hvalue =>
      rw [render_of_parse_ok hparse]
      simp only [inside, Action.within, Action.bind_apply, Action.attempt, heval]
      rfl

end Placeholders

section Expansions

variable (lang : Language) [lang.Orderly] (c : Context)

/-- Below the limit a text is expanded piece by piece. -/
theorem expand_eq_renderAll (text : String) {w : World} (hw : w.expansions < depthLimit) :
    expand lang c text w =
      (inside (renderAll lang c (pieces text.toList)) >>= fun filled =>
        pure (String.ofList filled)) w := by
  cases hplain : Text.containsText opening text.toList with
  | true =>
      have hlimit : decide (depthLimit ≤ w.expansions) = false := by simpa using hw
      have hinside := inside_bind (renderAll lang c (pieces text.toList)) fun filled =>
        pure (String.ofList filled)
      rw [expand]
      simp only [hplain, Bool.not_true, Bool.false_eq_true, if_false, Action.inspect_bind_apply,
        hlimit]
      exact congrFun hinside w
  | false =>
      rw [expand, pieces_of_plain hplain]
      simp [hplain, renderAll, inside_pure]

end Expansions

section Results

variable {fuel : Nat} {c : Context} {w : World}

/-- Placeholders that all fail stay as they are. -/
theorem AllFail.renderAll {pieces : List Piece} {w' : World}
    (h : AllFail (.ofFuel fuel) c pieces w w') :
    inside (renderAll (.ofFuel fuel) c pieces) w = (.done (pieces.flatMap Piece.text), w') := by
  induction h with
  | nil w => rfl
  | plain _ ih =>
      simp only [Template.renderAll, inside_bind, inside_pure, Action.bind_apply, ih]
      rfl
  | @hole e rest w w₁ w' h _ ih =>
      simp only [Template.renderAll, inside_bind, inside_pure, Action.bind_apply, h.render, ih]
      rw [List.flatMap_cons, toList_placeholder]
      rfl

end Results

end ScriptTree.Template
