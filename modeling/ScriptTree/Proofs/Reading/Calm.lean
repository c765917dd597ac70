import ScriptTree.Proofs.Load.Merge
import ScriptTree.Template

/-!
# Calm templates

A template is calm when its placeholders call nothing and assign nothing (`Template.Calm`). A world
is calm when all texts that its nodes hold are (`World.Calm`), and stays so when calm texts are
stored (`World.Calm.put`).
-/

set_option autoImplicit false

namespace ScriptTree

namespace Expr

mutual

/-- The expression calls nothing and assigns nothing. -/
def isReading : Expr → Bool
  | .literal _ | .name _ => true
  | .list items => allReading items
  | .member target _ => target.isReading
  | .index target key => target.isReading && key.isReading
  | .call _ _ | .send _ _ _ | .assign _ _ => false
  | .neg operand | .not operand => operand.isReading
  | .binary _ left right | .and left right | .or left right => left.isReading && right.isReading
  | .choice test yes no => test.isReading && yes.isReading && no.isReading

/-- None of the expressions calls or assigns anything. -/
def allReading : List Expr → Bool
  | [] => true
  | e :: rest => e.isReading && allReading rest

end

end Expr

/-- Each placeholder is no expression, or one that calls nothing and assigns nothing. -/
def Template.Calm (text : String) : Prop :=
  ∀ body, Template.Piece.hole body ∈ Template.pieces text.toList →
    ∀ e, Expr.parse (String.ofList (Text.trim body)) = .ok e → e.isReading = true

/-- The piece is no placeholder, no expression, or one that calls nothing and assigns nothing. -/
def Template.Piece.isCalm : Template.Piece → Bool
  | .plain _ => true
  | .hole body =>
      match Expr.parse (String.ofList (Text.trim body)) with
      | .ok e => e.isReading
      | .error _ => true

theorem Template.calm_iff {text : String} :
    Template.Calm text ↔ ∀ piece ∈ Template.pieces text.toList, piece.isCalm = true := by
  constructor
  · rintro h (s | body) hmem
    · rfl
    · rw [Template.Piece.isCalm]
      split
      · rename_i e he
        exact h body hmem e he
      · rfl
  · intro h body hmem e he
    have hcalm := h _ hmem
    rw [Template.Piece.isCalm, he] at hcalm
    exact hcalm

instance (text : String) : Decidable (Template.Calm text) :=
  decidable_of_iff _ Template.calm_iff.symm

/-- Every text that a node holds under a key is calm. -/
def World.Calm (w : World) : Prop :=
  ∀ n key s, w.getRaw n key = some (.text s) → Template.Calm s

namespace World

theorem calm_initial (engine : Engine) (files : Files.Tree) : (initial engine files).Calm := by
  rintro ⟨_ | i⟩ key s hs
  · cases hs
  · have hsize : (initial engine files).cells.size ≤ (⟨i + 1⟩ : NodeId).index :=
      Nat.succ_le_succ (Nat.zero_le i)
    rw [getRaw, cell_of_size_le hsize] at hs
    cases hs

theorem Calm.create {w : World} (h : w.Calm) (engined : Bool) : (w.create engined).2.Calm := by
  intro m key s hs
  rw [getRaw, cell_create] at hs
  split at hs
  · cases hs
  · exact h m key s hs

theorem Calm.put {w : World} (h : w.Calm) {n : NodeId} (hn : n.index < w.cells.size)
    (key : String) {value : Value} (hvalue : ∀ s, value = .text s → Template.Calm s) :
    (w.put n key value).Calm := by
  intro m other s hs
  by_cases hm : n = m
  · subst hm
    rw [getRaw_put_self w key other value hn] at hs
    split at hs
    · exact hvalue s (Option.some.inj hs)
    · exact h n other s hs
  · rw [getRaw_put_of_ne w key other value hm] at hs
    exact h m other s hs

end World

end ScriptTree
