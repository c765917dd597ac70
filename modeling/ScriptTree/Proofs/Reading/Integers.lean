import ScriptTree.Proofs.Number.Exactness
import ScriptTree.Proofs.Reading.Dotted

/-!
# Integers read back

A template puts the text of a number into a statement, and the statement is evaluated again. An
integer comes back as a number that is equal to it (`NodeId.eval_integer`): as the integer itself
when it has 63 bits and a sign, and as the nearest double past that, since integers of statements
have 63 bits. The two ends of the range show it (`NodeId.eval_ends`).
-/

set_option autoImplicit false

namespace ScriptTree

/-! ## Numbers of statements -/

namespace Number

variable {n : Int} {fits : -0x8000000000000000 ≤ n ∧ n < 0x10000000000000000}

theorem isFinite_ofInt (fits : -0x8000000000000000 ≤ n ∧ n < 0x10000000000000000) :
    (Float.ofInt n).isFinite = true :=
  isFinite_toFloat (.integer n fits)

/-- The number that a statement gives for the text of an integer: the integer when it and the
integer without its sign have 63 bits, and the nearest double otherwise. -/
def reread (n : Int) (fits : -0x8000000000000000 ≤ n ∧ n < 0x10000000000000000) : Number :=
  if -0x8000000000000000 < n ∧ n < 0x8000000000000000 then .integer n fits
  else .floating (Float.ofInt n) (isFinite_ofInt fits)

theorem reread_of_lt (hlow : -0x8000000000000000 < n) (hhigh : n < 0x8000000000000000) :
    reread n fits = .integer n fits :=
  if_pos ⟨hlow, hhigh⟩

theorem reread_of_le (h : n = -0x8000000000000000 ∨ 0x8000000000000000 ≤ n) :
    reread n fits = .floating (Float.ofInt n) (isFinite_ofInt fits) :=
  if_neg (by omega)

/-- The number is equal to the integer. -/
theorem reread_same : (reread n fits).same (.integer n fits) = true := by
  by_cases h : -0x8000000000000000 < n ∧ n < 0x8000000000000000
  · rw [reread_of_lt h.1 h.2, same_integers]
    exact decide_eq_true rfl
  · rw [reread_of_le (by omega), same_of_eq_none (.inl rfl) (.inl rfl)]
    exact (toFloat_beq_iff (.floating _ _) (.integer n fits)).mpr rfl

end Number

namespace Expr

/-- The literal of a natural number in a statement. -/
def natLiteral (n : Nat) : Literal :=
  if n < 0x8000000000000000 then .number (.ofNat n) else floatLiteral (Float.ofInt n)

/-- The expression that the text of an integer is. -/
def ofInt : Int → Expr
  | .ofNat n => .literal (natLiteral n)
  | .negSucc n => .neg (.literal (natLiteral (n + 1)))

theorem denotes_natToken (n : Nat) : Denotes (natToken n) (natLiteral n) := by
  unfold natToken natLiteral
  split
  · exact .int n
  · exact .float _

/-- The lexer reads the digits of a number as one token. -/
theorem tokensFrom_nat (total fuel n : Nat) :
    tokensFrom total (fuel + 1) (toString n).toList = .ok [natToken n, .finish] := by
  obtain ⟨c, others, hs, hdigit⟩ := exists_toString_eq_cons n
  have hends : EndsNumber [] := ⟨by rintro c ⟨⟩, rfl, rfl⟩
  have hfirst : ∀ place, firstToken place c others = .ok (natToken n, []) := fun place => by
    have h := firstToken_nat hs hends place
    rwa [List.append_nil] at h
  have hnone : tokensFrom total fuel [] = .ok [.finish] := by
    cases fuel <;> rfl
  rw [hs]
  exact tokensFrom_cons (isBlank_of_isDigit hdigit) hfirst hnone

/-- The parser takes the text of an integer for a literal, with a minus in front where the integer
is negative. -/
theorem parse_toString (n : Int) : parse (toString n) = .ok (ofInt n) := by
  cases n with
  | ofNat n =>
      have htokens : tokenize (toString n) = .ok [natToken n, .finish] := by
        rw [tokenize, tokenizeChars]
        exact tokensFrom_nat _ _ n
      show parse (toString n) = _
      exact parse_of_tokenize htokens (Derives.literal (denotes_natToken n)).loosest
  | negSucc n =>
      have htokens : tokenize (toString (Int.negSucc n)) =
          .ok [.mark .minus, natToken (n + 1), .finish] := by
        rw [tokenize, tokenizeChars, toList_toString_negSucc]
        exact tokensFrom_cons (by decide) (fun place => rfl) (tokensFrom_nat _ _ (n + 1))
      have hliteral : Derives .unary [natToken (n + 1)] (.literal (natLiteral (n + 1))) :=
        (Derives.literal (denotes_natToken (n + 1))).loosen (by decide)
      exact parse_of_tokenize htokens (Derives.negate .minus hliteral).loosest

/-- The value of a literal that is a natural number. -/
theorem ofLiteral_natLiteral (n : Nat) (fits : -0x8000000000000000 ≤ (n : Int) ∧
    (n : Int) < 0x10000000000000000) :
    Value.ofLiteral (natLiteral n) = .number (Number.reread n fits) := by
  by_cases h : n < 0x8000000000000000
  · have hmin : min (n : Int) 0xFFFFFFFFFFFFFFFF = n := by omega
    rw [natLiteral, if_pos h, Number.reread_of_lt (by omega) (by omega)]
    simp only [Value.ofLiteral, Number.ofNat, hmin]
  · rw [natLiteral, if_neg h, Number.reread_of_le (by omega), floatLiteral,
      Number.ofFloat?_of_isFinite (Number.isFinite_ofInt fits)]
    rfl

/-- A minus in front of a natural number gives the negative number: the exact integer where the
natural number has 63 bits. -/
theorem negate_reread (n : Nat) (fits : -0x8000000000000000 ≤ ((n + 1 : Nat) : Int) ∧
    ((n + 1 : Nat) : Int) < 0x10000000000000000)
    (fits' : -0x8000000000000000 ≤ Int.negSucc n ∧ Int.negSucc n < 0x10000000000000000) :
    (Value.number (Number.reread (n + 1 : Nat) fits)).negate =
      .ok (.number (Number.reread (Int.negSucc n) fits')) := by
  by_cases h : n + 1 < 0x8000000000000000
  · rw [Number.reread_of_lt (by omega) (by omega), Number.reread_of_lt (by omega) (by omega),
      Value.negate, Number.neg_integer_of_fits (Number.fitsSigned_iff.mpr (by omega))
        (Number.fitsSigned_iff.mpr (by omega))]
    rfl
  · -- The digits alone are past 63 bits, so there is no integer to negate, not even for the least.
    rw [Number.reread_of_le (by omega), Number.reread_of_le (by omega)]
    have hdouble : -Float.ofInt ((n + 1 : Nat) : Int) = Float.ofInt (Int.negSucc n) := rfl
    show Except.ok (Value.ofNumber? (Number.ofFloat? (-Float.ofInt ((n + 1 : Nat) : Int)))) = _
    rw [hdouble, Number.ofFloat?_of_isFinite (Number.isFinite_ofInt fits')]
    rfl

/-- The expression of an integer evaluates to the number that the integer is reread as. -/
theorem eval_ofInt (lang : Language) (c : Context) (n : Int)
    (fits : -0x8000000000000000 ≤ n ∧ n < 0x10000000000000000) :
    (ofInt n).eval lang c = pure (.number (Number.reread n fits)) := by
  cases n with
  | ofNat n =>
      rw [ofInt, eval, ofLiteral_natLiteral n fits]
      rfl
  | negSucc n =>
      have fits₁ : -0x8000000000000000 ≤ ((n + 1 : Nat) : Int) ∧
          ((n + 1 : Nat) : Int) < 0x10000000000000000 := by omega
      rw [ofInt, eval, eval, ofLiteral_natLiteral (n + 1) fits₁, pure_bind,
        negate_reread n fits₁ fits]
      rfl

end Expr

/-! ## Statements of numbers -/

/-- A statement that is the text of an integer evaluates to the number that it is reread as. -/
theorem Language.evaluate_toString (fuel : Nat) (c : Context) (n : Int)
    (fits : -0x8000000000000000 ≤ n ∧ n < 0x10000000000000000) :
    (Language.ofFuel (fuel + 1)).evaluate c (toString n) =
      pure (.number (Number.reread n fits)) := by
  rw [Language.evaluate_of_parse fuel c (Expr.parse_toString n)]
  exact Expr.eval_ofInt _ c n fits

/-- A node that holds an integer. -/
def World.counter : World :=
  (World.single ⟨true, true, 0⟩).put ⟨1⟩ "n" (.number (.integer (-9223372036854775807) (by decide)))

namespace NodeId

variable {m : NodeId} {w : World} {fuel : Nat}

/-- A script of one statement has the value that the statement has in every context. -/
theorem eval_of_evaluate {lang : Language} [lang.Orderly] {text : String} {value : Value}
    (hevaluates : w.evaluatesOn m = true) (hone : Script.statements text = [text])
    (hvalue : ∀ c, lang.evaluate c text = pure value) : (m.eval lang text w).1 = .done value := by
  obtain ⟨c, w₁, hcreate, -⟩ := Context.exists_create_eq m w
  rw [eval, Action.inspect_bind_apply, hevaluates, if_pos rfl, hone, within, Action.bind_apply,
    hcreate]
  dsimp only
  rw [Action.fst_holding, Language.evaluateAll_singleton, hvalue]
  rfl

/-- The text of an integer as a script on a node. -/
theorem eval_toString (hevaluates : w.evaluatesOn m = true) (n : Int)
    (fits : -0x8000000000000000 ≤ n ∧ n < 0x10000000000000000) :
    (m.eval (.ofFuel (fuel + 1)) (toString n) w).1 = .done (.number (Number.reread n fits)) :=
  eval_of_evaluate hevaluates
    (Script.statements_of_parse (Expr.parse_toString n) fun _ => Expr.isBlank_of_mem_toString)
    fun c => Language.evaluate_toString fuel c n fits

/-- A step that expands to the text of an integer. -/
theorem perform_toString (hevaluates : w.evaluatesOn m = true) (n : Int)
    (fits : -0x8000000000000000 ≤ n ∧ n < 0x10000000000000000) {step : String} {w₁ : World}
    (hexpand : m.expand (.ofFuel (fuel + 1)) step w = (.done (toString n), w₁)) :
    (m.perform (.ofFuel (fuel + 1)) step w).1 = .done (.number (Number.reread n fits)) := by
  -- The expansion may run scripts of its own, and the node still evaluates after them.
  have horderly : (m.expand (.ofFuel (fuel + 1)) step).Orderly := inferInstance
  have hcontinues := horderly.continues w
  rw [hexpand] at hcontinues
  rw [perform, Action.bind_apply, hexpand]
  exact eval_toString (hcontinues.evaluatesOn hevaluates) n fits

/-- The text of an integer, evaluated in any context, as a script on a node and as what a step
expands to, gives one number that is equal to the integer. It is the integer itself when that has 63
bits and a sign and is not the least of those, and the double nearest to it when it has 64 bits. -/
theorem eval_integer (n : Int) (fits : -0x8000000000000000 ≤ n ∧ n < 0x10000000000000000) :
    ∃ x : Number, x.same (.integer n fits) = true ∧
      (-0x8000000000000000 < n → n < 0x8000000000000000 → x = .integer n fits) ∧
      (0x8000000000000000 ≤ n → ∃ finite, x = .floating (Float.ofInt n) finite) ∧
      ∀ fuel, (∀ c, (Language.ofFuel (fuel + 1)).evaluate c (Number.integer n fits).text =
          pure (.number x)) ∧
        ∀ (m : NodeId) (w : World), w.evaluatesOn m = true →
          (m.eval (.ofFuel (fuel + 1)) (Number.integer n fits).text w).1 = .done (.number x) ∧
          ∀ step w₁, m.expand (.ofFuel (fuel + 1)) step w =
              (.done (Number.integer n fits).text, w₁) →
            (m.perform (.ofFuel (fuel + 1)) step w).1 = .done (.number x) := by
  refine ⟨Number.reread n fits, Number.reread_same, fun hlow hhigh => ?_, fun hlarge => ?_,
    fun fuel => ⟨fun c => ?_, fun m w hevaluates => ⟨?_, fun step w₁ hexpand => ?_⟩⟩⟩
  · exact Number.reread_of_lt hlow hhigh
  · exact ⟨_, Number.reread_of_le (.inr hlarge)⟩
  · exact Language.evaluate_toString fuel c n fits
  · exact eval_toString hevaluates n fits
  · exact perform_toString hevaluates n fits hexpand

/-- The least integer but one of 63 bits and a sign goes through a placeholder. -/
theorem eval_integer_placeholder :
    ∃ w₁, (⟨1⟩ : NodeId).expand (.ofFuel 1) "$\x7bn\x7d" .counter =
        (.done "-9223372036854775807", w₁) ∧
      ((⟨1⟩ : NodeId).perform (.ofFuel 1) "$\x7bn\x7d" .counter).1 =
        .done (.number (.integer (-9223372036854775807) (by decide))) := by
  obtain ⟨x, -, hexact, -, hruns⟩ := eval_integer (-9223372036854775807) (by decide)
  obtain rfl := hexact (by decide) (by decide)
  obtain ⟨-, hexpanded⟩ := (hruns 0).2 ⟨1⟩ .counter rfl
  have hdone : ((⟨1⟩ : NodeId).expand (.ofFuel 1) "$\x7bn\x7d" .counter).1 =
      .done "-9223372036854775807" := by
    cbv
  rcases hexpand : (⟨1⟩ : NodeId).expand (.ofFuel 1) "$\x7bn\x7d" .counter with ⟨outcome, w₁⟩
  rw [hexpand] at hdone
  obtain rfl : outcome = .done "-9223372036854775807" := hdone
  exact ⟨w₁, rfl, hexpanded _ w₁ hexpand⟩

/-- The greatest integer of 64 bits and the least one come back as doubles. -/
theorem eval_ends :
    (∃ finite, ((⟨1⟩ : NodeId).eval (.ofFuel 1) "18446744073709551615" .counter).1 =
        .done (.number (.floating (Float.ofInt 18446744073709551615) finite))) ∧
      ∃ finite, ((⟨1⟩ : NodeId).eval (.ofFuel 1) "-9223372036854775808" .counter).1 =
        .done (.number (.floating (Float.ofInt (-9223372036854775808)) finite)) := by
  have hevaluates : World.counter.evaluatesOn ⟨1⟩ = true := rfl
  have hgreatest := @eval_toString _ _ 0 hevaluates 18446744073709551615 (by decide)
  have hleast := @eval_toString _ _ 0 hevaluates (-9223372036854775808) (by decide)
  rw [Number.reread_of_le (.inr (by decide))] at hgreatest
  rw [Number.reread_of_le (.inl rfl)] at hleast
  exact ⟨⟨_, hgreatest⟩, ⟨_, hleast⟩⟩

end NodeId

end ScriptTree
