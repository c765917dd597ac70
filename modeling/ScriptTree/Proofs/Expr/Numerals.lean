import ScriptTree.Expr.Lexer
import ScriptTree.Expr.Parser
import ScriptTree.Proofs.Number.Overflow
import ScriptTree.Proofs.Number.Signed

/-!
# Numbers in a statement

A number stands in a statement as digits, a point with digits behind it, and an exponent; the last
two may be missing (`Numeral`). What the lexer takes for a number is a numeral
(`exists_numeral_of_takeNumber`). Only the digits of the exponent may be missing too, and a numeral
that has them denotes a number exactly where that is below the limit of the doubles
(`Numeral.literal?_token`).
-/

set_option autoImplicit false

namespace ScriptTree.Expr

open Number (Digits Sign)

/-! ## The written form -/

/-- The exponent of a numeral: a letter, an optional sign, and digits, which may be missing. -/
structure Exponent where
  capital : Bool
  sign : Sign
  digits : List Char
  decimal : ∀ c ∈ digits, c.isDigit = true

/-- An exponent as it is written. -/
def Exponent.chars (x : Exponent) : List Char :=
  (if x.capital then 'E' else 'e') :: (x.sign.chars ++ x.digits)

/-- The integer that an exponent denotes. -/
def Exponent.value (x : Exponent) : Int := x.sign.apply (Nat.ofDigitChars 10 x.digits 0)

/-- A number as it stands in a statement. -/
structure Numeral where
  whole : Digits
  fraction : Option Digits
  exponent : Option Exponent

namespace Numeral

/-- A numeral as it is written. -/
def chars (n : Numeral) : List Char :=
  n.whole.chars ++ ((n.fraction.map fun f => '.' :: f.chars).getD [] ++
    (n.exponent.map (·.chars)).getD [])

/-- The parts of a numeral. -/
def written (n : Numeral) : Written where
  whole := n.whole.chars
  fraction := n.fraction.map (·.chars)
  exponent := n.exponent.map fun x => (x.sign == .minus, x.digits)

/-- The exponent, if there is one, has a digit. -/
def Complete (n : Numeral) : Prop := ∀ x ∈ n.exponent, x.digits ≠ []

/-- The digits in front of the exponent, as a number. -/
def significand (n : Numeral) : ℚ :=
  n.whole.value + (n.fraction.map fun f => (f.value : ℚ) / 10 ^ f.chars.length).getD 0

/-- The number that a numeral denotes. -/
def value (n : Numeral) : ℚ := n.significand * 10 ^ ((n.exponent.map (·.value)).getD 0)

end Numeral

/-! ## What the lexer takes -/

section Lexer

variable {s rest : List Char} {c : Char}

/-- A fraction has a digit at least. -/
theorem exists_digits_of_takeFraction (s : List Char) :
    ∃ f : Option Digits, f.map (·.chars) = (takeFraction s).1 ∧
      (f.map fun d => '.' :: d.chars).getD [] ++ (takeFraction s).2 = s := by
  unfold takeFraction
  split
  · rename_i body
    dsimp only
    split
    · exact ⟨none, rfl, rfl⟩
    · rename_i hsome
      refine ⟨some ⟨body.takeWhile Char.isDigit, ?_, fun c => List.mem_takeWhile_imp⟩, rfl, ?_⟩
      · exact fun hnil => hsome (List.isEmpty_iff.mpr hnil)
      · exact congrArg ('.' :: ·) (List.prefix_iff_eq_append.mp (List.takeWhile_prefix _))
  · exact ⟨none, rfl, rfl⟩

theorem exists_sign_of_takeSign (s : List Char) :
    ∃ sign : Sign, (sign == .minus) = (Number.takeSign s).1 ∧
      sign.chars ++ (Number.takeSign s).2 = s := by
  unfold Number.takeSign
  split
  · exact ⟨.plus, rfl, rfl⟩
  · exact ⟨.minus, rfl, rfl⟩
  · exact ⟨.absent, rfl, rfl⟩

theorem exists_exponent_of_takeExponent (s : List Char) :
    ∃ x : Option Exponent, x.map (fun x => (x.sign == .minus, x.digits)) = (takeExponent s).1 ∧
      (x.map (·.chars)).getD [] ++ (takeExponent s).2 = s := by
  cases s with
  | nil => exact ⟨none, rfl, rfl⟩
  | cons c body =>
      rw [takeExponent]
      split
      · rename_i hmark
        obtain ⟨sign, hsign, hbody⟩ := exists_sign_of_takeSign body
        refine ⟨some ⟨c == 'E', sign, (Number.takeSign body).2.takeWhile Char.isDigit,
          fun c => List.mem_takeWhile_imp⟩, ?_, ?_⟩
        · exact congrArg (fun negative => some (negative,
            (Number.takeSign body).2.takeWhile Char.isDigit)) hsign
        · have hc : (if (c == 'E') = true then 'E' else 'e') = c := by
            rcases Bool.or_eq_true _ _ ▸ hmark with he | hE
            · rw [eq_of_beq he]
              rfl
            · rw [eq_of_beq hE]
              rfl
          show (if (c == 'E') = true then 'E' else 'e') :: (sign.chars ++
            (Number.takeSign body).2.takeWhile Char.isDigit) ++
            (Number.takeSign body).2.dropWhile Char.isDigit = c :: body
          rw [hc, List.cons_append, List.append_assoc, List.takeWhile_append_dropWhile, hbody]
      · exact ⟨none, rfl, rfl⟩

/-- What the lexer takes for a number is a numeral. -/
theorem exists_numeral_of_takeNumber (hc : c.isDigit = true) (s : List Char) :
    ∃ n : Numeral, n.written = (takeNumber (c :: s)).1 ∧
      n.chars ++ (takeNumber (c :: s)).2 = c :: s := by
  obtain ⟨fraction, hfraction, hrest⟩ :=
    exists_digits_of_takeFraction ((c :: s).dropWhile Char.isDigit)
  obtain ⟨exponent, hexponent, hend⟩ :=
    exists_exponent_of_takeExponent (takeFraction ((c :: s).dropWhile Char.isDigit)).2
  have hwhole : (c :: s).takeWhile Char.isDigit ≠ [] := by
    rw [List.takeWhile_cons_of_pos hc]
    exact List.cons_ne_nil _ _
  refine ⟨⟨⟨_, hwhole, fun _ => List.mem_takeWhile_imp⟩, fraction, exponent⟩, ?_, ?_⟩
  · rw [Numeral.written, hfraction, hexponent]
    rfl
  · show (c :: s).takeWhile Char.isDigit ++ _ ++ (takeExponent
      (takeFraction ((c :: s).dropWhile Char.isDigit)).2).2 = c :: s
    rw [List.append_assoc, List.append_assoc, hend, hrest, List.takeWhile_append_dropWhile]

end Lexer

/-! ## What numerals denote -/

/-- The literal that a token stands for where it is an operand. -/
def Token.literal? : Token → Option Literal
  | .int n => some (.number (.ofNat n))
  | .float x => some (floatLiteral x)
  | .text s => some (.text s)
  | .word s => wordLiteral? s
  | .mark _ | .finish => none

/-- An unsigned decimal is below the limit of the doubles as a fraction of integers is. -/
theorem lt_limit_iff (m : Nat) (e : Int) :
    m * 10 ^ e.toNat < Double.limit * 10 ^ (-e).toNat ↔ (m : ℚ) * 10 ^ e < Double.limit := by
  have hten : ∀ n : Nat, (0 : ℚ) < 10 ^ n := fun n => by positivity
  rcases Int.le_total 0 e with hpos | hneg
  · obtain ⟨n, rfl⟩ := Int.eq_ofNat_of_zero_le hpos
    have hzero : (-(n : Int)).toNat = 0 := by omega
    rw [hzero, Int.toNat_natCast, Nat.pow_zero, Nat.mul_one, zpow_natCast]
    exact_mod_cast Iff.rfl
  · obtain ⟨n, hn⟩ := Int.eq_ofNat_of_zero_le (Int.neg_nonneg_of_nonpos hneg)
    have hzero : e.toNat = 0 := by omega
    have he : e = -(n : Int) := by omega
    rw [hzero, hn, Int.toNat_natCast, Nat.pow_zero, Nat.mul_one, he, zpow_neg, zpow_natCast,
      ← div_eq_mul_inv, div_lt_iff₀ (hten n)]
    exact_mod_cast Iff.rfl

theorem cast_twoTo (n : Nat) : (Decimal.twoTo n : ℚ) = 2 ^ n := Nat.cast_pow 2 n

theorem limit_eq : (Double.limit : ℚ) = 2 ^ 1024 - 2 ^ 970 := by
  have hpower : (2 : ℚ) ^ 1024 = 2 ^ 54 * 2 ^ 970 := pow_add 2 54 970
  have hdigits : ((2 ^ 54 - 1 : Nat) : ℚ) = 2 ^ 54 - 1 := by norm_num
  rw [hpower, Double.limit, Nat.cast_mul, cast_twoTo, hdigits, sub_one_mul]

namespace Numeral

variable (n : Numeral)

/-- The digits behind the point. -/
def fractionDigits : List Char := (n.fraction.map (·.chars)).getD []

/-- The digits of a numeral as an integer. -/
def mantissa : Nat := Nat.ofDigitChars 10 (n.whole.chars ++ n.fractionDigits) 0

/-- The exponent of the last digit. -/
def scale : Int := (n.exponent.map (·.value)).getD 0 - n.fractionDigits.length

/-- The point moves behind the last digit. -/
theorem significand_eq : n.significand = n.mantissa / 10 ^ n.fractionDigits.length := by
  have hfraction : (n.fraction.map fun f => (f.value : ℚ) / 10 ^ f.chars.length).getD 0 =
      (Nat.ofDigitChars 10 n.fractionDigits 0 : ℚ) / 10 ^ n.fractionDigits.length := by
    rw [fractionDigits]
    cases n.fraction with
    | none => exact (div_one _).symm.trans (by simp)
    | some f => rfl
  have hmantissa : n.mantissa = 10 ^ n.fractionDigits.length * n.whole.value +
      Nat.ofDigitChars 10 n.fractionDigits 0 := by
    rw [mantissa, Nat.ofDigitChars_append]
    exact Nat.ofDigitChars_eq_ofDigitChars_zero
  rw [significand, hfraction, hmantissa, Nat.cast_add, Nat.cast_mul, Nat.cast_pow, add_div,
    Nat.cast_ofNat, mul_div_cancel_left₀ _ (by positivity)]

theorem value_eq : n.value = (n.mantissa : ℚ) * 10 ^ n.scale := by
  rw [value, significand_eq, scale, zpow_sub₀ (by norm_num), zpow_natCast]
  ring

/-- The double of a numeral is that of its digits at the exponent of the last one. -/
theorem toFloat_written (hcomplete : n.Complete) :
    n.written.toFloat = Number.scientific n.mantissa n.scale := by
  obtain ⟨whole, fraction, exponent⟩ := n
  cases exponent with
  | none => rfl
  | some x =>
      have hdigits : x.digits.isEmpty = false := List.isEmpty_eq_false_iff.mpr (hcomplete x rfl)
      have hexponent : (if (x.sign == .minus) = true then -(Number.digitsValue x.digits : Int)
          else Number.digitsValue x.digits) = x.value := by
        rw [Exponent.value]
        cases x.sign <;> rfl
      rw [Written.toFloat]
      show (if x.digits.isEmpty = true then _ else Number.scientific _
        ((if (x.sign == .minus) = true then -(Number.digitsValue x.digits : Int)
          else Number.digitsValue x.digits) - _)) = _
      rw [hdigits, hexponent]
      rfl

/-- A numeral of digits alone denotes the integer that they are. -/
theorem value_of_plain (hfraction : n.fraction = none) (hexponent : n.exponent = none) :
    n.value = (Number.digitsValue n.whole.chars : ℚ) := by
  rw [value, significand, hfraction, hexponent]
  simp only [Option.map_none, Option.getD_none, add_zero, zpow_zero, mul_one]
  rfl

/-- The literal of a double is a number where the double is finite. -/
theorem literal?_float (x : Float) :
    (x.isFinite = true → ∃ m, (Token.float x).literal? = some (.number m)) ∧
      (¬x.isFinite = true → (Token.float x).literal? = some .null) := by
  rw [Token.literal?, floatLiteral, Number.ofFloat?]
  refine ⟨fun hfinite => ?_, fun hfinite => ?_⟩
  · rw [dif_pos hfinite]
    exact ⟨_, rfl⟩
  · rw [dif_neg hfinite]

/-- A numeral whose exponent has a digit is a number where it is below the limit of the doubles, and
null from there on. -/
theorem literal?_token (hcomplete : n.Complete) :
    (n.value < 2 ^ 1024 - 2 ^ 970 → ∃ m, n.written.token.literal? = some (.number m)) ∧
      (2 ^ 1024 - 2 ^ 970 ≤ n.value → n.written.token.literal? = some .null) := by
  rw [← limit_eq, Written.token]
  split
  · -- An integer token is far below the limit.
    rename_i hplain
    simp only [Bool.and_eq_true, decide_eq_true_eq] at hplain
    obtain ⟨⟨hfraction, hexponent⟩, hfits⟩ := hplain
    have hvalue := n.value_of_plain
      (Option.map_eq_none_iff.mp (Option.isNone_iff_eq_none.mp hfraction))
      (Option.map_eq_none_iff.mp (Option.isNone_iff_eq_none.mp hexponent))
    have hbelow : Number.digitsValue n.whole.chars < Double.limit :=
      Nat.lt_of_lt_of_le hfits Double.two_pow_63_le_limit
    have hlimit : n.value < Double.limit := by
      rw [hvalue]
      exact Nat.cast_lt.mpr hbelow
    exact ⟨fun _ => ⟨_, rfl⟩, fun hle => absurd hlimit (not_lt.mpr hle)⟩
  · rw [n.toFloat_written hcomplete, ← not_lt, n.value_eq, ← lt_limit_iff,
      ← Double.isFinite_scientific]
    exact literal?_float _

end Numeral

end ScriptTree.Expr
