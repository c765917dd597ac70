import ScriptTree.Number.Reading
import ScriptTree.Proofs.Number.Finite

/-!
# Decimals past the greatest double

A decimal is finite as a double exactly where it is below the number halfway between the greatest
double and the power of two behind it (`isFinite_scientific`): at that number rounding carries the
mantissa to one digit too many, and the exponent is past the greatest one. A decimal with a short
mantissa and a small exponent is computed from two doubles that are exact, every other one as a
quotient of integers that is rounded once (`ratio`).
-/

set_option autoImplicit false

namespace ScriptTree.Double

open Float.Model (UnpackedFloat Format totalExponent)
open Float.Model.UnpackedFloat

/-! ## The limit -/

/-- The least number that rounds to infinity: `2 ^ 1024 - 2 ^ 970`. -/
def limit : Nat := (2 ^ 54 - 1) * Decimal.twoTo 970

theorem twoTo_mono {j k : Nat} (h : j ≤ k) : Decimal.twoTo j ≤ Decimal.twoTo k :=
  Nat.pow_le_pow_right (by decide) h

theorem two_pow_add_eq (n j : Nat) : 2 ^ (n + j) = Decimal.twoTo n * 2 ^ j := Nat.pow_add 2 n j

theorem limit_mul (d j : Nat) : limit * (d * 2 ^ j) = (2 ^ 54 - 1) * 2 ^ (970 + j) * d := by
  rw [limit, two_pow_add_eq]
  ring

theorem two_pow_63_le_limit : 0x8000000000000000 ≤ limit :=
  Nat.le_trans (by decide : 0x8000000000000000 ≤ (2 ^ 54 - 1) * Decimal.twoTo 10)
    (Nat.mul_le_mul_left _ (twoTo_mono (by decide)))

/-- A rounded quotient reaches an even number from half a unit below it on. -/
theorem le_roundedDiv_iff {n m d : Nat} (heven : n % 2 = 0) (hn : 0 < n) (hd : 0 < d) :
    n ≤ roundedDiv m d ↔ (2 * n - 1) * d ≤ 2 * m := by
  have hm : d * (m / d) + m % d = m := Nat.div_add_mod m d
  have hr : m % d < d := Nat.mod_lt m hd
  have hdouble : (2 * n - 1) * d + d = 2 * (d * n) := by
    rw [← Nat.succ_mul, Nat.succ_eq_add_one, Nat.sub_add_cancel (by omega), Nat.mul_assoc,
      Nat.mul_comm n d]
  rw [roundedDiv]
  generalize m / d = q at hm
  generalize m % d = r at hm hr
  rcases Nat.lt_trichotomy n (q + 1) with hlt | heq | hgt
  · -- The even number is reached without rounding.
    have hmul : d * n ≤ d * q := Nat.mul_le_mul_left d (Nat.le_of_lt_succ hlt)
    split_ifs <;> omega
  · subst heq
    have hmul : d * (q + 1) = d * q + d := Nat.mul_succ d q
    split_ifs <;> omega
  · have hmul : d * (q + 2) ≤ d * n := Nat.mul_le_mul_left d hgt
    have hsucc : d * (q + 2) = d * q + 2 * d := by rw [Nat.mul_add, Nat.mul_comm d 2]
    split_ifs <;> omega

/-! ## Rounded quotients -/

section Quotient

variable {m d : Nat} {t : Int}

/-- A quotient of integers at an exponent, rounded to a double. -/
def ratio (m d : Nat) (t : Int) : UnpackedFloat :=
  roundWithAccuracy Format.binary64 .positive (m / d) t (accuracyOfFraction (m % d) d)

/-- The number of digits that a quotient has too many. -/
def surplus (m d : Nat) : Nat := (m / d).log2 - 52

/-- The mantissa of a rounded quotient, before a carry is shifted out of it. -/
def ratioMantissa (m d : Nat) : Nat := roundedDiv m (d * 2 ^ surplus m d)

theorem shiftToTargetExponent_eq {n : Nat} (ht : -1074 ≤ t) (a : Accuracy) :
    shiftToTargetExponent Format.binary64 n t a =
      (ExtendedMantissa.ofMantissaAndAccuracy n a >>> (n.log2 - 52), t + (n.log2 - 52 : Nat)) := by
  have hshift : (Format.binary64.targetExponent (totalExponent n t) - t).toNat = n.log2 - 52 := by
    rw [targetExponent_eq, totalExponent]
    omega
  rw [shiftToTargetExponent, shiftToExponent]
  simp only [hshift]

/-- The exponent of a rounded quotient is that of its digits, and one more after a carry. -/
theorem ratio_cases (hd : 0 < d) (ht : -1074 ≤ t) :
    ratioMantissa m d = 0 ∧ ratio m d t = .zero .positive ∨
      ratioMantissa m d ≠ 0 ∧ ∃ c hc, ratio m d t =
        .finite .positive c (t + surplus m d + ((ratioMantissa m d).log2 - 52 : Nat)) hc := by
  have hfirst := shiftToTargetExponent_eq (n := m / d) ht (accuracyOfFraction (m % d) d)
  have hsecond := shiftToTargetExponent_eq (n := ratioMantissa m d) (t := t + surplus m d)
    (by omega) .exact
  have hratio : ratio m d t =
      (let second := shiftToTargetExponent Format.binary64 (ratioMantissa m d) (t + surplus m d)
        .exact
       if h : second.1.mantissa = 0 then .zero .positive
       else .finite .positive second.1.mantissa second.2 (Nat.pos_of_ne_zero h)) := by
    rw [ratio, roundWithAccuracy, hfirst]
    simp only [roundedMantissa_quotient hd]
    rfl
  rw [hratio, hsecond]
  simp only [mantissa_shiftRight, mantissa_ofMantissaAndAccuracy]
  split
  · rename_i hzero
    refine .inl ⟨?_, rfl⟩
    by_contra hne
    -- The surplus digits of a mantissa never are all that it has.
    have hself := Nat.log2_self_le hne
    have hle : 2 ^ ((ratioMantissa m d).log2 - 52) ≤ ratioMantissa m d :=
      Nat.le_trans (Nat.pow_le_pow_right (by decide) (Nat.sub_le _ _)) hself
    exact absurd hzero (Nat.ne_of_gt (Nat.div_pos hle (Nat.two_pow_pos _)))
  · rename_i hne
    refine .inr ⟨fun hzero => hne ?_, _, Nat.pos_of_ne_zero hne, rfl⟩
    rw [hzero, Nat.zero_div]

theorem div_lt_two_pow (m d : Nat) : m / d < 2 ^ (53 + surplus m d) := by
  have hlog : m / d < 2 ^ ((m / d).log2 + 1) := Nat.lt_log2_self
  refine Nat.lt_of_lt_of_le hlog (Nat.pow_le_pow_right (by decide) ?_)
  rw [surplus]
  omega

theorem two_pow_le_div (h : surplus m d ≠ 0) : 2 ^ (52 + surplus m d) ≤ m / d := by
  rw [surplus] at h ⊢
  have hne : m / d ≠ 0 := by
    intro hzero
    rw [hzero, Nat.log2_zero] at h
    omega
  rw [show 52 + ((m / d).log2 - 52) = (m / d).log2 by omega]
  exact Nat.log2_self_le hne

theorem ratioMantissa_le (m d : Nat) : ratioMantissa m d ≤ 2 ^ 53 := by
  have hdiv : m / (d * 2 ^ surplus m d) < 2 ^ 53 := by
    rw [← Nat.div_div_eq_div_mul, Nat.div_lt_iff_lt_mul (Nat.two_pow_pos _), ← Nat.pow_add]
    exact div_lt_two_pow m d
  exact Nat.le_trans (roundedDiv_le _ _) hdiv

/-- Rounding carries a mantissa to a digit too many at half a unit below it. -/
theorem log2_ratioMantissa_iff (hd : 0 < d) :
    53 ≤ (ratioMantissa m d).log2 ↔ (2 ^ 54 - 1) * (d * 2 ^ surplus m d) ≤ 2 * m := by
  have hpos : 0 < d * 2 ^ surplus m d := Nat.mul_pos hd (Nat.two_pow_pos _)
  have hiff := le_roundedDiv_iff (n := 2 ^ 53) (m := m) (by decide) (by decide) hpos
  rw [show 2 * 2 ^ 53 - 1 = 2 ^ 54 - 1 by decide] at hiff
  have hcarry : 53 ≤ (ratioMantissa m d).log2 ↔ 2 ^ 53 ≤ ratioMantissa m d := by
    by_cases hzero : ratioMantissa m d = 0
    · rw [hzero, Nat.log2_zero]
      decide
    · exact Nat.le_log2 hzero
  rw [hcarry, ratioMantissa, hiff]

/-- A quotient at an exponent that is not positive is out of range of the exponents of doubles where
it is at the limit or past it. -/
theorem exponent_le_iff (hd : 0 < d) (j : Nat) :
    -(j : Int) + surplus m d + ((ratioMantissa m d).log2 - 52 : Nat) ≤ 971 ↔
      m < limit * (d * 2 ^ j) := by
  have hmantissa : (ratioMantissa m d).log2 ≤ 53 := by
    have hlog := log2_le_of_le (ratioMantissa_le m d)
    rwa [Nat.log2_two_pow] at hlog
  rw [limit_mul]
  obtain ⟨k, hk⟩ : ∃ k, 970 + j = k := ⟨_, rfl⟩
  rw [hk]
  rcases Nat.lt_trichotomy (surplus m d) (k + 1) with hlt | heq | hgt
  · -- All digits are below the limit, even after a carry.
    refine ⟨fun _ => ?_, fun _ => by omega⟩
    calc
      m < 2 ^ (53 + surplus m d) * d := (Nat.div_lt_iff_lt_mul hd).mp (div_lt_two_pow m d)
      _ ≤ 2 ^ (53 + k) * d :=
        Nat.mul_le_mul_right _ (Nat.pow_le_pow_right (by decide) (by omega))
      _ = 2 ^ 53 * 2 ^ k * d := by rw [Nat.pow_add]
      _ ≤ (2 ^ 54 - 1) * 2 ^ k * d :=
        Nat.mul_le_mul_right _ (Nat.mul_le_mul_right _ (by decide))
  · -- At the greatest exponent the carry decides.
    have hscale : (2 ^ 54 - 1) * (d * 2 ^ surplus m d) = 2 * ((2 ^ 54 - 1) * 2 ^ k * d) := by
      rw [heq, Nat.pow_succ 2 k]
      ring
    have hcarry : 53 ≤ (ratioMantissa m d).log2 ↔ (2 ^ 54 - 1) * 2 ^ k * d ≤ m := by
      rw [log2_ratioMantissa_iff hd, hscale, Nat.mul_le_mul_left_iff (by decide)]
    rw [← Nat.not_le, ← hcarry]
    clear hscale hcarry
    omega
  · refine ⟨fun hle => absurd hle (by omega), fun hm => absurd hm (Nat.not_lt.mpr ?_)⟩
    calc
      (2 ^ 54 - 1) * 2 ^ k * d ≤ 2 ^ 54 * 2 ^ k * d :=
        Nat.mul_le_mul_right _ (Nat.mul_le_mul_right _ (by decide))
      _ = 2 ^ (54 + k) * d := by rw [Nat.pow_add]
      _ ≤ 2 ^ (52 + surplus m d) * d :=
        Nat.mul_le_mul_right _ (Nat.pow_le_pow_right (by decide) (by omega))
      _ ≤ m := (Nat.le_div_iff_mul_le hd).mp (two_pow_le_div (by omega))

/-- A quotient that is rounded to nothing has no digits too many. -/
theorem surplus_eq_zero (hzero : ratioMantissa m d = 0) : surplus m d = 0 := by
  by_contra hne
  have hdigits : 2 ^ 52 ≤ m / (d * 2 ^ surplus m d) := by
    rw [← Nat.div_div_eq_div_mul, Nat.le_div_iff_mul_le (Nat.two_pow_pos _), ← Nat.pow_add]
    exact two_pow_le_div hne
  have hrounded := div_le_roundedDiv m (d * 2 ^ surplus m d)
  rw [ratioMantissa] at hzero
  omega

/-- Past the greatest exponent a double is stored as an infinity. -/
theorem isFinite_pack_iff {s : Sign} {c : Nat} {e : Int} {hc : 0 < c} :
    (Float.Model.pack (.finite s c e hc)).unpack.isFinite = true ↔ e ≤ 971 := by
  refine ⟨fun h => ?_, fun he => isFinite_pack (u := .finite s c e hc) (le_refl e) he⟩
  by_contra he
  have hbiased : (e + Format.binary64.exponentBias +
      Format.binary64.mantissaBitsWithoutImplicit).toNat = (e + 1075).toNat := by
    show (e + (1023 : Nat) + (52 : Nat)).toNat = _
    omega
  have hpast : 2 ^ Format.binary64.exponentBits ≤ (e + 1075).toNat + 1 := by
    show 2048 ≤ (e + 1075).toNat + 1
    omega
  have hpacked : UnpackedFloat.pack Format.binary64 (.finite s c e hc) =
      packedInfinity Format.binary64 s := by
    rw [UnpackedFloat.pack]
    simp only [hbiased]
    rw [if_pos hpast]
  have hinfinity : (Float.Model.pack (.finite s c e hc)).unpack.isFinite =
      (unpack Format.binary64 (packedInfinity Format.binary64 s)).isFinite := by
    rw [← hpacked]
    rfl
  rw [hinfinity] at h
  cases s <;> cases h

/-- A rounded quotient is stored as a finite double exactly where it is below the limit. -/
theorem isFinite_pack_ratio (m : Nat) (hd : 0 < d) {j : Nat} (hj : j ≤ 1074) :
    (Float.Model.pack (ratio m d (-(j : Int)))).unpack.isFinite = true ↔
      m < limit * (d * 2 ^ j) := by
  rw [← exponent_le_iff hd j]
  rcases ratio_cases (m := m) hd (show -1074 ≤ -(j : Int) by omega) with
    ⟨hzero, hratio⟩ | ⟨-, c, hc, hratio⟩
  · rw [hratio, surplus_eq_zero hzero, hzero, Nat.log2_zero]
    exact ⟨fun _ => by omega, fun _ => rfl⟩
  · rw [hratio, isFinite_pack_iff]

end Quotient

/-! ## Decimals -/

section Decimals

theorem limit_le_ten_pow {n : Nat} (h : 1024 ≤ n) : limit ≤ 10 ^ n := by
  obtain ⟨j, rfl⟩ := Nat.exists_eq_add_of_le (show 970 ≤ n by omega)
  have hdigits : 2 ^ 54 - 1 ≤ 2 ^ j :=
    Nat.le_trans (by decide) (Nat.pow_le_pow_right (by decide) (show 54 ≤ j by omega))
  calc
    limit ≤ Decimal.twoTo 970 * 2 ^ j := by
      rw [limit, Nat.mul_comm]
      exact Nat.mul_le_mul_left _ hdigits
    _ = 2 ^ (970 + j) := (two_pow_add_eq 970 j).symm
    _ ≤ 10 ^ (970 + j) := Nat.pow_le_pow_left (by decide) _

theorem limit_pos : 0 < limit := Nat.mul_pos (by decide) (Decimal.twoTo_pos _)

/-- The number of digits that a dividend is filled up by. -/
def filled (m d : Nat) : Nat :=
  (-(min 0 (Format.binary64.targetExponent (totalExponent m 0 - totalExponent d 0)))).toNat

theorem filled_le (m d : Nat) : filled m d ≤ 1074 := by
  rw [filled, targetExponent_eq]
  omega

/-- A division of integers is one rounded quotient. -/
theorem div_eq_ratio {m d : Nat} (hm : 0 < m) (hd : 0 < d) :
    div Format.binary64 (.finite .positive m 0 hm) (.finite .positive d 0 hd) =
      ratio (m * 2 ^ filled m d) d (-(filled m d : Int)) := by
  have htarget : min (0 - 0)
      (Format.binary64.targetExponent (totalExponent m 0 - totalExponent d 0)) =
        -(filled m d : Int) := by
    rw [filled]
    omega
  have hshift : ((0 : Int) - 0 - -(filled m d : Int)).toNat = filled m d := by omega
  rw [div, divCore]
  simp only [htarget, hshift, Nat.shiftLeft_eq]
  rfl

/-- A decimal that is computed from integers is finite exactly where it is below the limit. -/
theorem isFinite_pack_ofScientific (m : Nat) (e : Int) :
    (Float.Model.pack (UnpackedFloat.ofScientific Format.binary64 m e)).unpack.isFinite = true ↔
      m * 10 ^ e.toNat < limit * 10 ^ (-e).toNat := by
  have hten : ∀ n : Nat, 0 < 10 ^ n := fun n => Nat.pow_pos (by decide)
  rw [UnpackedFloat.ofScientific]
  split
  · rename_i hzero
    rw [hzero, Nat.zero_mul]
    exact ⟨fun _ => Nat.mul_pos limit_pos (hten _), fun _ => rfl⟩
  · rename_i hm
    split
    · rename_i hgreat
      have he : 2048 < e := hgreat
      have hzero : (-e).toNat = 0 := by omega
      rw [hzero, Nat.pow_zero, Nat.mul_one]
      refine ⟨fun h => absurd h (by decide), fun h => absurd h (Nat.not_lt.mpr ?_)⟩
      exact Nat.le_trans (limit_le_ten_pow (by omega)) (Nat.le_mul_of_pos_left _ (by omega))
    · split
      · rename_i hsmall
        have he : e < -(2048 + (m.log2 : Int)) := hsmall
        have hzero : e.toNat = 0 := by omega
        rw [hzero, Nat.pow_zero, Nat.mul_one]
        refine ⟨fun _ => ?_, fun _ => rfl⟩
        calc
          m < 2 ^ (m.log2 + 1) := Nat.lt_log2_self
          _ ≤ 2 ^ (-e).toNat := Nat.pow_le_pow_right (by decide) (by omega)
          _ ≤ 10 ^ (-e).toNat := Nat.pow_le_pow_left (by decide) _
          _ ≤ limit * 10 ^ (-e).toNat := Nat.le_mul_of_pos_left _ limit_pos
      · split
        · rename_i hnonneg
          have hproduct : mul Format.binary64
              (.finite .positive (m <<< 53) (-(53 : Nat)) (by
                simpa [Nat.pos_iff_ne_zero] using hm))
              (.finite .positive (10 ^ e.toNat) 0 (hten _)) =
              ratio (m * 2 ^ 53 * 10 ^ e.toNat) 1 (-(53 : Nat)) := by
            rw [ratio, Nat.div_one, Nat.mod_one, mul]
            simp only [Nat.shiftLeft_eq]
            rfl
          have hzero : (-e).toNat = 0 := by omega
          refine (Iff.of_eq (congrArg (fun u => (Float.Model.pack u).unpack.isFinite = true)
            hproduct)).trans ?_
          rw [isFinite_pack_ratio _ Nat.one_pos (by decide), hzero, Nat.one_mul, Nat.pow_zero,
            Nat.mul_one, Nat.mul_right_comm, Nat.mul_lt_mul_right (by decide)]
        · rename_i hneg
          have hzero : e.toNat = 0 := by omega
          rw [div_eq_ratio (by omega) (hten (-e).toNat),
            isFinite_pack_ratio _ (hten _) (filled_le _ _), hzero, Nat.pow_zero, Nat.mul_one,
            ← Nat.mul_assoc, Nat.mul_lt_mul_right (Nat.two_pow_pos _)]

/-- The stored double is finite and has all its digits, with an exponent as integers have. -/
def isModerate : UnpackedFloat → Bool
  | .finite _ c e _ => 2 ^ 52 ≤ c && c < 2 ^ 53 && -104 ≤ e && e ≤ 100
  | _ => false

theorem normal_of_isModerate {u : UnpackedFloat} (h : isModerate u = true) :
    Normal (-104) 100 u := by
  cases u with
  | finite s c e hc =>
      simp only [isModerate, Bool.and_eq_true, decide_eq_true_eq] at h
      obtain ⟨⟨⟨hleast, hgreatest⟩, hlow⟩, hhigh⟩ := h
      exact ⟨s, c, e, hc, rfl, hleast, hgreatest, hlow, hhigh⟩
  | infinity s => cases h
  | notANumber => cases h
  | zero s => cases h

/-- The powers of ten that are kept as doubles have all their digits. -/
theorem normal_power (e : Fin 23) :
    Normal (-104) 100 (Float.exactlyRepresentablePowersOfTen[e]).toModel.unpack := by
  refine normal_of_isModerate ?_
  revert e
  decide

theorem moderate_toFloat {n : Nat} (hn : n < 2 ^ 53) :
    Moderate n.toUInt64.toFloat.toModel.unpack := by
  rcases Nat.eq_zero_or_pos n with rfl | hpos
  · exact .inl ⟨.positive, rfl⟩
  · rw [unpack_toFloat hpos hn]
    obtain ⟨s, c, e, hc, heq, hleast, hgreatest, hlow, hhigh⟩ := (round_of_lt hpos hn).1
    exact .inr ⟨s, c, e, hc, heq, hleast, hgreatest, by omega, by omega⟩

/-- A short mantissa with a small exponent is far below the limit. -/
theorem short_lt_limit {m : Nat} {e : Int} (hm : m < 2 ^ 53) (he : e.natAbs ≤ 22) :
    m * 10 ^ e.toNat < limit * 10 ^ (-e).toNat := by
  have hpower : 10 ^ e.toNat ≤ 10 ^ 22 := Nat.pow_le_pow_right (by decide) (by omega)
  calc
    m * 10 ^ e.toNat < 2 ^ 53 * 10 ^ 22 := Nat.mul_lt_mul_of_lt_of_le hm hpower (by decide)
    _ ≤ (2 ^ 54 - 1) * Decimal.twoTo 74 := by decide
    _ ≤ limit := Nat.mul_le_mul_left _ (twoTo_mono (by decide))
    _ ≤ limit * 10 ^ (-e).toNat := Nat.le_mul_of_pos_right _ (Nat.pow_pos (by decide))

/-- A decimal is finite as a double exactly where it is below the limit. -/
theorem isFinite_scientific (m : Nat) (e : Int) :
    (Number.scientific m e).isFinite = true ↔ m * 10 ^ e.toNat < limit * 10 ^ (-e).toNat := by
  rw [Number.scientific, Float.ofScientific]
  split
  · rename_i hshort
    refine ⟨fun _ => short_lt_limit hshort.1 hshort.2, fun _ => ?_⟩
    have hmantissa := moderate_toFloat hshort.1
    have hpower := normal_power ⟨e.natAbs, Nat.lt_succ_of_le hshort.2⟩
    dsimp only
    split
    · exact isFinite_pack (div_atMost hmantissa hpower) (by decide)
    · exact isFinite_pack (mul_atMost hmantissa (.inr hpower)) (by decide)
  · have hexponent : (if decide (e < 0) = true then Int.negOfNat e.natAbs else Int.ofNat e.natAbs) =
        e := by
      by_cases hneg : e < 0
      · rw [if_pos (decide_eq_true hneg)]
        cases e with
        | ofNat n => exact absurd hneg (Int.not_lt.mpr (Int.natCast_nonneg n))
        | negSucc n => rfl
      · rw [if_neg (by simpa using hneg)]
        show ((e.natAbs : Nat) : Int) = e
        omega
    rw [hexponent]
    exact isFinite_pack_ofScientific m e

end Decimals

end ScriptTree.Double
