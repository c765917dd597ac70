import ScriptTree.Number.Arithmetic
import ScriptTree.Proofs.Number.Nearest

/-!
# The values of doubles

Every finite double is a whole multiple of the least positive one, so its value is an integer in
that unit (`units`). Stored mantissas and exponents are in canonical form (`canonical_unpack`), and
so doubles compare as their values do (`lt_iff`, `beq_iff`). An integer turns into a double by
rounding a mantissa with digits to spare (`roundWithAccuracy_normal`), once or, for a short one,
with a product by one behind it; either way it is the nearest double of the integer (`units_ofInt`).
-/

set_option autoImplicit false

namespace ScriptTree.Double

open Float.Model (UnpackedFloat Format totalExponent)
open Float.Model.UnpackedFloat

/-- The value of an unpacked finite double in units of `2 ^ -1074`, the least positive double. -/
def unitsOf : UnpackedFloat → Int
  | .finite s m e _ => s.apply (m * 2 ^ (e + 1074).toNat : Nat)
  | _ => 0

/-- The value of a finite double in units of the least positive one. -/
def units (x : Float) : Int := unitsOf x.toModel.unpack

/-- A mantissa has 53 binary digits; only at the least exponent it may have fewer. -/
def Canonical : UnpackedFloat → Prop
  | .finite _ m e _ => m < 2 ^ 53 ∧ -1074 ≤ e ∧ (2 ^ 52 ≤ m ∨ e = -1074)
  | _ => True

/-! ## Comparing canonical forms -/

section Compare

variable {m n : Nat} {d e : Int} {u v : UnpackedFloat}

/-- The greater exponent decides: a mantissa cannot make up for one binary place. -/
theorem mul_lt_of_exponent_lt (hm : m < 2 ^ 53) (hn : 2 ^ 52 ≤ n) {a b : Nat} (h : a < b) :
    m * 2 ^ a < n * 2 ^ b := by
  calc
    m * 2 ^ a < 2 ^ 53 * 2 ^ a := Nat.mul_lt_mul_of_pos_right hm (Nat.two_pow_pos a)
    _ = 2 ^ 52 * 2 ^ (a + 1) := by rw [← Nat.pow_add, ← Nat.pow_add]; congr 1; omega
    _ ≤ 2 ^ 52 * 2 ^ b := Nat.mul_le_mul_left _ (Nat.pow_le_pow_right (by decide) h)
    _ ≤ n * 2 ^ b := Nat.mul_le_mul_right _ hn

/-- Exponents first and then mantissas: that is the order of the magnitudes. -/
theorem compare_magnitudes {s t : Sign} {hm : 0 < m} {hn : 0 < n}
    (hu : Canonical (.finite s m d hm)) (hv : Canonical (.finite t n e hn)) :
    (compare d e).then (compare m n) =
      compare (m * 2 ^ (d + 1074).toNat) (n * 2 ^ (e + 1074).toNat) := by
  obtain ⟨hm53, hd, hmin⟩ := hu
  obtain ⟨hn53, he, hnin⟩ := hv
  rcases Int.lt_trichotomy d e with hlt | rfl | hgt
  · have hmag := mul_lt_of_exponent_lt hm53 (hnin.resolve_right (by omega))
      (show (d + 1074).toNat < (e + 1074).toNat by omega)
    rw [Int.compare_eq_lt.mpr hlt, Nat.compare_eq_lt.mpr hmag]
    rfl
  · have hpos := Nat.two_pow_pos (d + 1074).toNat
    rw [Int.compare_eq_eq.mpr rfl]
    rcases Nat.lt_trichotomy m n with hlt | rfl | hgt
    · rw [Nat.compare_eq_lt.mpr (Nat.mul_lt_mul_of_pos_right hlt hpos), Nat.compare_eq_lt.mpr hlt]
      rfl
    · rw [Nat.compare_eq_eq.mpr rfl, Nat.compare_eq_eq.mpr rfl]
      rfl
    · rw [Nat.compare_eq_gt.mpr (Nat.mul_lt_mul_of_pos_right hgt hpos), Nat.compare_eq_gt.mpr hgt]
      rfl
  · have hmag := mul_lt_of_exponent_lt hn53 (hmin.resolve_right (by omega))
      (show (e + 1074).toNat < (d + 1074).toNat by omega)
    rw [Int.compare_eq_gt.mpr hgt, Nat.compare_eq_gt.mpr hmag]
    rfl

theorem compare_natCast (m n : Nat) : compare (m : Int) (n : Int) = compare m n := by
  rcases Nat.lt_trichotomy m n with h | rfl | h
  · rw [Nat.compare_eq_lt.mpr h, Int.compare_eq_lt.mpr (Int.ofNat_lt.mpr h)]
  · rw [Nat.compare_eq_eq.mpr rfl, Int.compare_eq_eq.mpr rfl]
  · rw [Nat.compare_eq_gt.mpr h, Int.compare_eq_gt.mpr (Int.ofNat_lt.mpr h)]

theorem compare_neg (a b : Int) : compare (-a) (-b) = (compare a b).swap := by
  rcases Int.lt_trichotomy a b with h | rfl | h
  · rw [Int.compare_eq_lt.mpr h, Int.compare_eq_gt.mpr (by omega)]
    rfl
  · rw [Int.compare_eq_eq.mpr rfl, Int.compare_eq_eq.mpr rfl]
    rfl
  · rw [Int.compare_eq_gt.mpr h, Int.compare_eq_lt.mpr (by omega)]
    rfl

theorem magnitude_pos (hm : 0 < m) (e : Int) : 0 < m * 2 ^ (e + 1074).toNat :=
  Nat.mul_pos hm (Nat.two_pow_pos _)

theorem units_positive (hm : 0 < m) (e : Int) : 0 < unitsOf (.finite .positive m e hm) :=
  Int.natCast_pos.mpr (magnitude_pos hm e)

theorem units_negative (hm : 0 < m) (e : Int) : unitsOf (.finite .negative m e hm) < 0 :=
  Int.neg_neg_of_pos (Int.natCast_pos.mpr (magnitude_pos hm e))

/-- Finite doubles in canonical form compare as their values do. -/
theorem compare_eq (hu : Canonical u) (hv : Canonical v) (hfu : u.isFinite = true)
    (hfv : v.isFinite = true) :
    UnpackedFloat.compare u v = some (compare (unitsOf u) (unitsOf v)) := by
  cases u with
  | infinity s => cases hfu
  | notANumber => cases hfu
  | zero s =>
      cases v with
      | infinity t => cases hfv
      | notANumber => cases hfv
      | zero t => rfl
      | finite t n e hn =>
          cases t with
          | positive =>
              exact congrArg some (Int.compare_eq_lt.mpr (units_positive hn e)).symm
          | negative =>
              exact congrArg some (Int.compare_eq_gt.mpr (units_negative hn e)).symm
  | finite s m d hm =>
      cases v with
      | infinity t => cases hfv
      | notANumber => cases hfv
      | zero t =>
          cases s with
          | positive =>
              exact congrArg some (Int.compare_eq_gt.mpr (units_positive hm d)).symm
          | negative =>
              exact congrArg some (Int.compare_eq_lt.mpr (units_negative hm d)).symm
      | finite t n e hn =>
          have hmagnitudes := (compare_magnitudes hu hv).trans (compare_natCast _ _).symm
          cases s with
          | positive =>
              cases t with
              | positive => exact congrArg some hmagnitudes
              | negative =>
                  have hlt := Int.lt_trans (units_negative hn e) (units_positive hm d)
                  exact congrArg some (Int.compare_eq_gt.mpr hlt).symm
          | negative =>
              cases t with
              | positive =>
                  have hlt := Int.lt_trans (units_negative hm d) (units_positive hn e)
                  exact congrArg some (Int.compare_eq_lt.mpr hlt).symm
              | negative =>
                  refine congrArg some ?_
                  rw [hmagnitudes]
                  exact (compare_neg _ _).symm

end Compare

/-! ## Stored doubles -/

section Stored

variable {x y : Float}

theorem toNat_implicit_append (b : BitVec 52) : (1#1 ++ b).toNat = 2 ^ 52 + b.toNat := by
  rw [BitVec.toNat_append, ← Nat.shiftLeft_add_eq_or_of_lt b.isLt]
  rfl

/-- What is read from the bits of a double is in canonical form. -/
theorem canonical_unpack (b : BitVec Format.binary64.numBits) :
    Canonical (unpack Format.binary64 b) := by
  have hmantissa : (unpackMantissa b).toNat < 2 ^ 52 := (unpackMantissa b).isLt
  rw [unpack]
  split
  · split <;> exact trivial
  · split
    · rename_i hexponent
      split
      · exact trivial
      · -- The least exponent, where the leading digit is not implied.
        have hleast : ((unpackExponent b).toNat : Int) -
            (Format.binary64.exponentBias + Format.binary64.mantissaBitsWithoutImplicit) + 1 =
              -1074 := by
          rw [hexponent]
          decide
        exact ⟨by omega, Int.le_of_eq hleast.symm, .inr hleast⟩
    · rename_i hexponent
      have hpositive : 0 < (unpackExponent b).toNat := by
        refine Nat.pos_of_ne_zero fun hzero => hexponent ?_
        exact BitVec.eq_of_toNat_eq hzero
      have hbias : ((Format.binary64.exponentBias : Nat) : Int) = 1023 := rfl
      have happend := toNat_implicit_append (unpackMantissa b)
      refine ⟨?_, ?_, .inl ?_⟩
      · omega
      · rw [hbias]
        show (-1074 : Int) ≤ (unpackExponent b).toNat - (1023 + 52)
        omega
      · omega

theorem compare_toModel (hx : x.isFinite = true) (hy : y.isFinite = true) :
    UnpackedFloat.compare x.toModel.unpack y.toModel.unpack =
      some (compare (units x) (units y)) :=
  compare_eq (canonical_unpack _) (canonical_unpack _) hx hy

/-- Finite doubles are ordered as their values are. -/
theorem lt_iff (hx : x.isFinite = true) (hy : y.isFinite = true) : x < y ↔ units x < units y := by
  have hlt : x < y ↔ (UnpackedFloat.compare x.toModel.unpack y.toModel.unpack == some .lt) = true :=
    decide_eq_true_iff
  rw [hlt, compare_toModel hx hy, beq_iff_eq, Option.some.injEq, Int.compare_eq_lt]

/-- Finite doubles are equal where their values are, zeros of either sign included. -/
theorem beq_iff (hx : x.isFinite = true) (hy : y.isFinite = true) :
    (x == y) = true ↔ units x = units y := by
  have heq : (x == y) = (UnpackedFloat.compare x.toModel.unpack y.toModel.unpack == some .eq) := rfl
  rw [heq, compare_toModel hx hy, beq_iff_eq, Option.some.injEq, Int.compare_eq_eq]

end Stored

/-! ## Rounding -/

section Rounding

/-- What is left of a quotient after digits have been shifted out: the round bit says whether they
came to half a unit or more, and the sticky bit whether to neither zero nor half a unit. -/
theorem shiftRight_quotient_eq {d : Nat} (hd : 0 < d) (m k : Nat) :
    ExtendedMantissa.ofMantissaAndAccuracy (m / d) (accuracyOfFraction (m % d) d) >>> k =
      ⟨m / (d * 2 ^ k), decide (d * 2 ^ k ≤ 2 * (m % (d * 2 ^ k))),
        decide (2 * (m % (d * 2 ^ k)) ≠ 0 ∧ 2 * (m % (d * 2 ^ k)) ≠ d * 2 ^ k)⟩ := by
  induction k with
  | zero =>
      rw [Nat.pow_zero, Nat.mul_one, accuracyOfFraction]
      show ExtendedMantissa.ofMantissaAndAccuracy (m / d) _ = _
      split
      · rename_i hzero
        rw [hzero, decide_eq_false (by omega), decide_eq_false (by omega)]
        rfl
      · rcases Nat.lt_trichotomy (2 * (m % d)) d with hlt | heq | hgt
        · rw [Nat.compare_eq_lt.mpr hlt, decide_eq_false (by omega), decide_eq_true (by omega)]
          rfl
        · rw [Nat.compare_eq_eq.mpr heq, decide_eq_true (by omega), decide_eq_false (by omega)]
          rfl
        · rw [Nat.compare_eq_gt.mpr hgt, decide_eq_true (by omega), decide_eq_true (by omega)]
          rfl
  | succ k ih =>
      show (ExtendedMantissa.ofMantissaAndAccuracy (m / d) (accuracyOfFraction (m % d) d)
        >>> k).shiftRightOne = _
      have hunit : d * 2 ^ (k + 1) = d * 2 ^ k * 2 := by rw [Nat.pow_succ, Nat.mul_assoc]
      have hlow : m % (d * 2 ^ k) < d * 2 ^ k := Nat.mod_lt _ (Nat.mul_pos hd (Nat.two_pow_pos k))
      have hmod : m % (d * 2 ^ k * 2) = m % (d * 2 ^ k) + d * 2 ^ k * (m / (d * 2 ^ k) % 2) :=
        Nat.mod_mul
      have hdiv : m / (d * 2 ^ k) / 2 = m / (d * 2 ^ k * 2) := Nat.div_div_eq_div_mul _ _ _
      rw [ih, ExtendedMantissa.shiftRightOne, hunit, hdiv, hmod]
      generalize m % (d * 2 ^ k) = low at hlow
      generalize d * 2 ^ k = unit at hlow
      rcases Nat.mod_two_eq_zero_or_one (m / unit) with hbit | hbit
      · rw [hbit]
        congr 1 <;> rw [Bool.eq_iff_iff] <;> simp <;> omega
      · rw [hbit]
        congr 1 <;> rw [Bool.eq_iff_iff] <;> simp <;> omega

/-- A quotient is rounded at the place that it is shifted to. -/
theorem roundedMantissa_quotient {d : Nat} (hd : 0 < d) (m k : Nat) :
    (ExtendedMantissa.ofMantissaAndAccuracy (m / d) (accuracyOfFraction (m % d) d)
      >>> k).roundedMantissa = roundedDiv m (d * 2 ^ k) := by
  have hpos := Nat.mul_pos hd (Nat.two_pow_pos k)
  rw [shiftRight_quotient_eq hd, roundedDiv]
  generalize d * 2 ^ k = unit at hpos
  rcases Nat.lt_trichotomy (2 * (m % unit)) unit with hlt | heq | hgt
  · rw [if_pos hlt, decide_eq_false (by omega)]
    rcases Nat.eq_zero_or_pos (2 * (m % unit)) with hzero | hsome
    · rw [decide_eq_false (by omega)]
      rfl
    · rw [decide_eq_true (by omega)]
      rfl
  · rw [if_neg (by omega), if_neg (by omega), decide_eq_true (by omega), decide_eq_false (by omega)]
    rfl
  · rw [if_neg (by omega), if_pos hgt, decide_eq_true (by omega), decide_eq_true (by omega)]
    rfl

/-- An integer is a quotient by one. -/
theorem roundedMantissa_shiftRight (m k : Nat) :
    (ExtendedMantissa.ofMantissaAndAccuracy m .exact >>> k).roundedMantissa =
      roundedDiv m (2 ^ k) := by
  have hquotient := roundedMantissa_quotient Nat.one_pos m k
  rw [Nat.div_one, Nat.mod_one, Nat.one_mul] at hquotient
  exact hquotient

theorem targetExponent_eq (t : Int) : Format.binary64.targetExponent t = max (t - 53) (-1074) := rfl

/-- A finite double with all its 53 digits and an exponent in a range. -/
def Normal (low high : Int) (u : UnpackedFloat) : Prop :=
  ∃ s c d, ∃ hc : 0 < c, u = .finite s c d hc ∧ 2 ^ 52 ≤ c ∧ c < 2 ^ 53 ∧ low ≤ d ∧ d ≤ high

theorem log2_eq_of_digits {n j : Nat} (hlow : 2 ^ j ≤ n) (hhigh : n < 2 ^ (j + 1)) : n.log2 = j :=
  (Nat.log2_eq_iff (Nat.ne_of_gt (Nat.lt_of_lt_of_le (Nat.two_pow_pos j) hlow))).mpr ⟨hlow, hhigh⟩

/-- A mantissa of 53 digits is not shifted. -/
theorem shiftToTargetExponent_of_digits {c : Nat} {d : Int} (hlow : 2 ^ 52 ≤ c)
    (hhigh : c < 2 ^ 53) (hd : -1074 ≤ d) :
    shiftToTargetExponent Format.binary64 c d .exact = (⟨c, false, false⟩, d) := by
  have hlog : c.log2 = 52 := log2_eq_of_digits hlow hhigh
  have htarget : Format.binary64.targetExponent (totalExponent c d) = d := by
    rw [targetExponent_eq, totalExponent, hlog]
    omega
  rw [shiftToTargetExponent, htarget, shiftToExponent]
  simp only [Int.sub_self, Int.toNat_zero, Int.natCast_zero, Int.add_zero]
  rfl

/-- A mantissa that rounding has carried to 54 digits is shifted by one. -/
theorem shiftToTargetExponent_carried {d : Int} (hd : -1074 ≤ d) :
    shiftToTargetExponent Format.binary64 (2 ^ 53) d .exact = (⟨2 ^ 52, false, false⟩, d + 1) := by
  have htarget : Format.binary64.targetExponent (totalExponent (2 ^ 53) d) = d + 1 := by
    rw [targetExponent_eq, totalExponent, Nat.log2_two_pow]
    omega
  have hshift : (d + 1 - d).toNat = 1 := by omega
  rw [shiftToTargetExponent, htarget, shiftToExponent]
  simp only [hshift]
  rfl

/-- Rounding a mantissa of at least 53 digits: the value is the mantissa rounded, at the exponent
that was there before. -/
theorem roundWithAccuracy_normal (s : Sign) {m : Nat} {e : Int} (hm : 2 ^ 52 ≤ m) (he : -1074 ≤ e) :
    Normal e (e + m.log2 - 51) (roundWithAccuracy Format.binary64 s m e .exact) ∧
      unitsOf (roundWithAccuracy Format.binary64 s m e .exact) =
        s.apply (nearestNat m * 2 ^ (e + 1074).toNat : Nat) := by
  have hm0 : m ≠ 0 := by omega
  have hlog : 52 ≤ m.log2 := (Nat.le_log2 hm0).mpr hm
  obtain ⟨k, hk⟩ := Nat.exists_eq_add_of_le hlog
  have hplace : lastPlace m = 2 ^ k := by rw [lastPlace, hk, Nat.add_sub_cancel_left]
  have hfirst : shiftToTargetExponent Format.binary64 m e .exact =
      (ExtendedMantissa.ofMantissaAndAccuracy m .exact >>> k, e + k) := by
    have htarget : Format.binary64.targetExponent (totalExponent m e) = e + k := by
      rw [targetExponent_eq, totalExponent, hk]
      omega
    have hshift : (e + k - e).toNat = k := by omega
    rw [shiftToTargetExponent, htarget, shiftToExponent]
    simp only [hshift]
  have hlow : 2 ^ 52 ≤ roundedDiv m (2 ^ k) := by
    refine Nat.le_of_mul_le_mul_right ?_ (Nat.two_pow_pos k)
    rw [← Nat.pow_add, ← hk, ← hplace]
    exact le_nearestNat hm0
  have hhigh : roundedDiv m (2 ^ k) ≤ 2 ^ 53 := by
    refine Nat.le_of_mul_le_mul_right ?_ (Nat.two_pow_pos k)
    rw [← Nat.pow_add, show 53 + k = m.log2 + 1 by omega, ← hplace]
    exact nearestNat_le m
  have hvalue : nearestNat m = roundedDiv m (2 ^ k) * 2 ^ k := by rw [nearestNat, hplace]
  have hscale : (e + k + 1074).toNat = k + (e + 1074).toNat := by omega
  have hround : roundWithAccuracy Format.binary64 s m e .exact =
      (let second := shiftToTargetExponent Format.binary64 (roundedDiv m (2 ^ k)) (e + k) .exact
       if h : second.1.mantissa = 0 then .zero s
       else .finite s second.1.mantissa second.2 (Nat.pos_of_ne_zero h)) := by
    rw [roundWithAccuracy, hfirst]
    simp only [roundedMantissa_shiftRight]
  rw [hround, hvalue]
  rcases Nat.lt_or_eq_of_le hhigh with hlt | heq
  · rw [shiftToTargetExponent_of_digits hlow hlt (by omega)]
    simp only
    rw [dif_neg (by omega)]
    refine ⟨⟨s, _, _, by omega, rfl, hlow, hlt, by omega, by omega⟩, ?_⟩
    rw [unitsOf, hscale, Nat.pow_add, Nat.mul_assoc]
  · rw [heq, shiftToTargetExponent_carried (by omega)]
    simp only
    rw [dif_neg (by decide)]
    refine ⟨⟨s, _, _, by decide, rfl, by decide, by decide, by omega, by omega⟩, ?_⟩
    have hcarried : (e + k + 1 + 1074).toNat = 1 + k + (e + 1074).toNat := by omega
    rw [unitsOf, hcarried, ← Nat.pow_add, ← Nat.pow_add, ← Nat.pow_add]
    congr 3
    omega

end Rounding

/-! ## The double of an integer -/

section Conversion

theorem ofBitVec_toBitVec (s : Sign) : Sign.ofBitVec s.toBitVec = s := by
  cases s <;> rfl

theorem unpackSign_packComponents {format : Format} (s : Sign) (e : BitVec format.exponentBits)
    (m : BitVec format.mantissaBitsWithoutImplicit) :
    unpackSign (packComponents format s e m) = s.toBitVec := by
  refine BitVec.eq_of_getLsbD_eq fun i hi => ?_
  have hzero : i = 0 := by omega
  subst hzero
  simp [unpackSign, packComponents, BitVec.getLsbD_append, BitVec.getElem_append]

/-- A double with all its digits is read back from its bits. -/
theorem unpack_pack_of_normal {u : UnpackedFloat} {low high : Int} (h : Normal low high u)
    (hlow : -1074 ≤ low) (hhigh : high ≤ 971) : (Float.Model.pack u).unpack = u := by
  obtain ⟨s, c, d, hc, rfl, hleast, hgreatest, hmin, hmax⟩ := h
  have hlog : c.log2 + 1 = Format.binary64.mantissaBits := by
    rw [log2_eq_of_digits hleast hgreatest]
    rfl
  have hbiased : (d + Format.binary64.exponentBias +
      Format.binary64.mantissaBitsWithoutImplicit).toNat = (d + 1075).toNat := by
    show (d + (1023 : Nat) + (52 : Nat)).toNat = _
    omega
  have hfits : ¬ 2 ^ Format.binary64.exponentBits ≤ (d + 1075).toNat + 1 := by
    show ¬ 2048 ≤ (d + 1075).toNat + 1
    omega
  have hexponent : (BitVec.ofNat 11 (d + 1075).toNat).toNat = (d + 1075).toNat :=
    Nat.mod_eq_of_lt (show (d + 1075).toNat < 2 ^ 11 by omega)
  have hnotMax : BitVec.ofNat 11 (d + 1075).toNat ≠ -1#11 := by
    intro heq
    have hnat : (d + 1075).toNat = 2047 := hexponent.symm.trans (congrArg BitVec.toNat heq)
    omega
  have hnotZero : BitVec.ofNat 11 (d + 1075).toNat ≠ 0#11 := by
    intro heq
    have hnat : (d + 1075).toNat = 0 := hexponent.symm.trans (congrArg BitVec.toNat heq)
    omega
  have hmantissa : (1#1 ++ BitVec.ofNat 52 c).toNat = c := by
    rw [toNat_implicit_append]
    show 2 ^ 52 + c % 2 ^ 52 = c
    omega
  show unpack Format.binary64 (UnpackedFloat.pack Format.binary64 (.finite s c d hc)) = _
  rw [UnpackedFloat.pack]
  simp only [hbiased]
  rw [if_neg hfits, if_pos hlog, unpack]
  simp only [unpackMantissa_packComponents, unpackExponent_packComponents,
    unpackSign_packComponents, ofBitVec_toBitVec]
  rw [if_neg hnotMax, if_neg hnotZero]
  congr 1
  rw [hexponent]
  show ((d + 1075).toNat : Int) - ((1023 : Nat) + (52 : Nat)) = d
  omega

/-- One in units of the least positive double. -/
def unitsOfOne : Nat := Decimal.twoTo 1074

theorem unitsOfOne_pos : 0 < unitsOfOne := Decimal.twoTo_pos _

theorem two_pow_mul_two_pow {j k : Nat} (h : j + k = 1074) : 2 ^ j * 2 ^ k = unitsOfOne := by
  rw [← Nat.pow_add]
  exact congrArg Decimal.twoTo h

/-- The double that one is stored as. -/
def one : UnpackedFloat := .finite .positive (2 ^ 52) (-52) (by decide)

theorem mul_one_of_normal {u : UnpackedFloat} {low high : Int} (h : Normal low high u)
    (hlow : -1022 ≤ low) :
    Normal (low - 52) (high + 1) (mul Format.binary64 u one) ∧
      unitsOf (mul Format.binary64 u one) = unitsOf u := by
  obtain ⟨s, c, d, hc, rfl, hleast, hgreatest, hmin, hmax⟩ := h
  have hmul : mul Format.binary64 (.finite s c d hc) one =
      roundWithAccuracy Format.binary64 s (c * 2 ^ 52) (d - 52) .exact := by
    cases s <;> rfl
  have hdigits : 2 ^ 52 ≤ c * 2 ^ 52 := Nat.le_mul_of_pos_left _ hc
  have hlog : (c * 2 ^ 52).log2 = 104 := log2_eq_of_digits (by omega) (by omega)
  obtain ⟨⟨t, c', d', hc', heq, hleast', hgreatest', hmin', hmax'⟩, hunits⟩ :=
    roundWithAccuracy_normal s hdigits (show -1074 ≤ d - 52 by omega)
  rw [hlog] at hmax'
  refine ⟨⟨t, c', d', hc', hmul.trans heq, hleast', hgreatest', by omega, by omega⟩, ?_⟩
  have hscale : (d + 1074).toNat = 52 + (d - 52 + 1074).toNat := by omega
  rw [hmul, hunits, nearestNat_mul_two_pow hleast, nearestNat_of_lt hgreatest, unitsOf, hscale,
    Nat.pow_add, Nat.mul_assoc]

/-- A natural number of at most 53 digits, written with all of them. -/
theorem round_of_lt {n : Nat} (hpos : 0 < n) (hn : n < 2 ^ 53) :
    Normal (-52) 1 (UnpackedFloat.ofNat Format.binary64 n) ∧
      unitsOf (UnpackedFloat.ofNat Format.binary64 n) = (n * unitsOfOne : Nat) := by
  have hlog : n.log2 < 53 := (Nat.log2_lt (by omega)).mpr hn
  obtain ⟨j, hj⟩ := Nat.exists_eq_add_of_le (show n.log2 ≤ 52 by omega)
  have hlow : 2 ^ 52 ≤ n * 2 ^ j := by
    rw [hj, Nat.pow_add]
    exact Nat.mul_le_mul_right _ (Nat.log2_self_le (by omega))
  have hhigh : n * 2 ^ j < 2 ^ 53 := by
    rw [show 53 = n.log2 + 1 + j by omega, Nat.pow_add]
    exact Nat.mul_lt_mul_of_pos_right Nat.lt_log2_self (Nat.two_pow_pos j)
  have hround : UnpackedFloat.ofNat Format.binary64 n =
      roundWithAccuracy Format.binary64 .positive (n * 2 ^ j) (-j) .exact := by
    have htarget : Format.binary64.targetExponent (totalExponent n 0) = -j := by
      rw [targetExponent_eq, totalExponent]
      omega
    rw [UnpackedFloat.ofNat, UnpackedFloat.ofInt, UnpackedFloat.normalize,
      Int.compare_eq_gt.mpr (by omega)]
    simp only [UnpackedFloat.round, Int.toNat_natCast, htarget, decreaseExponent, Nat.shiftLeft_eq]
    have hshift : ((0 : Int) - -j).toNat = j := by omega
    rw [hshift, Int.zero_sub]
  have hlog' : (n * 2 ^ j).log2 = 52 := log2_eq_of_digits hlow hhigh
  obtain ⟨hnormal, hunits⟩ :=
    roundWithAccuracy_normal .positive hlow (show (-1074 : Int) ≤ -j by omega)
  obtain ⟨t, c, d, hc, heq, hleast, hgreatest, hmin, hmax⟩ := hnormal
  rw [hlog'] at hmax
  refine ⟨⟨t, c, d, hc, hround.trans heq, hleast, hgreatest, by omega, by omega⟩, ?_⟩
  rw [hround, hunits, nearestNat_of_lt hhigh, Nat.mul_assoc, two_pow_mul_two_pow (by omega)]
  rfl

/-- A natural number of at most 53 digits is stored as it is. -/
theorem unpack_toFloat {n : Nat} (hpos : 0 < n) (hn : n < 2 ^ 53) :
    n.toUInt64.toFloat.toModel.unpack = UnpackedFloat.ofNat Format.binary64 n := by
  obtain ⟨hnormal, -⟩ := round_of_lt hpos hn
  have hnat : n.toUInt64.toNat = n := Nat.mod_eq_of_lt (by omega)
  show (Float.Model.pack (UnpackedFloat.ofNat Format.binary64 n.toUInt64.toNat)).unpack = _
  rw [hnat]
  exact unpack_pack_of_normal hnormal (by decide) (by decide)

/-- The double of a natural number is the nearest one. -/
theorem unpack_ofNat {n : Nat} (hpos : 0 < n) (hn : n < 2 ^ 64) :
    Normal (-104) 100 (Float.ofNat n).toModel.unpack ∧
      unitsOf (Float.ofNat n).toModel.unpack = (nearestNat n * unitsOfOne : Nat) := by
  rcases Nat.lt_or_ge n (2 ^ 53) with hlt | hge
  · -- A number of at most 53 digits is converted and multiplied by one.
    have hfloat : Float.ofNat n =
        n.toUInt64.toFloat * Float.exactlyRepresentablePowersOfTen[0] := by
      show Float.ofScientific n false 0 = _
      rw [Float.ofScientific, dif_pos ⟨hlt, by decide⟩]
      rfl
    have hstored := unpack_toFloat hpos hlt
    have hproduct : (Float.ofNat n).toModel.unpack =
        (Float.Model.pack
          (mul Format.binary64 (UnpackedFloat.ofNat Format.binary64 n) one)).unpack := by
      rw [hfloat, ← hstored]
      rfl
    obtain ⟨hnormal, hunits⟩ := round_of_lt hpos hlt
    obtain ⟨hnormal', hunits'⟩ := mul_one_of_normal hnormal (by decide)
    rw [hproduct, unpack_pack_of_normal hnormal' (by decide) (by decide), hunits', hunits,
      nearestNat_of_lt hlt]
    obtain ⟨t, c, d, hc, heq, hleast, hgreatest, hmin, hmax⟩ := hnormal'
    exact ⟨⟨t, c, d, hc, heq, hleast, hgreatest, by omega, by omega⟩, rfl⟩
  · -- A longer one is a product with the power of ten that is one, with 53 digits to spare.
    have hproduct : UnpackedFloat.ofScientific Format.binary64 n 0 =
        roundWithAccuracy Format.binary64 .positive (n * 2 ^ 53) (-53) .exact := by
      have hsmall : ¬ (0 : Int) < -((2 ^ 11 : Int) + n.log2) := by omega
      rw [UnpackedFloat.ofScientific, dif_neg (by omega), if_neg (by decide), if_neg hsmall,
        if_pos (by decide), mul]
      simp only [Nat.shiftLeft_eq, Int.toNat_zero, Nat.pow_zero, Nat.mul_one]
      rfl
    have hfloat : (Float.ofNat n).toModel =
        Float.Model.pack (UnpackedFloat.ofScientific Format.binary64 n 0) := by
      show (Float.ofScientific n false 0).toModel = _
      rw [Float.ofScientific, dif_neg (fun h => Nat.not_lt.mpr hge h.1)]
      rfl
    have hdigits : 2 ^ 52 ≤ n * 2 ^ 53 := by omega
    have hlog : (n * 2 ^ 53).log2 ≤ 116 :=
      Nat.le_of_lt_succ ((Nat.log2_lt (by omega)).mpr (by omega))
    obtain ⟨⟨t, c, d, hc, heq, hleast, hgreatest, hmin, hmax⟩, hunits⟩ :=
      roundWithAccuracy_normal .positive hdigits (show (-1074 : Int) ≤ -53 by decide)
    have hnormal : Normal (-104) 100
        (roundWithAccuracy Format.binary64 .positive (n * 2 ^ 53) (-53) .exact) :=
      ⟨t, c, d, hc, heq, hleast, hgreatest, by omega, by omega⟩
    rw [hfloat, hproduct, unpack_pack_of_normal hnormal (by decide) (by decide)]
    refine ⟨hnormal, ?_⟩
    rw [hunits, nearestNat_mul_two_pow (by omega), Nat.mul_assoc, two_pow_mul_two_pow (by decide)]
    rfl

theorem isFinite_of_normal {u : UnpackedFloat} {low high : Int} (h : Normal low high u) :
    u.isFinite = true := by
  obtain ⟨s, c, d, hc, rfl, -⟩ := h
  rfl

theorem neg_of_normal {u : UnpackedFloat} {low high : Int} (h : Normal low high u) :
    Normal low high u.neg ∧ unitsOf u.neg = -unitsOf u := by
  obtain ⟨s, c, d, hc, rfl, hrest⟩ := h
  refine ⟨⟨-s, c, d, hc, rfl, hrest⟩, ?_⟩
  cases s with
  | positive => rfl
  | negative => exact (Int.neg_neg _).symm

/-- The double of an integer other than zero has all its digits, and it is the nearest one. -/
theorem unpack_ofInt {a : Int} (hne : a ≠ 0) (hlow : -2 ^ 64 < a) (hhigh : a < 2 ^ 64) :
    Normal (-104) 100 (Float.ofInt a).toModel.unpack ∧
      unitsOf (Float.ofInt a).toModel.unpack = nearest a * unitsOfOne := by
  cases a with
  | ofNat n =>
      exact unpack_ofNat (Nat.pos_of_ne_zero fun hzero => hne (congrArg Int.ofNat hzero))
        (Int.ofNat_lt.mp hhigh)
  | negSucc n =>
      obtain ⟨hnormal, hunits⟩ := unpack_ofNat (Nat.succ_pos n) (show n + 1 < 2 ^ 64 by omega)
      obtain ⟨hneg, hvalue⟩ := neg_of_normal hnormal
      have hstored : (Float.ofInt (.negSucc n)).toModel.unpack =
          (Float.ofNat (n + 1)).toModel.unpack.neg :=
        unpack_pack_of_normal hneg (by decide) (by decide)
      rw [hstored]
      refine ⟨hneg, ?_⟩
      rw [hvalue, hunits]
      show -((nearestNat (n + 1) * unitsOfOne : Nat) : Int) = -(nearestNat (n + 1)) * unitsOfOne
      rw [Int.natCast_mul, Int.neg_mul]

/-- The double of an integer of a number is finite, and it is the nearest one. -/
theorem units_ofInt {a : Int} (hlow : -2 ^ 64 < a) (hhigh : a < 2 ^ 64) :
    (Float.ofInt a).isFinite = true ∧ units (Float.ofInt a) = nearest a * unitsOfOne := by
  by_cases hzero : a = 0
  · subst hzero
    exact ⟨by decide, (Int.zero_mul _).symm⟩
  · obtain ⟨hnormal, hunits⟩ := unpack_ofInt hzero hlow hhigh
    exact ⟨isFinite_of_normal hnormal, hunits⟩

end Conversion

end ScriptTree.Double
