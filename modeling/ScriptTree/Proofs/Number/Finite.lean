import ScriptTree.Proofs.Number.Doubles

/-!
# Doubles that stay finite

An operation on doubles can end in an infinity only where its exact result has a great exponent. The
rounding of a mantissa raises the exponent by a bound from the number of digits
(`roundWithAccuracy_atMost`), and a double with an exponent up to 971 is stored as it is
(`isFinite_pack`). So sums, differences, products and quotients of 64-bit integers, taken as doubles,
are finite (`isFinite_add_ofInt` and the theorems behind it).
-/

set_option autoImplicit false

namespace ScriptTree.Double

open Float.Model (UnpackedFloat Format totalExponent)
open Float.Model.UnpackedFloat

/-- An unpacked finite double whose exponent is at most the bound. -/
def AtMost (high : Int) : UnpackedFloat → Prop
  | .zero _ => True
  | .finite _ _ e _ => e ≤ high
  | .infinity _ | .notANumber => False

theorem AtMost.mono {low high : Int} {u : UnpackedFloat} (h : AtMost low u) (hle : low ≤ high) :
    AtMost high u := by
  cases u with
  | zero s => trivial
  | finite s c d hc => exact Int.le_trans h hle
  | infinity s => exact h
  | notANumber => exact h

theorem mantissa_shiftRight (em : ExtendedMantissa) (k : Nat) :
    (em >>> k).mantissa = em.mantissa / 2 ^ k := by
  induction k with
  | zero =>
      rw [Nat.pow_zero, Nat.div_one]
      rfl
  | succ k ih =>
      show (em >>> k).mantissa / 2 = _
      rw [ih, Nat.div_div_eq_div_mul, Nat.pow_succ]

theorem mantissa_ofMantissaAndAccuracy (m : Nat) (a : Accuracy) :
    (ExtendedMantissa.ofMantissaAndAccuracy m a).mantissa = m := by
  cases a with
  | exact => rfl
  | inexact o => cases o <;> rfl

theorem roundedMantissa_le (em : ExtendedMantissa) : em.roundedMantissa ≤ em.mantissa + 1 := by
  rw [ExtendedMantissa.roundedMantissa]
  cases em.accuracy with
  | exact => exact Nat.le_succ _
  | inexact o =>
      cases o with
      | lt => exact Nat.le_succ _
      | eq =>
          show em.mantissa + em.mantissa % 2 ≤ em.mantissa + 1
          omega
      | gt => exact Nat.le_refl _

theorem log2_add_one_le (m : Nat) : (m + 1).log2 ≤ m.log2 + 1 := by
  rcases Nat.eq_zero_or_pos m with rfl | hm
  · decide
  · refine Nat.le_of_lt_succ ((Nat.log2_lt (Nat.succ_ne_zero m)).mpr ?_)
    have hlt : m < 2 ^ (m.log2 + 1) := Nat.lt_log2_self
    calc
      m + 1 ≤ 2 ^ (m.log2 + 1) := hlt
      _ < 2 ^ (m.log2 + 1 + 1) := Nat.pow_lt_pow_right (by decide) (Nat.lt_succ_self _)

/-! ## Rounding -/

/-- Shifting to the exponent that a mantissa asks for: the mantissa gets no greater, and the
exponent goes up by the digits of the mantissa at most. -/
theorem shiftToTargetExponent_le (m : Nat) {e : Int} (he : -1074 ≤ e) (a : Accuracy) :
    (shiftToTargetExponent Format.binary64 m e a).1.mantissa ≤ m ∧
      e ≤ (shiftToTargetExponent Format.binary64 m e a).2 ∧
      (shiftToTargetExponent Format.binary64 m e a).2 ≤ e + m.log2 := by
  rw [shiftToTargetExponent, targetExponent_eq, totalExponent, shiftToExponent]
  dsimp only
  refine ⟨?_, ?_, ?_⟩
  · rw [mantissa_shiftRight, mantissa_ofMantissaAndAccuracy]
    exact Nat.div_le_self _ _
  · omega
  · omega

/-- Rounding raises the exponent by a bound from the digits of the mantissa. -/
theorem roundWithAccuracy_atMost (s : Sign) (m : Nat) {e : Int} (he : -1074 ≤ e) (a : Accuracy) :
    AtMost (e + 2 * m.log2 + 1) (roundWithAccuracy Format.binary64 s m e a) := by
  obtain ⟨hm₁, hlow, hhigh⟩ := shiftToTargetExponent_le m he a
  rw [roundWithAccuracy]
  -- The mantissa is shifted twice: the second time in case that rounding has given it one more bit.
  generalize shiftToTargetExponent Format.binary64 m e a = shifted at hm₁ hlow hhigh
  obtain ⟨em, e₁⟩ := shifted
  dsimp only at hm₁ hlow hhigh ⊢
  obtain ⟨-, -, hhigh'⟩ := shiftToTargetExponent_le em.roundedMantissa (Int.le_trans he hlow) .exact
  generalize shiftToTargetExponent Format.binary64 em.roundedMantissa e₁ .exact = final at hhigh'
  have hrounded : em.roundedMantissa ≤ m + 1 :=
    Nat.le_trans (roundedMantissa_le em) (Nat.succ_le_succ hm₁)
  have hlog : em.roundedMantissa.log2 ≤ m.log2 + 1 :=
    Nat.le_trans (log2_le_of_le hrounded) (log2_add_one_le m)
  split
  · trivial
  · show final.2 ≤ _
    omega

theorem log2_mul_two_pow_le (m k : Nat) : (m * 2 ^ k).log2 ≤ m.log2 + k := by
  rcases Nat.eq_zero_or_pos m with rfl | hm
  · rw [Nat.zero_mul, Nat.log2_zero]
    exact Nat.zero_le _
  · have hlt : m < 2 ^ (m.log2 + 1) := Nat.lt_log2_self
    refine Nat.le_of_lt_succ ((Nat.log2_lt ?_).mpr ?_)
    · exact Nat.mul_ne_zero (Nat.ne_of_gt hm) (Nat.ne_of_gt (Nat.two_pow_pos k))
    · rw [Nat.succ_eq_add_one, Nat.add_right_comm, Nat.pow_add]
      exact Nat.mul_lt_mul_of_pos_right hlt (Nat.two_pow_pos k)

/-- Rounding that may fill up a short mantissa first. -/
theorem round_atMost (s : Sign) (m : Nat) {e : Int} (he : -1074 ≤ e) :
    AtMost (e + 2 * m.log2 + 53) (round Format.binary64 s m e) := by
  rw [UnpackedFloat.round, targetExponent_eq, totalExponent]
  simp only [decreaseExponent, Nat.shiftLeft_eq]
  generalize hk : (e - max ((m.log2 : Int) + 1 + e - 53) (-1074)).toNat = k
  have hlog := log2_mul_two_pow_le m k
  exact (roundWithAccuracy_atMost s (m * 2 ^ k) (by omega) .exact).mono (by omega)

theorem normalize_atMost (n : Int) {e : Int} (he : -1074 ≤ e) :
    AtMost (e + 2 * n.natAbs.log2 + 53) (normalize Format.binary64 n e .positive) := by
  rw [UnpackedFloat.normalize]
  split
  · have habs : (-n).toNat = n.natAbs := by
      rename_i hneg
      have := Int.compare_eq_lt.mp hneg
      omega
    rw [habs]
    exact round_atMost _ _ he
  · trivial
  · have habs : n.toNat = n.natAbs := by
      rename_i hpos
      have := Int.compare_eq_gt.mp hpos
      omega
    rw [habs]
    exact round_atMost _ _ he

/-- Only the exponent of all ones is that of an infinity. -/
theorem isFinite_packComponents (s : Sign) {e : BitVec 11} (m : BitVec 52) (he : e ≠ -1#11) :
    (unpack Format.binary64 (packComponents Format.binary64 s e m)).isFinite = true := by
  rw [unpack]
  simp only [unpackExponent_packComponents, unpackMantissa_packComponents]
  rw [if_neg he]
  split
  · split <;> rfl
  · rfl

/-- A double with a small exponent is not stored as an infinity. -/
theorem isFinite_pack {u : UnpackedFloat} {high : Int} (h : AtMost high u) (hhigh : high ≤ 971) :
    (Float.Model.pack u).unpack.isFinite = true := by
  cases u with
  | infinity s => exact h.elim
  | notANumber => exact h.elim
  | zero s => cases s <;> rfl
  | finite s c d hc =>
      have hd : d ≤ 971 := Int.le_trans h hhigh
      have hbiased : (d + Format.binary64.exponentBias +
          Format.binary64.mantissaBitsWithoutImplicit).toNat = (d + 1075).toNat := by
        show (d + (1023 : Nat) + (52 : Nat)).toNat = _
        omega
      have hfits : ¬ 2 ^ Format.binary64.exponentBits ≤ (d + 1075).toNat + 1 := by
        show ¬ 2048 ≤ (d + 1075).toNat + 1
        omega
      have hnotMax : BitVec.ofNat 11 (d + 1075).toNat ≠ -1#11 := by
        intro heq
        have hexponent : (BitVec.ofNat 11 (d + 1075).toNat).toNat = (d + 1075).toNat :=
          Nat.mod_eq_of_lt (show (d + 1075).toNat < 2 ^ 11 by omega)
        have hnat : (d + 1075).toNat = 2047 := hexponent.symm.trans (congrArg BitVec.toNat heq)
        omega
      show (unpack Format.binary64 (UnpackedFloat.pack Format.binary64 (.finite s c d hc))).isFinite
        = true
      rw [UnpackedFloat.pack]
      simp only [hbiased]
      rw [if_neg hfits]
      -- A mantissa without its leading bit is stored with the exponent of subnormal doubles.
      split
      · exact isFinite_packComponents s _ hnotMax
      · exact isFinite_packComponents s _ (by decide)

/-! ## Operations -/

/-- The value is zero or a mantissa of 53 digits, with an exponent as the doubles of 64-bit
integers have. -/
def Moderate (u : UnpackedFloat) : Prop := (∃ s, u = .zero s) ∨ Normal (-104) 100 u

variable {u v : UnpackedFloat}

theorem Moderate.atMost (h : Moderate u) : AtMost 100 u := by
  obtain ⟨s, rfl⟩ | ⟨s, c, d, hc, rfl, hdigits⟩ := h
  · trivial
  · exact hdigits.2.2.2

theorem log2_add_le {m n k : Nat} (hm : m.log2 ≤ k) (hn : n.log2 ≤ k) : (m + n).log2 ≤ k + 1 := by
  have hlt : ∀ {i : Nat}, i.log2 ≤ k → i < 2 ^ (k + 1) := fun hi =>
    Nat.lt_of_lt_of_le Nat.lt_log2_self (Nat.pow_le_pow_right (by decide) (Nat.succ_le_succ hi))
  rcases Nat.eq_zero_or_pos (m + n) with hzero | hpos
  · rw [hzero, Nat.log2_zero]
    exact Nat.zero_le _
  · refine Nat.le_of_lt_succ ((Nat.log2_lt (Nat.ne_of_gt hpos)).mpr ?_)
    calc
      m + n < 2 ^ (k + 1) + 2 ^ (k + 1) := Nat.add_lt_add (hlt hm) (hlt hn)
      _ = 2 ^ (k + 1 + 1) := by rw [Nat.pow_succ 2 (k + 1), Nat.mul_two]

/-- Mantissas that are brought to the smaller exponent and added, in whatever signs. -/
theorem normalize_aligned {n : Int} {c c' : Nat} {d d' : Int} (hc : c < 2 ^ 53) (hc' : c' < 2 ^ 53)
    (hd : -104 ≤ d ∧ d ≤ 100) (hd' : -104 ≤ d' ∧ d' ≤ 100)
    (hn : n.natAbs ≤ c * 2 ^ (d - min d d').toNat + c' * 2 ^ (d' - min d d').toNat) :
    AtMost 971 (normalize Format.binary64 n (min d d') .positive) := by
  -- The exponents are 204 apart at most, so an aligned mantissa has at most 257 bits.
  have haligned : ∀ {c : Nat} {k : Nat}, c < 2 ^ 53 → k ≤ 204 → (c * 2 ^ k).log2 ≤ 256 := by
    intro c k hc hk
    have hlog : c.log2 ≤ 52 := Nat.le_trans (log2_le_of_le (Nat.le_pred_of_lt hc)) (by decide)
    exact Nat.le_trans (log2_mul_two_pow_le c k) (by omega)
  have hsum := log2_add_le (haligned (k := (d - min d d').toNat) hc (by omega))
    (haligned (k := (d' - min d d').toNat) hc' (by omega))
  have hlog := Nat.le_trans (log2_le_of_le hn) hsum
  exact (normalize_atMost n (show (-1074 : Int) ≤ min d d' by omega)).mono (by omega)

theorem natAbs_apply (s : Sign) (n : Int) : (s.apply n).natAbs = n.natAbs := by
  cases s with
  | positive => rfl
  | negative => exact Int.natAbs_neg n

theorem add_atMost (hu : Moderate u) (hv : Moderate v) : AtMost 971 (add Format.binary64 u v) := by
  have hum := hu.atMost
  have hvm := hv.atMost
  obtain ⟨s, rfl⟩ | ⟨s, c, d, hc, rfl, -, hgreatest, hd⟩ := hu
  · obtain ⟨t, rfl⟩ | ⟨t, c', d', hc', rfl, -, hgreatest', hd'⟩ := hv
    · rw [add]
      split <;> trivial
    · exact hvm.mono (by decide)
  · obtain ⟨t, rfl⟩ | ⟨t, c', d', hc', rfl, -, hgreatest', hd'⟩ := hv
    · exact hum.mono (by decide)
    · refine normalize_aligned hgreatest hgreatest' hd hd' ?_
      simp only [Nat.shiftLeft_eq]
      refine Nat.le_trans (Int.natAbs_add_le _ _) ?_
      rw [natAbs_apply, natAbs_apply, Int.natAbs_natCast, Int.natAbs_natCast]

theorem sub_atMost (hu : Moderate u) (hv : Moderate v) : AtMost 971 (sub Format.binary64 u v) := by
  have hum := hu.atMost
  have hvm := hv.atMost
  obtain ⟨s, rfl⟩ | ⟨s, c, d, hc, rfl, -, hgreatest, hd⟩ := hu
  · obtain ⟨t, rfl⟩ | ⟨t, c', d', hc', rfl, -, hgreatest', hd'⟩ := hv
    · rw [sub]
      split <;> trivial
    · exact hvm.mono (by decide)
  · obtain ⟨t, rfl⟩ | ⟨t, c', d', hc', rfl, -, hgreatest', hd'⟩ := hv
    · exact hum.mono (by decide)
    · refine normalize_aligned hgreatest hgreatest' hd hd' ?_
      simp only [Nat.shiftLeft_eq]
      refine Nat.le_trans (Int.natAbs_sub_le _ _) ?_
      rw [natAbs_apply, natAbs_apply, Int.natAbs_natCast, Int.natAbs_natCast]

theorem mul_atMost (hu : Moderate u) (hv : Moderate v) : AtMost 971 (mul Format.binary64 u v) := by
  obtain ⟨s, rfl⟩ | ⟨s, c, d, hc, rfl, -, hgreatest, hd⟩ := hu
  · obtain ⟨t, rfl⟩ | ⟨t, c', d', hc', rfl, -, hgreatest', hd'⟩ := hv <;> trivial
  · obtain ⟨t, rfl⟩ | ⟨t, c', d', hc', rfl, -, hgreatest', hd'⟩ := hv
    · trivial
    · have hdigits : c * c' < 2 ^ 53 * 2 ^ 53 := Nat.mul_lt_mul'' hgreatest hgreatest'
      have hlog : (c * c').log2 ≤ 105 :=
        Nat.le_trans (log2_le_of_le (Nat.le_pred_of_lt hdigits)) (by decide)
      exact (roundWithAccuracy_atMost (s * t) (c * c') (show (-1074 : Int) ≤ d + d' by omega)
        .exact).mono (by omega)

theorem neg_atMost (hu : Moderate u) : AtMost 971 u.neg := by
  obtain ⟨s, rfl⟩ | ⟨s, c, d, hc, rfl, -, -, -, hd⟩ := hu
  · trivial
  · exact Int.le_trans hd (by decide)

theorem div_atMost (hu : Moderate u) (hv : Normal (-104) 100 v) :
    AtMost 971 (div Format.binary64 u v) := by
  obtain ⟨t, c', d', hc', rfl, hleast', hgreatest', hd'⟩ := hv
  obtain ⟨s, rfl⟩ | ⟨s, c, d, hc, rfl, hleast, hgreatest, hd⟩ := hu
  · trivial
  · -- Both have 53 digits, so the dividend is filled up by 53 more.
    have htarget : min (d - d')
        (Format.binary64.targetExponent (totalExponent c d - totalExponent c' d')) = d - d' - 53 := by
      rw [targetExponent_eq, totalExponent, totalExponent, log2_eq_of_digits hleast hgreatest,
        log2_eq_of_digits hleast' hgreatest']
      omega
    rw [div, divCore]
    simp only [htarget, Nat.shiftLeft_eq]
    have hshift : (d - d' - (d - d' - 53)).toNat = 53 := by omega
    rw [hshift]
    have hquotient : c * 2 ^ 53 / c' < 2 ^ 53 * 2 ^ 53 :=
      Nat.lt_of_le_of_lt (Nat.div_le_self _ _) (Nat.mul_lt_mul_of_pos_right hgreatest (by decide))
    have hlog : (c * 2 ^ 53 / c').log2 ≤ 105 :=
      Nat.le_trans (log2_le_of_le (Nat.le_pred_of_lt hquotient)) (by decide)
    exact (roundWithAccuracy_atMost (s / t) _ (show (-1074 : Int) ≤ d - d' - 53 by omega) _).mono
      (by omega)

/-! ## The doubles of integers -/

variable {a b : Int}

theorem moderate_ofInt (ha : -2 ^ 64 < a ∧ a < 2 ^ 64) :
    Moderate (Float.ofInt a).toModel.unpack := by
  by_cases hzero : a = 0
  · subst hzero
    exact .inl ⟨.positive, rfl⟩
  · exact .inr (unpack_ofInt hzero ha.1 ha.2).1

theorem isFinite_add_ofInt (ha : -2 ^ 64 < a ∧ a < 2 ^ 64) (hb : -2 ^ 64 < b ∧ b < 2 ^ 64) :
    (Float.ofInt a + Float.ofInt b).isFinite = true :=
  isFinite_pack (add_atMost (moderate_ofInt ha) (moderate_ofInt hb)) (by decide)

theorem isFinite_sub_ofInt (ha : -2 ^ 64 < a ∧ a < 2 ^ 64) (hb : -2 ^ 64 < b ∧ b < 2 ^ 64) :
    (Float.ofInt a - Float.ofInt b).isFinite = true :=
  isFinite_pack (sub_atMost (moderate_ofInt ha) (moderate_ofInt hb)) (by decide)

theorem isFinite_mul_ofInt (ha : -2 ^ 64 < a ∧ a < 2 ^ 64) (hb : -2 ^ 64 < b ∧ b < 2 ^ 64) :
    (Float.ofInt a * Float.ofInt b).isFinite = true :=
  isFinite_pack (mul_atMost (moderate_ofInt ha) (moderate_ofInt hb)) (by decide)

theorem isFinite_div_ofInt (ha : -2 ^ 64 < a ∧ a < 2 ^ 64) (hb : -2 ^ 64 < b ∧ b < 2 ^ 64)
    (hne : b ≠ 0) : (Float.ofInt a / Float.ofInt b).isFinite = true :=
  isFinite_pack (div_atMost (moderate_ofInt ha) (unpack_ofInt hne hb.1 hb.2).1) (by decide)

theorem isFinite_neg_ofInt (ha : -2 ^ 64 < a ∧ a < 2 ^ 64) :
    (-Float.ofInt a).isFinite = true :=
  isFinite_pack (neg_atMost (moderate_ofInt ha)) (by decide)

end ScriptTree.Double
