import Mathlib

/-!
# The nearest double of an integer

A double keeps 53 binary digits of an integer. An integer with more of them is rounded to a
multiple of its last kept place, and an exact half goes to the even multiple (`nearest`). Integers
up to `2 ^ 53` are doubles already (`nearest_eq_self`), and rounding keeps the order weakly
(`nearest_mono`): two integers may share their nearest double, but they never change sides.
-/

set_option autoImplicit false

namespace ScriptTree.Double

/-- The natural number nearest to a quotient, and of two that are equally near the even one. -/
def roundedDiv (m d : Nat) : Nat :=
  if 2 * (m % d) < d then m / d
  else if d < 2 * (m % d) then m / d + 1
  else m / d + m / d % 2

/-- The last of the 53 binary places that are kept of a natural number. -/
def lastPlace (n : Nat) : Nat := 2 ^ (n.log2 - 52)

/-- The natural number rounded to a double. -/
def nearestNat (n : Nat) : Nat := roundedDiv n (lastPlace n) * lastPlace n

/-- The integer rounded to a double. -/
def nearest : Int → Int
  | .ofNat n => nearestNat n
  | .negSucc n => -nearestNat (n + 1)

/-! ## Rounded quotients -/

section Quotients

variable {m n d : Nat}

theorem roundedDiv_one (m : Nat) : roundedDiv m 1 = m := by
  rw [roundedDiv, Nat.mod_one, Nat.div_one, if_pos (by decide)]

theorem div_le_roundedDiv (m d : Nat) : m / d ≤ roundedDiv m d := by
  rw [roundedDiv]
  split
  · exact Nat.le_refl _
  · split <;> omega

theorem roundedDiv_le (m d : Nat) : roundedDiv m d ≤ m / d + 1 := by
  rw [roundedDiv]
  split
  · omega
  · split <;> omega

theorem roundedDiv_mono (h : m ≤ n) : roundedDiv m d ≤ roundedDiv n d := by
  have hdiv : m / d ≤ n / d := Nat.div_le_div_right h
  rcases Nat.lt_or_eq_of_le hdiv with hlt | heq
  · calc
      roundedDiv m d ≤ m / d + 1 := roundedDiv_le m d
      _ ≤ n / d := hlt
      _ ≤ roundedDiv n d := div_le_roundedDiv n d
  · -- Between the same two multiples the remainders are ordered as the numbers are.
    have hmod : m % d ≤ n % d := by
      have hm := Nat.div_add_mod m d
      have hn := Nat.div_add_mod n d
      rw [heq] at hm
      omega
    rw [roundedDiv, roundedDiv, heq]
    split_ifs <;> omega

theorem roundedDiv_mul {k : Nat} (hk : 0 < k) (m d : Nat) :
    roundedDiv (m * k) (d * k) = roundedDiv m d := by
  have hscale : ∀ a b : Nat, 2 * (a * k) < b * k ↔ 2 * a < b := by
    intro a b
    rw [← Nat.mul_assoc]
    exact Nat.mul_lt_mul_right hk
  have hscale' : ∀ a b : Nat, b * k < 2 * (a * k) ↔ b < 2 * a := by
    intro a b
    rw [← Nat.mul_assoc]
    exact Nat.mul_lt_mul_right hk
  rw [roundedDiv, roundedDiv, Nat.mul_div_mul_right m d hk, Nat.mul_mod_mul_right]
  simp only [hscale, hscale']

end Quotients

/-! ## Rounded integers -/

section Integers

variable {m n : Nat}

theorem lastPlace_pos (n : Nat) : 0 < lastPlace n := Nat.two_pow_pos _

theorem log2_le_of_le (h : m ≤ n) : m.log2 ≤ n.log2 := by
  rcases Nat.eq_zero_or_pos m with rfl | hm
  · rw [Nat.log2_zero]
    exact Nat.zero_le _
  · exact (Nat.le_log2 (by omega)).mpr (Nat.le_trans (Nat.log2_self_le (by omega)) h)

theorem lastPlace_eq_one (h : n < 2 ^ 53) : lastPlace n = 1 := by
  have hlog : n.log2 ≤ 52 := by
    have hle := log2_le_of_le (show n ≤ 2 ^ 53 - 1 by omega)
    exact Nat.le_trans hle (by decide)
  rw [lastPlace, Nat.sub_eq_zero_of_le hlog, Nat.pow_zero]

/-- A natural number of 53 binary digits is a double. -/
theorem nearestNat_of_lt (h : n < 2 ^ 53) : nearestNat n = n := by
  rw [nearestNat, lastPlace_eq_one h, roundedDiv_one, Nat.mul_one]

/-- Binary digits behind the last kept place that are all zero change nothing. -/
theorem nearestNat_mul_two_pow (h : 2 ^ 52 ≤ n) (j : Nat) :
    nearestNat (n * 2 ^ j) = nearestNat n * 2 ^ j := by
  have hn : n ≠ 0 := by omega
  have hlog : 52 ≤ n.log2 := (Nat.le_log2 hn).mpr h
  have hshift : (n * 2 ^ j).log2 = n.log2 + j := by
    have hpos : n * 2 ^ j ≠ 0 := Nat.mul_ne_zero hn (Nat.ne_of_gt (Nat.two_pow_pos j))
    refine (Nat.log2_eq_iff hpos).mpr ⟨?_, ?_⟩
    · rw [Nat.pow_add]
      exact Nat.mul_le_mul_right _ (Nat.log2_self_le hn)
    · rw [Nat.add_right_comm, Nat.pow_add]
      exact Nat.mul_lt_mul_of_pos_right Nat.lt_log2_self (Nat.two_pow_pos j)
  have hplace : lastPlace (n * 2 ^ j) = lastPlace n * 2 ^ j := by
    rw [lastPlace, lastPlace, hshift, ← Nat.pow_add]
    congr 1
    omega
  rw [nearestNat, hplace, roundedDiv_mul (Nat.two_pow_pos j), nearestNat, Nat.mul_assoc]

/-- Rounding stays below the next power of two. -/
theorem nearestNat_le (n : Nat) : nearestNat n ≤ 2 ^ (n.log2 + 1) := by
  rcases Nat.lt_or_ge n (2 ^ 53) with h | h
  · rw [nearestNat_of_lt h]
    exact Nat.le_of_lt Nat.lt_log2_self
  · have hlog : 53 ≤ n.log2 := (Nat.le_log2 (by omega)).mpr h
    have hpow : 2 ^ (n.log2 + 1) = 2 ^ 53 * lastPlace n := by
      rw [lastPlace, ← Nat.pow_add]
      congr 1
      omega
    have hdiv : n / lastPlace n < 2 ^ 53 := by
      rw [Nat.div_lt_iff_lt_mul (lastPlace_pos n), ← hpow]
      exact Nat.lt_log2_self
    rw [hpow]
    exact Nat.mul_le_mul_right _ (Nat.le_trans (roundedDiv_le _ _) hdiv)

/-- Rounding stays at or above the leading power of two. -/
theorem le_nearestNat (h : n ≠ 0) : 2 ^ n.log2 ≤ nearestNat n := by
  rcases Nat.lt_or_ge n (2 ^ 53) with hlt | hge
  · rw [nearestNat_of_lt hlt]
    exact Nat.log2_self_le h
  · have hlog : 53 ≤ n.log2 := (Nat.le_log2 h).mpr hge
    have hpow : 2 ^ n.log2 = 2 ^ 52 * lastPlace n := by
      rw [lastPlace, ← Nat.pow_add]
      congr 1
      omega
    have hdiv : 2 ^ 52 ≤ n / lastPlace n := by
      rw [Nat.le_div_iff_mul_le (lastPlace_pos n), ← hpow]
      exact Nat.log2_self_le h
    rw [hpow]
    exact Nat.mul_le_mul_right _ (Nat.le_trans hdiv (div_le_roundedDiv _ _))

theorem nearestNat_mono (h : m ≤ n) : nearestNat m ≤ nearestNat n := by
  rcases Nat.lt_or_eq_of_le (log2_le_of_le h) with hlt | heq
  · -- The power of two between the numbers is between their doubles as well.
    have hn : n ≠ 0 := by
      rintro rfl
      rw [Nat.log2_zero] at hlt
      omega
    calc
      nearestNat m ≤ 2 ^ (m.log2 + 1) := nearestNat_le m
      _ ≤ 2 ^ n.log2 := Nat.pow_le_pow_right (by decide) hlt
      _ ≤ nearestNat n := le_nearestNat hn
  · rw [nearestNat, nearestNat, lastPlace, lastPlace, heq]
    exact Nat.mul_le_mul_right _ (roundedDiv_mono h)

theorem nearest_mono {a b : Int} (h : a ≤ b) : nearest a ≤ nearest b := by
  cases a with
  | ofNat m =>
      cases b with
      | ofNat n =>
          have hle : m ≤ n := Int.ofNat_le.mp h
          exact Int.ofNat_le.mpr (nearestNat_mono hle)
      | negSucc n =>
          have hneg := Int.negSucc_lt_zero n
          have hnonneg := Int.natCast_nonneg m
          exact absurd (Int.lt_of_le_of_lt h hneg) (Int.not_lt.mpr hnonneg)
  | negSucc m =>
      cases b with
      | ofNat n =>
          show -(nearestNat (m + 1) : Int) ≤ nearestNat n
          omega
      | negSucc n =>
          have hmono : nearestNat (n + 1) ≤ nearestNat (m + 1) := nearestNat_mono (by omega)
          show -(nearestNat (m + 1) : Int) ≤ -nearestNat (n + 1)
          omega

/-- Integers up to `2 ^ 53` on both sides of zero are doubles. -/
theorem nearest_eq_self {a : Int} (h : a.natAbs ≤ 2 ^ 53) : nearest a = a := by
  have hnat : ∀ n : Nat, n ≤ 2 ^ 53 → nearestNat n = n := by
    intro n hn
    rcases Nat.lt_or_eq_of_le hn with hlt | rfl
    · exact nearestNat_of_lt hlt
    · decide
  cases a with
  | ofNat n =>
      show ((nearestNat n : Nat) : Int) = n
      rw [hnat n h]
  | negSucc n =>
      show -((nearestNat (n + 1) : Nat) : Int) = Int.negSucc n
      rw [hnat (n + 1) h]
      rfl

/-- Where two integers have different nearest doubles, their order is that of the doubles. -/
theorem nearest_lt_iff {a b : Int} (h : nearest a = nearest b → a = b) :
    nearest a < nearest b ↔ a < b := by
  constructor
  · intro hlt
    by_contra hnot
    have hmono := nearest_mono (Int.not_lt.mp hnot)
    omega
  · intro hlt
    have hmono := nearest_mono (Int.le_of_lt hlt)
    have hne : nearest a ≠ nearest b := fun heq => absurd (h heq) (Int.ne_of_lt hlt)
    omega

end Integers

end ScriptTree.Double
