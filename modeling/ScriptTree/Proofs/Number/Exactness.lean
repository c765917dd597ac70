import ScriptTree.Proofs.Number.Comparison
import ScriptTree.Proofs.Number.Finite

/-!
# Exact arithmetic on integers

Arithmetic on two integers of 63 bits and a sign gives the exact integer exactly where that is such
an integer too, and a double anywhere else, never an integer that is cut to its lowest bits
(`Number.ExactOr`). A quotient is an integer where the division is even, and the remainder always is
one (`World.arithmetic_integers`). The quotient and the remainder of the least integer by minus one
are left out.
-/

set_option autoImplicit false

namespace ScriptTree

namespace Number

variable {a b c : Int} {ha : -0x8000000000000000 ≤ a ∧ a < 0x10000000000000000}
  {hb : -0x8000000000000000 ≤ b ∧ b < 0x10000000000000000}

theorem fitsSigned_iff : fitsSigned a = true ↔ -0x8000000000000000 ≤ a ∧ a < 0x8000000000000000 :=
  decide_eq_true_iff

/-- An integer of 63 bits and a sign fits a number. -/
theorem fits_of_fitsSigned (h : fitsSigned a = true) :
    -0x8000000000000000 ≤ a ∧ a < 0x10000000000000000 := by
  rw [fitsSigned_iff] at h
  omega

theorem ofInt?_of_fitsSigned (h : fitsSigned a = true) :
    ofInt? a = some (.integer a (fits_of_fitsSigned h)) :=
  dif_pos (fits_of_fitsSigned h)

theorem signed?_integer (h : fitsSigned a = true) : (integer a ha).signed? = some a :=
  if_pos h

theorem ofFloat?_of_isFinite {x : Float} (h : x.isFinite = true) :
    ofFloat? x = some (.floating x h) :=
  dif_pos h

/-- The result of an operation on two integers: what the exact operation gives, where it gives an
integer of 63 bits and a sign. -/
theorem wholeResult?_integers (op : Int → Int → Option Int) (hfa : fitsSigned a = true)
    (hfb : fitsSigned b = true) :
    wholeResult? op (.integer a ha) (.integer b hb) = ((op a b).filter fitsSigned).bind ofInt? := by
  rw [wholeResult?, signed?_integer hfa, signed?_integer hfb]

theorem combine_of_fits {op : Int → Int → Option Int} (approximate : Float → Float → Float)
    (hfa : fitsSigned a = true) (hfb : fitsSigned b = true) (hop : op a b = some c)
    (hfits : fitsSigned c = true) :
    combine op approximate (.integer a ha) (.integer b hb) =
      some (.integer c (fits_of_fitsSigned hfits)) := by
  rw [combine, wholeResult?_integers op hfa hfb, hop, Option.filter_some, if_pos hfits,
    Option.bind_some, ofInt?_of_fitsSigned hfits, Option.some_or]

theorem combine_of_not_fits {op : Int → Int → Option Int} {approximate : Float → Float → Float}
    (hfa : fitsSigned a = true) (hfb : fitsSigned b = true)
    (hop : ∀ c ∈ op a b, fitsSigned c = false)
    (hfinite : (approximate (Float.ofInt a) (Float.ofInt b)).isFinite = true) :
    combine op approximate (.integer a ha) (.integer b hb) = some (.floating _ hfinite) := by
  have hnone : (op a b).filter fitsSigned = none := by
    cases hresult : op a b with
    | none => rfl
    | some c => rw [Option.filter_some, hop c hresult, if_neg Bool.false_ne_true]
  rw [combine, wholeResult?_integers op hfa hfb, hnone, Option.bind_none, Option.none_or]
  exact ofFloat?_of_isFinite hfinite

/-- An integer other than zero is no zero. -/
theorem isZero_integer (hne : b ≠ 0) : (integer b hb).isZero = false := by
  have hpos : (0 : Int) < Double.unitsOfOne := Int.natCast_pos.mpr Double.unitsOfOne_pos
  obtain ⟨hfinite, hunits⟩ := Double.units_ofInt (a := b) (by omega) (by omega)
  have hnearest : Double.nearest b ≠ 0 := by
    rcases Int.lt_or_gt_of_ne hne with hneg | hpos
    · have hmono : Double.nearest b ≤ -1 := Double.nearest_mono (b := -1) (by omega)
      omega
    · have hmono : 1 ≤ Double.nearest b := Double.nearest_mono (a := 1) (by omega)
      omega
  show (Float.ofInt b == 0.0) = false
  rw [Bool.eq_false_iff, Ne, Double.beq_iff hfinite (by decide), hunits]
  exact Int.mul_ne_zero hnearest (Int.ne_of_gt hpos)

theorem neg_integer_of_fits (hfa : fitsSigned a = true) (hfits : fitsSigned (-a) = true) :
    (integer a ha).neg = some (.integer (-a) (fits_of_fitsSigned hfits)) := by
  rw [neg, signed?_integer hfa, Option.bind_some, if_pos hfits, ofInt?_of_fitsSigned hfits]

theorem neg_integer_of_not_fits (hfa : fitsSigned a = true) (hfits : fitsSigned (-a) = false)
    (hfinite : (-Float.ofInt a).isFinite = true) :
    (integer a ha).neg = some (.floating _ hfinite) := by
  rw [neg, signed?_integer hfa, Option.bind_some, if_neg (Bool.eq_false_iff.mp hfits)]
  exact ofFloat?_of_isFinite hfinite

/-- The quotient of an even division is an integer of 63 bits and a sign, except for that of the
least integer by minus one. -/
theorem fitsSigned_quotient {q : Int} (hfa : fitsSigned (q * b) = true) (hne : b ≠ 0)
    (hleast : ¬ (q * b = -0x8000000000000000 ∧ b = -1)) : fitsSigned q = true := by
  rw [fitsSigned_iff] at hfa ⊢
  have habs : (q * b).natAbs = q.natAbs * b.natAbs := Int.natAbs_mul q b
  rcases Nat.lt_or_ge b.natAbs 2 with hone | htwo
  · obtain rfl | rfl : b = 1 ∨ b = -1 := by omega
    · omega
    · omega
  · -- A divisor of size two or more at least halves the dividend.
    have hhalf : q.natAbs * 2 ≤ q.natAbs * b.natAbs := Nat.mul_le_mul_left _ htwo
    omega

/-- An operation ends with the exact integer exactly where that has 63 bits and a sign, and with the
given double where it does not. -/
structure ExactOr (outcome : Except Script.Fault Value) (exact : Int) (approximate : Float) :
    Prop where
  integer_iff : ∀ c fits,
    outcome = .ok (.number (.integer c fits)) ↔ c = exact ∧ fitsSigned exact = true
  floating : fitsSigned exact = false →
    ∃ finite, outcome = .ok (.number (.floating approximate finite))

theorem exactOr_of_result {result : Option Number} {exact : Int} {approximate : Float}
    (hinteger : ∀ h : fitsSigned exact = true,
      result = some (.integer exact (fits_of_fitsSigned h)))
    (hfloating : fitsSigned exact = false → ∃ finite, result = some (.floating approximate finite)) :
    ExactOr (.ok (Value.ofNumber? result)) exact approximate := by
  by_cases hfits : fitsSigned exact = true
  · rw [hinteger hfits]
    refine ⟨fun c fits => ⟨fun h => ?_, ?_⟩, fun h => absurd hfits (Bool.eq_false_iff.mp h)⟩
    · injection h with h
      injection h with h
      injection h with h
      exact ⟨h.symm, hfits⟩
    · rintro ⟨rfl, -⟩
      rfl
  · obtain ⟨finite, hresult⟩ := hfloating (Bool.eq_false_iff.mpr hfits)
    rw [hresult]
    refine ⟨fun c fits => ⟨fun h => ?_, fun h => absurd h.2 hfits⟩, fun _ => ⟨finite, rfl⟩⟩
    injection h with h
    injection h with h
    cases h

/-- An operation that always has an exact result. -/
theorem exactOr_combine {op : Int → Int → Option Int} {approximate : Float → Float → Float}
    (hfa : fitsSigned a = true) (hfb : fitsSigned b = true) (hop : op a b = some c)
    (hfinite : (approximate (Float.ofInt a) (Float.ofInt b)).isFinite = true) :
    ExactOr (.ok (Value.ofNumber? (combine op approximate (.integer a ha) (.integer b hb)))) c
      (approximate (Float.ofInt a) (Float.ofInt b)) := by
  refine exactOr_of_result (fun h => combine_of_fits approximate hfa hfb hop h) fun h => ?_
  refine ⟨hfinite, combine_of_not_fits hfa hfb (fun d hd => ?_) hfinite⟩
  obtain rfl := Option.some.inj (hop.symm.trans hd)
  exact h

end Number

namespace World

/-- Sums, differences, products and the negation of integers are exact where the result has 63 bits
and a sign, and doubles otherwise. Only the least integer has no exact negation. -/
structure Computes (w : World) (x y : Value) (a b : Int) : Prop where
  add : Number.ExactOr (w.binary .add x y) (a + b) (Float.ofInt a + Float.ofInt b)
  sub : Number.ExactOr (w.binary .sub x y) (a - b) (Float.ofInt a - Float.ofInt b)
  mul : Number.ExactOr (w.binary .mul x y) (a * b) (Float.ofInt a * Float.ofInt b)
  neg : Number.ExactOr x.negate (-a) (-Float.ofInt a)
  neg_iff : (∃ fits, x.negate = .ok (.number (.integer (-a) fits))) ↔ a ≠ -0x8000000000000000

/-- A quotient is an integer exactly where the division is even, and then the product with the
divisor leads back; else it is a double. The remainder is an integer smaller than the divisor, and
zero or of the sign of the dividend. -/
structure Divides (w : World) (x y : Value) (a b : Int) : Prop where
  div_iff : (∃ q fits, w.binary .div x y = .ok (.number (.integer q fits))) ↔ b ∣ a
  div_mul : ∀ q fits, w.binary .div x y = .ok (.number (.integer q fits)) →
    q * b = a ∧ w.binary .mul (.number (.integer q fits)) y = .ok x
  div_floating : ¬ b ∣ a → ∃ finite,
    w.binary .div x y = .ok (.number (.floating (Float.ofInt a / Float.ofInt b) finite))
  mod : ∃ q r fits, w.binary .mod x y = .ok (.number (.integer r fits)) ∧ a = q * b + r ∧
    r.natAbs < b.natAbs ∧ (r = 0 ∨ r.sign = a.sign)

variable {a b : Int} {ha : -0x8000000000000000 ≤ a ∧ a < 0x10000000000000000}
  {hb : -0x8000000000000000 ≤ b ∧ b < 0x10000000000000000}

theorem computes_integers (w : World) (hfa : Number.fitsSigned a = true)
    (hfb : Number.fitsSigned b = true) :
    w.Computes (.number (.integer a ha)) (.number (.integer b hb)) a b := by
  have hra : -2 ^ 64 < a ∧ a < 2 ^ 64 := by omega
  have hrb : -2 ^ 64 < b ∧ b < 2 ^ 64 := by omega
  have hneg : Number.ExactOr (Value.negate (.number (.integer a ha))) (-a) (-Float.ofInt a) :=
    Number.exactOr_of_result (fun h => Number.neg_integer_of_fits hfa h) fun h =>
      ⟨Double.isFinite_neg_ofInt hra,
        Number.neg_integer_of_not_fits hfa h (Double.isFinite_neg_ofInt hra)⟩
  refine ⟨?add, ?sub, ?mul, hneg, ?neg_iff⟩
  case add => exact Number.exactOr_combine hfa hfb rfl (Double.isFinite_add_ofInt hra hrb)
  case sub => exact Number.exactOr_combine hfa hfb rfl (Double.isFinite_sub_ofInt hra hrb)
  case mul => exact Number.exactOr_combine hfa hfb rfl (Double.isFinite_mul_ofInt hra hrb)
  case neg_iff =>
    have hfits : Number.fitsSigned (-a) = true ↔ a ≠ -0x8000000000000000 := by
      rw [Number.fitsSigned_iff] at hfa ⊢
      omega
    rw [← hfits]
    constructor
    · rintro ⟨fits, h⟩
      exact ((hneg.integer_iff _ _).mp h).2
    · intro h
      exact ⟨Number.fits_of_fitsSigned h, (hneg.integer_iff _ _).mpr ⟨rfl, h⟩⟩

/-- What the division of two integers is. -/
theorem binary_div_integers (w : World) (hne : b ≠ 0) :
    w.binary .div (.number (.integer a ha)) (.number (.integer b hb)) =
      .ok (Value.ofNumber? (Number.div (.integer a ha) (.integer b hb))) :=
  if_neg (Bool.eq_false_iff.mp (Number.isZero_integer hne))

/-- What the remainder of two integers is. -/
theorem binary_mod_integers (w : World) (hne : b ≠ 0) :
    w.binary .mod (.number (.integer a ha)) (.number (.integer b hb)) =
      .ok (Value.ofNumber? (Number.mod (.integer a ha) (.integer b hb))) :=
  if_neg (Bool.eq_false_iff.mp (Number.isZero_integer hne))

/-- An even division gives the integer that leads back. -/
theorem binary_div_mul {q : Int} {hq : -0x8000000000000000 ≤ q * b ∧ q * b < 0x10000000000000000}
    (w : World) (hfa : Number.fitsSigned (q * b) = true) (hfb : Number.fitsSigned b = true)
    (hne : b ≠ 0) (hleast : ¬ (q * b = -0x8000000000000000 ∧ b = -1)) :
    w.binary .div (.number (.integer (q * b) hq)) (.number (.integer b hb)) =
      .ok (.number (.integer q
        (Number.fits_of_fitsSigned (Number.fitsSigned_quotient hfa hne hleast)))) := by
  have heven : (if Int.tmod (q * b) b = 0 then some (Int.tdiv (q * b) b) else none) = some q := by
    rw [if_pos (Int.mul_tmod_left q b), Int.mul_tdiv_cancel q hne]
  rw [binary_div_integers w hne, Number.div, Number.combine_of_fits _ hfa hfb heven
    (Number.fitsSigned_quotient hfa hne hleast)]
  rfl

/-- A division that leaves a remainder gives a double. -/
theorem binary_div_uneven (w : World) (hfa : Number.fitsSigned a = true)
    (hfb : Number.fitsSigned b = true) (hne : b ≠ 0) (huneven : ¬ b ∣ a) :
    ∃ finite, w.binary .div (.number (.integer a ha)) (.number (.integer b hb)) =
      .ok (.number (.floating (Float.ofInt a / Float.ofInt b) finite)) := by
  have hnone : (if Int.tmod a b = 0 then some (Int.tdiv a b) else none) = none :=
    if_neg fun hzero => huneven (Int.dvd_of_tmod_eq_zero hzero)
  have hfinite := Double.isFinite_div_ofInt (show -2 ^ 64 < a ∧ a < 2 ^ 64 by omega)
    (show -2 ^ 64 < b ∧ b < 2 ^ 64 by omega) hne
  refine ⟨hfinite, ?_⟩
  rw [binary_div_integers w hne, Number.div, Number.combine_of_not_fits hfa hfb
    (fun c hc => absurd (hnone ▸ hc) (Option.not_mem_none c)) hfinite]
  rfl

/-- The remainder of two integers. -/
theorem binary_mod_eq (w : World) (hfa : Number.fitsSigned a = true)
    (hfb : Number.fitsSigned b = true) (hne : b ≠ 0) :
    ∃ fits, w.binary .mod (.number (.integer a ha)) (.number (.integer b hb)) =
      .ok (.number (.integer (Int.tmod a b) fits)) := by
  have hfits : Number.fitsSigned (Int.tmod a b) = true := by
    have habs : (Int.tmod a b).natAbs = a.natAbs % b.natAbs := Int.natAbs_tmod a b
    have hlt : a.natAbs % b.natAbs < b.natAbs := Nat.mod_lt _ (by omega)
    rw [Number.fitsSigned_iff] at hfb ⊢
    omega
  refine ⟨Number.fits_of_fitsSigned hfits, ?_⟩
  rw [binary_mod_integers w hne, Number.mod, Number.combine_of_fits _ hfa hfb rfl hfits]
  rfl

/-- A remainder is zero or has the sign of the dividend. -/
theorem tmod_eq_zero_or_sign (a b : Int) : Int.tmod a b = 0 ∨ (Int.tmod a b).sign = a.sign := by
  have hsign := Int.sign_tmod a b
  by_cases heven : b ∣ a
  · exact .inl (Int.tmod_eq_zero_of_dvd heven)
  · rw [if_neg heven] at hsign
    exact .inr hsign

theorem divides_integers (w : World) (hfa : Number.fitsSigned a = true)
    (hfb : Number.fitsSigned b = true) (hne : b ≠ 0)
    (hleast : ¬ (a = -0x8000000000000000 ∧ b = -1)) :
    w.Divides (.number (.integer a ha)) (.number (.integer b hb)) a b := by
  have hmod : ∃ q r fits, w.binary .mod (.number (.integer a ha)) (.number (.integer b hb)) =
      .ok (.number (.integer r fits)) ∧ a = q * b + r ∧ r.natAbs < b.natAbs ∧
        (r = 0 ∨ r.sign = a.sign) := by
    obtain ⟨fits, hresult⟩ := @binary_mod_eq a b ha hb w hfa hfb hne
    refine ⟨Int.tdiv a b, Int.tmod a b, fits, hresult, ?_, ?_, tmod_eq_zero_or_sign a b⟩
    · exact (Int.tdiv_mul_add_tmod a b).symm
    · rw [Int.natAbs_tmod]
      exact Nat.mod_lt _ (by omega)
  by_cases heven : b ∣ a
  · -- The product that leads back is exact because it is the dividend.
    obtain ⟨q, rfl⟩ := exists_eq_mul_left_of_dvd heven
    have hdiv := @binary_div_mul b hb q ha w hfa hfb hne hleast
    refine ⟨⟨fun _ => heven, fun _ => ⟨q, _, hdiv⟩⟩, fun r fits hr => ?_,
      fun huneven => absurd heven huneven, hmod⟩
    obtain rfl : q = r := by
      have h := hdiv.symm.trans hr
      injection h with h
      injection h with h
      injection h
    refine ⟨rfl, ?_⟩
    have hq := Number.fitsSigned_quotient hfa hne hleast
    exact ((w.computes_integers hq hfb).mul.integer_iff (q * b) ha).mpr ⟨rfl, hfa⟩
  · obtain ⟨finite, hdiv⟩ := @binary_div_uneven a b ha hb w hfa hfb hne heven
    have hnone : ∀ q fits, w.binary .div (.number (.integer a ha)) (.number (.integer b hb)) ≠
        .ok (.number (.integer q fits)) := by
      intro q fits hq
      have h := hdiv.symm.trans hq
      injection h with h
      injection h with h
      cases h
    exact ⟨⟨fun ⟨q, fits, hq⟩ => absurd hq (hnone q fits), fun h => absurd h heven⟩,
      fun q fits hq => absurd hq (hnone q fits), fun _ => ⟨finite, hdiv⟩, hmod⟩

/-- Arithmetic on two integers of 63 bits and a sign. Sums, differences, products and negations are
exact where the result is such an integer, and doubles otherwise. A quotient is an integer exactly
where the division is even, and the remainder always is, of the sign of the dividend. -/
theorem arithmetic_integers (w : World) (a b : Int)
    (ha : -0x8000000000000000 ≤ a ∧ a < 0x8000000000000000)
    (hb : -0x8000000000000000 ≤ b ∧ b < 0x8000000000000000) :
    w.Computes (.number (.integer a (Number.fits_of_fitsSigned (Number.fitsSigned_iff.mpr ha))))
        (.number (.integer b (Number.fits_of_fitsSigned (Number.fitsSigned_iff.mpr hb)))) a b ∧
      (b ≠ 0 → ¬ (a = -0x8000000000000000 ∧ b = -1) →
        w.Divides (.number (.integer a (Number.fits_of_fitsSigned (Number.fitsSigned_iff.mpr ha))))
          (.number (.integer b (Number.fits_of_fitsSigned (Number.fitsSigned_iff.mpr hb)))) a b) := by
  have hfa : Number.fitsSigned a = true := Number.fitsSigned_iff.mpr ha
  have hfb : Number.fitsSigned b = true := Number.fitsSigned_iff.mpr hb
  exact ⟨w.computes_integers hfa hfb, fun hne hleast => w.divides_integers hfa hfb hne hleast⟩

/-- The least integer has no exact negation, and three does not divide it. -/
theorem arithmetic_least :
    plain.Computes (.number (.integer (-0x8000000000000000) (by decide)))
        (.number (.integer 3 (by decide))) (-0x8000000000000000) 3 ∧
      plain.Divides (.number (.integer (-0x8000000000000000) (by decide)))
        (.number (.integer 3 (by decide))) (-0x8000000000000000) 3 := by
  obtain ⟨hcomputes, hdivides⟩ :=
    plain.arithmetic_integers (-0x8000000000000000) 3 (by decide) (by decide)
  exact ⟨hcomputes, hdivides (by decide) (by decide)⟩

end World

end ScriptTree
