import ScriptTree.Proofs.Number.Doubles
import ScriptTree.Value.Operator

/-!
# Comparing numbers

Numbers are ordered by their doubles (`Number.order_eq`), and equal when their doubles are, except
that two integers have to be the same integer (`Number.same_iff`). So the operators tell the truth
about two integers exactly when the integers are the same or have different nearest doubles
(`World.tells_integers`), as all integers up to `2 ^ 53` do. Next to each other beyond that, two
integers can share their double; then none of `<`, `==` and `>` holds of them, while both `<=` and
`>=` do (`World.shared_double`).
-/

set_option autoImplicit false

namespace ScriptTree

namespace Number

/-- The value of the double that a number turns into, in units of the least positive double. -/
def worth (a : Number) : Int := Double.units a.toFloat

/-- Two numbers of integer shape are the same integer. -/
def Agrees : Number → Number → Prop
  | .integer m _, .integer n _ => m = n
  | _, _ => True

/-- A number of integer shape is a double. -/
def IsExact : Number → Prop
  | .integer n _ => Double.nearest n = n
  | .floating _ _ => True

variable {m n : Int} {hm : -0x8000000000000000 ≤ m ∧ m < 0x10000000000000000}
  {hn : -0x8000000000000000 ≤ n ∧ n < 0x10000000000000000}

theorem isFinite_toFloat (a : Number) : a.toFloat.isFinite = true := by
  cases a with
  | integer n fits => exact (Double.units_ofInt (by omega) (by omega)).1
  | floating x finite => exact finite

theorem worth_integer : worth (.integer n hn) = Double.nearest n * Double.unitsOfOne :=
  (Double.units_ofInt (by omega) (by omega)).2

theorem toFloat_beq_iff (a b : Number) : (a.toFloat == b.toFloat) = true ↔ a.worth = b.worth :=
  Double.beq_iff a.isFinite_toFloat b.isFinite_toFloat

/-- Numbers are ordered as their doubles are. -/
theorem order_eq (a b : Number) : a.order b = compare a.worth b.worth := by
  have hlt := Double.lt_iff a.isFinite_toFloat b.isFinite_toFloat
  rw [order]
  rcases Int.lt_trichotomy a.worth b.worth with h | h | h
  · rw [if_pos (hlt.mpr h), Int.compare_eq_lt.mpr h]
  · rw [if_neg fun hless => Int.ne_of_lt (hlt.mp hless) h, if_pos ((toFloat_beq_iff a b).mpr h),
      Int.compare_eq_eq.mpr h]
  · rw [if_neg fun hless => Int.lt_asymm h (hlt.mp hless),
      if_neg fun heq => Int.ne_of_gt h ((toFloat_beq_iff a b).mp heq), Int.compare_eq_gt.mpr h]

/-- Two integers compare as their nearest doubles do. -/
theorem order_integers :
    (integer m hm).order (.integer n hn) = compare (Double.nearest m) (Double.nearest n) := by
  have hpos : (0 : Int) < Double.unitsOfOne := Int.natCast_pos.mpr Double.unitsOfOne_pos
  rw [order_eq, worth_integer, worth_integer]
  rcases Int.lt_trichotomy (Double.nearest m) (Double.nearest n) with h | h | h
  · rw [Int.compare_eq_lt.mpr h, Int.compare_eq_lt.mpr (Int.mul_lt_mul_of_pos_right h hpos)]
  · rw [h, Int.compare_eq_eq.mpr rfl, Int.compare_eq_eq.mpr rfl]
  · rw [Int.compare_eq_gt.mpr h, Int.compare_eq_gt.mpr (Int.mul_lt_mul_of_pos_right h hpos)]

/-- An integer past the signed range and a negative one have different doubles. -/
theorem worth_ne_of_sign (hlow : m < 0) (hhigh : 0x8000000000000000 ≤ n) :
    worth (.integer m hm) ≠ worth (.integer n hn) := by
  have hneg : Double.nearest m ≤ -1 := Double.nearest_mono (b := -1) (by omega)
  have hbig : 1 ≤ Double.nearest n := Double.nearest_mono (a := 1) (by omega)
  have hpos : (0 : Int) < Double.unitsOfOne := Int.natCast_pos.mpr Double.unitsOfOne_pos
  have hlt : Double.nearest m < Double.nearest n := by omega
  rw [worth_integer, worth_integer]
  exact Int.ne_of_lt (Int.mul_lt_mul_of_pos_right hlt hpos)

/-- Where the signed 64-bit forms do not decide equality, the unsigned ones do if there are any. -/
theorem same_of_signed?_eq_none {a b : Number} (h : a.signed? = none ∨ b.signed? = none) :
    a.same b =
      match a.unsigned?, b.unsigned? with
      | some x, some y => x == y
      | _, _ => a.toFloat == b.toFloat := by
  rw [same]
  split
  · rename_i hx hy
    rcases h with h | h
    · rw [hx] at h
      cases h
    · rw [hy] at h
      cases h
  · rfl

/-- Without two 64-bit forms of one kind, the doubles are compared. -/
theorem same_of_eq_none {a b : Number} (hsigned : a.signed? = none ∨ b.signed? = none)
    (hunsigned : a.unsigned? = none ∨ b.unsigned? = none) :
    a.same b = (a.toFloat == b.toFloat) := by
  rw [same_of_signed?_eq_none hsigned]
  split
  · rename_i hx hy
    rcases hunsigned with h | h
    · rw [hx] at h
      cases h
    · rw [hy] at h
      cases h
  · rfl

theorem signed?_eq_none (h : 0x8000000000000000 ≤ n) : (integer n hn).signed? = none := by
  rw [signed?, if_neg]
  rw [fitsSigned, decide_eq_true_eq]
  omega

theorem unsigned?_eq_none (h : n < 0) : (integer n hn).unsigned? = none :=
  if_neg (by omega)

/-- A negative integer and one past the signed range are not equal. -/
theorem same_of_sign (hlow : m < 0) (hhigh : 0x8000000000000000 ≤ n) :
    (integer m hm).same (.integer n hn) = false ∧ (integer n hn).same (.integer m hm) = false := by
  have hne : worth (.integer m hm) ≠ worth (.integer n hn) := worth_ne_of_sign hlow hhigh
  have hsigned : (integer n hn).signed? = none := signed?_eq_none hhigh
  have hunsigned : (integer m hm).unsigned? = none := unsigned?_eq_none hlow
  rw [same_of_eq_none (.inr hsigned) (.inl hunsigned),
    same_of_eq_none (.inl hsigned) (.inr hunsigned), Bool.eq_false_iff, Bool.eq_false_iff, Ne, Ne,
    toFloat_beq_iff, toFloat_beq_iff]
  exact ⟨hne, Ne.symm hne⟩

/-- Integers are equal exactly when they are the same, within one 64-bit range and across both. -/
theorem same_integers : (integer m hm).same (.integer n hn) = decide (m = n) := by
  -- The signed forms decide, else the unsigned ones, else the signs are different.
  by_cases hsigned : fitsSigned m = true ∧ fitsSigned n = true
  · simp only [same, signed?, hsigned.1, hsigned.2, if_true]
    rfl
  · have hpast : 0x8000000000000000 ≤ m ∨ 0x8000000000000000 ≤ n := by
      simp only [fitsSigned, decide_eq_true_eq] at hsigned
      omega
    by_cases hnonneg : 0 ≤ m ∧ 0 ≤ n
    · rw [same_of_signed?_eq_none (hpast.imp signed?_eq_none signed?_eq_none)]
      simp only [unsigned?, hnonneg.1, hnonneg.2, if_true]
      rfl
    · rw [decide_eq_false (by omega)]
      rcases hpast with hpast | hpast
      · exact (same_of_sign (by omega) hpast).2
      · exact (same_of_sign (by omega) hpast).1

/-- Numbers are equal when their doubles are and two integers among them are the same. -/
theorem same_iff (a b : Number) : a.same b = true ↔ a.worth = b.worth ∧ a.Agrees b := by
  cases a with
  | integer m hm =>
      cases b with
      | integer n hn =>
          rw [same_integers, decide_eq_true_eq]
          constructor
          · rintro rfl
            exact ⟨rfl, rfl⟩
          · exact And.right
      | floating y hy =>
          rw [same_of_eq_none (.inr rfl) (.inr rfl), toFloat_beq_iff]
          exact ⟨fun h => ⟨h, trivial⟩, And.left⟩
  | floating x hx =>
      rw [same_of_eq_none (.inl rfl) (.inl rfl), toFloat_beq_iff]
      exact ⟨fun h => ⟨h, trivial⟩, And.left⟩

end Number

/-! ## The operators on two integers -/

theorem tests_compare (i j : Int) :
    (compare i j).isLT = decide (i < j) ∧ (compare i j).isLE = decide (i ≤ j) ∧
      (compare i j).isGT = decide (i > j) ∧ (compare i j).isGE = decide (i ≥ j) := by
  rcases Int.lt_trichotomy i j with h | h | h
  · rw [Int.compare_eq_lt.mpr h, decide_eq_true h, decide_eq_true (Int.le_of_lt h),
      decide_eq_false (Int.lt_asymm h), decide_eq_false (Int.not_le.mpr h)]
    exact ⟨rfl, rfl, rfl, rfl⟩
  · rw [h, Int.compare_eq_eq.mpr rfl, decide_eq_false (Int.lt_irrefl j),
      decide_eq_true (Int.le_refl j)]
    exact ⟨rfl, rfl, rfl, rfl⟩
  · rw [Int.compare_eq_gt.mpr h, decide_eq_false (Int.lt_asymm h),
      decide_eq_false (Int.not_le.mpr h), decide_eq_true h, decide_eq_true (Int.le_of_lt h)]
    exact ⟨rfl, rfl, rfl, rfl⟩

namespace World

/-- The operators tell the truth about two integers, and exactly one of `<`, `==` and `>` is
true. -/
structure Tells (w : World) (x y : Value) (a b : Int) : Prop where
  lt : w.binary .lt x y = .ok (.bool (decide (a < b)))
  le : w.binary .le x y = .ok (.bool (decide (a ≤ b)))
  gt : w.binary .gt x y = .ok (.bool (decide (a > b)))
  ge : w.binary .ge x y = .ok (.bool (decide (a ≥ b)))
  eq : w.binary .eq x y = .ok (.bool (decide (a = b)))
  one : ∃ op ∈ [Expr.Operator.lt, .eq, .gt], ∀ other ∈ [Expr.Operator.lt, .eq, .gt],
    w.binary other x y = .ok (.bool true) ↔ other = op

variable {a b : Int} {ha : -0x8000000000000000 ≤ a ∧ a < 0x10000000000000000}
  {hb : -0x8000000000000000 ≤ b ∧ b < 0x10000000000000000}

variable (ha hb) in
/-- What the operators say about two integers: the order of the nearest doubles, and whether the
integers are the same. -/
theorem binary_integers (w : World) :
    w.binary .lt (.number (.integer a ha)) (.number (.integer b hb)) =
        .ok (.bool (decide (Double.nearest a < Double.nearest b))) ∧
      w.binary .le (.number (.integer a ha)) (.number (.integer b hb)) =
        .ok (.bool (decide (Double.nearest a ≤ Double.nearest b))) ∧
      w.binary .gt (.number (.integer a ha)) (.number (.integer b hb)) =
        .ok (.bool (decide (Double.nearest a > Double.nearest b))) ∧
      w.binary .ge (.number (.integer a ha)) (.number (.integer b hb)) =
        .ok (.bool (decide (Double.nearest a ≥ Double.nearest b))) ∧
      w.binary .eq (.number (.integer a ha)) (.number (.integer b hb)) =
        .ok (.bool (decide (a = b))) := by
  obtain ⟨hlt, hle, hgt, hge⟩ := tests_compare (Double.nearest a) (Double.nearest b)
  have hordered : ∀ op test, Value.ordered op test (.number (.integer a ha))
      (.number (.integer b hb)) =
        .ok (.bool (test (compare (Double.nearest a) (Double.nearest b)))) := by
    intro op test
    show Except.ok (Value.bool (test (Number.order _ _))) = _
    rw [Number.order_integers]
  refine ⟨?_, ?_, ?_, ?_, ?_⟩
  · exact (hordered .lt Ordering.isLT).trans (by rw [hlt])
  · exact (hordered .le Ordering.isLE).trans (by rw [hle])
  · exact (hordered .gt Ordering.isGT).trans (by rw [hgt])
  · exact (hordered .ge Ordering.isGE).trans (by rw [hge])
  · exact congrArg (fun r => Except.ok (Value.bool r)) Number.same_integers

theorem eq_of_verdicts {p q : Bool}
    (h : (Except.ok (.bool p) : Except Script.Fault Value) = .ok (.bool q)) : p = q := by
  injection h with h
  injection h

/-- Where `<`, `==` and `>` tell the truth, one of them is true and the others are false. -/
theorem one_of_truth {w : World} {x y : Value}
    (hlt : w.binary .lt x y = .ok (.bool (decide (a < b))))
    (heq : w.binary .eq x y = .ok (.bool (decide (a = b))))
    (hgt : w.binary .gt x y = .ok (.bool (decide (a > b)))) :
    ∃ op ∈ [Expr.Operator.lt, .eq, .gt], ∀ other ∈ [Expr.Operator.lt, .eq, .gt],
      w.binary other x y = .ok (.bool true) ↔ other = op := by
  have hverdict : ∀ other ∈ [Expr.Operator.lt, .eq, .gt], w.binary other x y = .ok (.bool true) ↔
      (other = .lt ∧ a < b ∨ other = .eq ∧ a = b ∨ other = .gt ∧ a > b) := by
    intro other hother
    simp only [List.mem_cons, List.not_mem_nil, or_false] at hother
    rcases hother with rfl | rfl | rfl
    · rw [hlt]
      simp
    · rw [heq]
      simp
    · rw [hgt]
      simp
  rcases Int.lt_trichotomy a b with horder | horder | horder
  · refine ⟨.lt, by decide, fun other hother => (hverdict other hother).trans ?_⟩
    have hne : a ≠ b := Int.ne_of_lt horder
    have hngt : ¬ a > b := Int.lt_asymm horder
    simp [horder, hne, hngt]
  · refine ⟨.eq, by decide, fun other hother => (hverdict other hother).trans ?_⟩
    simp [horder]
  · refine ⟨.gt, by decide, fun other hother => (hverdict other hother).trans ?_⟩
    have hne : a ≠ b := Int.ne_of_gt horder
    have hnlt : ¬ a < b := Int.lt_asymm horder
    simp [horder, hne, hnlt]

/-- Two integers that are the same or have different doubles are compared as they are. -/
theorem tells_of_apart (w : World) (h : Double.nearest a = Double.nearest b → a = b) :
    w.Tells (.number (.integer a ha)) (.number (.integer b hb)) a b := by
  obtain ⟨hlt, hle, hgt, hge, heq⟩ := w.binary_integers ha hb
  have hless : Double.nearest a < Double.nearest b ↔ a < b := Double.nearest_lt_iff h
  have hmore : Double.nearest a > Double.nearest b ↔ a > b :=
    Double.nearest_lt_iff fun hshared => (h hshared.symm).symm
  have hatMost : Double.nearest a ≤ Double.nearest b ↔ a ≤ b := by omega
  have hatLeast : Double.nearest a ≥ Double.nearest b ↔ a ≥ b := by omega
  rw [decide_eq_decide.mpr hless] at hlt
  rw [decide_eq_decide.mpr hatMost] at hle
  rw [decide_eq_decide.mpr hmore] at hgt
  rw [decide_eq_decide.mpr hatLeast] at hge
  exact ⟨hlt, hle, hgt, hge, heq, one_of_truth hlt heq hgt⟩

/-- Two integers are compared as they are exactly when they are the same or have different nearest
doubles, and so always up to `2 ^ 53`. Whether they are equal is always told, and no operator ever
claims the opposite of their order. -/
theorem tells_integers (w : World) (a b : Int)
    (ha : -0x8000000000000000 ≤ a ∧ a < 0x10000000000000000)
    (hb : -0x8000000000000000 ≤ b ∧ b < 0x10000000000000000) :
    (w.Tells (.number (.integer a ha)) (.number (.integer b hb)) a b ↔
        (Double.nearest a = Double.nearest b → a = b)) ∧
      (a.natAbs ≤ 2 ^ 53 → b.natAbs ≤ 2 ^ 53 →
        w.Tells (.number (.integer a ha)) (.number (.integer b hb)) a b) ∧
      w.binary .eq (.number (.integer a ha)) (.number (.integer b hb)) =
        .ok (.bool (decide (a = b))) ∧
      (a ≤ b →
        w.binary .le (.number (.integer a ha)) (.number (.integer b hb)) = .ok (.bool true) ∧
          w.binary .gt (.number (.integer a ha)) (.number (.integer b hb)) = .ok (.bool false)) ∧
      (b ≤ a →
        w.binary .ge (.number (.integer a ha)) (.number (.integer b hb)) = .ok (.bool true) ∧
          w.binary .lt (.number (.integer a ha)) (.number (.integer b hb)) =
            .ok (.bool false)) := by
  obtain ⟨hlt, hle, hgt, hge, heq⟩ := w.binary_integers ha hb
  refine ⟨⟨fun htells hshared => ?_, w.tells_of_apart⟩, fun hasmall hbsmall => ?_, heq,
    fun horder => ?_, fun horder => ?_⟩
  · -- On one double neither `<` nor `>` is true, so it must be `==`.
    have hless := decide_eq_decide.mp (eq_of_verdicts (htells.lt.symm.trans hlt))
    have hmore := decide_eq_decide.mp (eq_of_verdicts (htells.gt.symm.trans hgt))
    omega
  · refine w.tells_of_apart fun hshared => ?_
    rwa [Double.nearest_eq_self hasmall, Double.nearest_eq_self hbsmall] at hshared
  · have hmono := Double.nearest_mono horder
    rw [hle, hgt, decide_eq_true hmono, decide_eq_false (Int.not_lt.mpr hmono)]
    exact ⟨rfl, rfl⟩
  · have hmono := Double.nearest_mono horder
    rw [hge, hlt, decide_eq_true hmono, decide_eq_false (Int.not_lt.mpr hmono)]
    exact ⟨rfl, rfl⟩

/-- A world to compare values in. -/
def plain : World := .initial ⟨true, true, 0⟩ .empty

/-- The first of the integers is no double, but its nearest one is not that of the second. -/
theorem tells_neighbours :
    plain.Tells (.number (.integer 9007199254740993 (by decide)))
      (.number (.integer 9007199254740994 (by decide))) 9007199254740993 9007199254740994 :=
  (tells_integers plain 9007199254740993 9007199254740994 (by decide) (by decide)).1.mpr (by decide)

/-- Neighbours that share their nearest double: none of `<`, `==` and `>` is true of them, and
`<=` and `>=` both are. -/
theorem shared_double :
    plain.binary .lt (Value.ofNat 9007199254740993) (Value.ofNat 9007199254740992) =
        .ok (.bool false) ∧
      plain.binary .eq (Value.ofNat 9007199254740993) (Value.ofNat 9007199254740992) =
        .ok (.bool false) ∧
      plain.binary .gt (Value.ofNat 9007199254740993) (Value.ofNat 9007199254740992) =
        .ok (.bool false) ∧
      plain.binary .le (Value.ofNat 9007199254740993) (Value.ofNat 9007199254740992) =
        .ok (.bool true) ∧
      ¬ plain.Tells (Value.ofNat 9007199254740993) (Value.ofNat 9007199254740992)
        9007199254740993 9007199254740992 := by
  refine ⟨rfl, rfl, rfl, rfl, fun htells => ?_⟩
  exact absurd (eq_of_verdicts htells.gt) (by decide)

end World

end ScriptTree
