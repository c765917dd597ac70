import Mathlib
import ScriptTree.Proofs.Time.Written

/-!
# Durations are read back

A duration is written as hours, minutes and seconds with one sign on each of them, and the fraction
of the seconds without the zeros at its end; that is one of the ways to write durations
(`spelling`, `chars_eq`). As all components have the same sign, no sum on the way is longer than the
whole (`within_of_sum_le`). So every duration is read back from its text (`text_roundtrip`).
-/

set_option autoImplicit false

namespace ScriptTree.Time.Duration

open Number (Digits Sign Signed)

variable {sign : Sign} {n : Nat} {c unit : Char}

/-! ## Whole units -/

/-- A number of whole units as it is written: nothing for zero. -/
def unitOf (sign : Sign) (n : Nat) : Option Signed :=
  if n = 0 then none else some ⟨sign, .ofNat n⟩

theorem unitChars_unitOf : unitChars unit (unitOf sign n) = component sign.chars n unit := by
  rw [unitOf, component]
  split <;> rfl

theorem isSome_unitOf : (unitOf sign n).isSome = decide (n ≠ 0) := by
  rw [unitOf]
  split <;> simp [*]

theorem value_ofNat : Signed.value ⟨sign, .ofNat n⟩ = sign.apply n := by
  rw [Signed.value, Digits.value_ofNat]

theorem unitNanos_unitOf (sign : Sign) (n scale : Nat) :
    Written.unitNanos scale (unitOf sign n) = sign.apply (n * scale : Nat) := by
  rw [Written.unitNanos, unitOf]
  split
  · rename_i hzero
    rw [hzero, Nat.zero_mul]
    exact (Int.zero_mul _).trans sign.apply_zero.symm
  · rw [Option.map_some, Option.getD_some, value_ofNat, Int.natCast_mul, Sign.apply_mul]

/-- A number of whole seconds or more is far below what 64 bits hold. -/
theorem fitsSigned_value {scale : Nat} (hscale : 1000000000 ≤ scale)
    (h : n * scale ≤ durationLimit) :
    Number.fitsSigned (Signed.value ⟨sign, .ofNat n⟩) = true := by
  have hle : n * 1000000000 ≤ n * scale := Nat.mul_le_mul_left n hscale
  have habs := sign.natAbs_apply n
  rw [durationLimit] at h
  rw [value_ofNat, Number.fitsSigned, decide_eq_true_eq]
  omega

theorem fitsSigned_unitOf {scale : Nat} (hscale : 1000000000 ≤ scale)
    (h : n * scale ≤ durationLimit) :
    ∀ i ∈ unitOf sign n, Number.fitsSigned i.value = true := by
  rw [unitOf]
  split
  · exact nofun
  · intro i hi
    rw [← Option.some.inj hi]
    exact fitsSigned_value hscale h

/-! ## Seconds -/

/-- Nine digits of a fraction are those that are written and zeros behind them. -/
theorem fractionDigits_append_zeros {fraction : Nat} (h : fraction < 1000000000) :
    ∃ zeros, (fractionDigits fraction).length + zeros = 9 ∧
      fractionDigits fraction ++ List.replicate zeros '0' =
        List.replicate (9 - (Nat.toDigits 10 fraction).length) '0' ++ Nat.toDigits 10 fraction := by
  have hlength : (Nat.toDigits 10 fraction).length ≤ 9 :=
    (Nat.length_toDigits_le_iff (by decide) (by decide)).mpr h
  -- The zeros that are not written are those at the front of the reversed digits.
  obtain ⟨padded, hpadded⟩ : ∃ padded, padded =
      List.replicate (9 - (Nat.toDigits 10 fraction).length) '0' ++ Nat.toDigits 10 fraction :=
    ⟨_, rfl⟩
  have hwritten : fractionDigits fraction = (padded.reverse.dropWhile (· == '0')).reverse := by
    rw [hpadded]
    rfl
  have hzeros : padded.reverse.takeWhile (· == '0') =
      List.replicate (padded.reverse.takeWhile (· == '0')).length '0' :=
    List.eq_replicate_of_mem fun c hc => eq_of_beq (List.mem_takeWhile_imp (p := (· == '0')) hc)
  have hsplit : fractionDigits fraction ++
      List.replicate (padded.reverse.takeWhile (· == '0')).length '0' = padded := by
    rw [hwritten, ← List.reverse_replicate, ← hzeros, ← List.reverse_append,
      List.takeWhile_append_dropWhile, List.reverse_reverse]
  refine ⟨(padded.reverse.takeWhile (· == '0')).length, ?_, hsplit.trans hpadded⟩
  have hall := congrArg List.length hsplit
  rw [List.length_append, List.length_replicate] at hall
  rw [hall, hpadded, List.length_append, List.length_replicate]
  omega

theorem isDigit_of_mem_fractionDigits {fraction : Nat} (h : fraction < 1000000000)
    (hc : c ∈ fractionDigits fraction) : c.isDigit = true := by
  obtain ⟨zeros, -, hsplit⟩ := fractionDigits_append_zeros h
  have hmem := List.mem_append_left (List.replicate zeros '0') hc
  rw [hsplit] at hmem
  rcases List.mem_append.mp hmem with hzero | hdigit
  · rw [List.eq_of_mem_replicate hzero]
    decide
  · exact Nat.isDigit_of_mem_toDigits (by decide) (by decide) hdigit

/-- The digits of a fraction in nanoseconds give the fraction. -/
theorem digitsValue_fractionDigits {fraction : Nat} (h : fraction < 1000000000) :
    Number.digitsValue (fractionDigits fraction) *
      Decimal.tenTo (9 - (fractionDigits fraction).length) = fraction := by
  obtain ⟨zeros, hlength, hsplit⟩ := fractionDigits_append_zeros h
  have hvalue := congrArg (Nat.ofDigitChars 10 · 0) hsplit
  simp only [Nat.ofDigitChars_append, Nat.ofDigitChars_replicate_zero, Nat.mul_zero,
    Nat.ofDigitChars_ten_toDigits] at hvalue
  have hscale : 9 - (fractionDigits fraction).length = zeros := by omega
  rw [hscale, Nat.mul_comm]
  exact hvalue

/-- The fraction of seconds as it is written: nothing for zero. -/
def fractionOfNanos (fraction : Nat) (h : fraction < 1000000000) : Option Fraction :=
  if fraction = 0 then none
  else some
    { mark := .point
      digits := fractionDigits fraction
      decimal := fun _ => isDigit_of_mem_fractionDigits h
      short := by
        obtain ⟨zeros, hlength, -⟩ := fractionDigits_append_zeros h
        omega }

/-- The seconds with their fraction as they are written: nothing when both are zero. -/
def secondsOf (sign : Sign) (seconds fraction : Nat) (h : fraction < 1000000000) :
    Option Seconds :=
  if seconds = 0 ∧ fraction = 0 then none
  else some ⟨⟨sign, .ofNat seconds⟩, fractionOfNanos fraction h⟩

section

variable {seconds fraction : Nat} {h : fraction < 1000000000}

theorem chars_secondsOf : ((secondsOf sign seconds fraction h).map (·.chars)).getD [] =
    if seconds = 0 ∧ fraction = 0 then []
    else sign.chars ++ Nat.toDigits 10 seconds ++
      (if fraction = 0 then [] else '.' :: fractionDigits fraction) ++ ['S'] := by
  rw [secondsOf]
  split
  · rfl
  · rw [Option.map_some, Option.getD_some, Seconds.chars, fractionOfNanos]
    split <;> rfl

theorem unitNanos_secondsOf (sign : Sign) (seconds fraction : Nat)
    (h : fraction < 1000000000) (scale : Nat) :
    Written.unitNanos scale ((secondsOf sign seconds fraction h).map (·.number)) =
      sign.apply (seconds * scale : Nat) := by
  rw [secondsOf]
  split
  · rename_i hzero
    rw [hzero.1, Nat.zero_mul]
    exact (Int.zero_mul _).trans sign.apply_zero.symm
  · rw [Option.map_some, Written.unitNanos, Option.map_some, Option.getD_some, value_ofNat,
      Int.natCast_mul, Sign.apply_mul]

/-- The sign of a fraction is that of its seconds, also when these are zero. -/
theorem fractionNanos_secondsOf (sign : Sign) (seconds fraction : Nat)
    (h : fraction < 1000000000) :
    ((secondsOf sign seconds fraction h).map (·.fractionNanos)).getD 0 = sign.apply fraction := by
  rw [secondsOf]
  split
  · rename_i hzero
    rw [hzero.2]
    exact sign.apply_zero.symm
  · rw [Option.map_some, Option.getD_some, Seconds.fractionNanos, Seconds.digits, fractionOfNanos]
    split
    · rename_i hzero
      rw [hzero]
      show sign.apply ((0 * 10 ^ 9 : Nat) : Int) = _
      rw [Nat.zero_mul]
    · exact congrArg (fun m : Nat => sign.apply m) (digitsValue_fractionDigits h)

theorem fitsSigned_secondsOf (hbound : seconds * 1000000000 ≤ durationLimit) :
    ∀ i ∈ (secondsOf sign seconds fraction h).map (·.number),
      Number.fitsSigned i.value = true := by
  rw [secondsOf]
  split
  · exact nofun
  · intro i hi
    rw [← Option.some.inj hi]
    exact fitsSigned_value (Nat.le_refl _) hbound

end

/-! ## Sums -/

/-- Numbers behind one sign add up behind it. -/
theorem sum_apply (sign : Sign) (numbers : List Nat) :
    (numbers.map fun n : Nat => sign.apply n).sum = sign.apply numbers.sum := by
  induction numbers with
  | nil => exact sign.apply_zero.symm
  | cons n rest ih =>
      rw [List.map_cons, List.sum_cons, List.sum_cons, ih]
      cases sign <;> simp only [Sign.apply, Int.natCast_add, Int.neg_add]

/-- In one direction no component and no sum on the way is longer than the whole. -/
theorem within_of_sum_le (sign : Sign) {lengths : List Nat} (h : lengths.sum ≤ durationLimit) :
    (∀ n ∈ lengths.map fun m : Nat => sign.apply m, Within n) ∧
      ∀ front ∈ (lengths.map fun m : Nat => sign.apply m).inits, Within front.sum := by
  constructor
  · intro n hn
    obtain ⟨m, hm, rfl⟩ := List.mem_map.mp hn
    rw [Within, sign.natAbs_apply]
    obtain ⟨before, after, rfl⟩ := List.append_of_mem hm
    rw [List.sum_append_nat, List.sum_cons] at h
    omega
  · intro front hfront
    obtain ⟨taken, ⟨rest, rfl⟩, rfl⟩ := List.prefix_map_iff.mp ((List.mem_inits _ _).mp hfront)
    rw [sum_apply, Within, sign.natAbs_apply]
    rw [List.sum_append_nat] at h
    exact (Nat.le_add_right _ _).trans h

/-! ## The whole text -/

/-- The components of a duration that is not zero, as it is written. -/
def spelling (d : Duration) (h : d.nanos.natAbs ≠ 0) : Written where
  sign := .absent
  days := none
  hours := unitOf (.ofInt d.nanos) (d.nanos.natAbs / 1000000000 / 3600)
  minutes := unitOf (.ofInt d.nanos) (d.nanos.natAbs / 1000000000 / 60 % 60)
  seconds := secondsOf (.ofInt d.nanos) (d.nanos.natAbs / 1000000000 % 60)
    (d.nanos.natAbs % 1000000000) (Nat.mod_lt _ (by decide))
  present := by
    rw [isSome_unitOf, isSome_unitOf, secondsOf]
    split
    · -- Without seconds there are hours or minutes.
      have hwhole : d.nanos.natAbs / 1000000000 / 3600 ≠ 0 ∨
          d.nanos.natAbs / 1000000000 / 60 % 60 ≠ 0 := by omega
      rcases hwhole with hhours | hminutes
      · rw [decide_eq_true hhours]
        rfl
      · rw [decide_eq_true hminutes, Bool.or_true]
        rfl
    · exact Bool.or_true _

variable (d : Duration) (h : d.nanos.natAbs ≠ 0)

theorem clockChars_spelling : (d.spelling h).clockChars =
    component (Sign.ofInt d.nanos).chars (d.nanos.natAbs / 1000000000 / 3600) 'H' ++
      (component (Sign.ofInt d.nanos).chars (d.nanos.natAbs / 1000000000 / 60 % 60) 'M' ++
        if d.nanos.natAbs / 1000000000 % 60 = 0 ∧ d.nanos.natAbs % 1000000000 = 0 then []
        else
          (Sign.ofInt d.nanos).chars ++ Nat.toDigits 10 (d.nanos.natAbs / 1000000000 % 60) ++
            (if d.nanos.natAbs % 1000000000 = 0 then []
              else '.' :: fractionDigits (d.nanos.natAbs % 1000000000)) ++ ['S']) := by
  rw [Written.clockChars, spelling, unitChars_unitOf, unitChars_unitOf, chars_secondsOf]

/-- A duration that is not zero is written as its components. -/
theorem chars_eq : d.chars = (d.spelling h).chars := by
  have hsign : (if d.nanos < 0 then ['-'] else []) = (Sign.ofInt d.nanos).chars := by
    rw [Sign.ofInt]
    split <;> rfl
  -- There are no days, so hours, minutes or seconds are present.
  have htime : (d.spelling h).timeChars = 'T' :: (d.spelling h).clockChars := if_pos (by
    have hpresent := (d.spelling h).present
    rwa [show (d.spelling h).days.isSome = false from rfl, Bool.false_or] at hpresent)
  have hchars : (d.spelling h).chars = 'P' :: (d.spelling h).timeChars := rfl
  rw [hchars, htime, clockChars_spelling, chars, hsign]
  simp only [h, if_false, List.cons_append, List.append_assoc]

/-- The lengths of the components of a duration. -/
def lengths : List Nat :=
  [0, d.nanos.natAbs / 1000000000 / 3600 * 3600000000000,
    d.nanos.natAbs / 1000000000 / 60 % 60 * 60000000000,
    d.nanos.natAbs / 1000000000 % 60 * 1000000000, d.nanos.natAbs % 1000000000]

/-- Hours, minutes, seconds and the fraction make up the whole. -/
theorem sum_lengths : d.lengths.sum = d.nanos.natAbs := by
  have hsum (a b c e : Nat) : [0, a, b, c, e].sum = a + (b + (c + e)) := by
    simp only [List.sum_cons, List.sum_nil, Nat.add_zero, Nat.zero_add]
  rw [lengths, hsum]
  omega

theorem terms_spelling :
    (d.spelling h).terms = d.lengths.map fun m : Nat => (Sign.ofInt d.nanos).apply m := by
  have hdays : Written.unitNanos 86400000000000 none = (Sign.ofInt d.nanos).apply (0 : Nat) :=
    (Int.zero_mul _).trans (Sign.apply_zero _).symm
  have hhours := unitNanos_unitOf (.ofInt d.nanos) (d.nanos.natAbs / 1000000000 / 3600)
    3600000000000
  have hminutes := unitNanos_unitOf (.ofInt d.nanos) (d.nanos.natAbs / 1000000000 / 60 % 60)
    60000000000
  have hseconds := unitNanos_secondsOf (.ofInt d.nanos) (d.nanos.natAbs / 1000000000 % 60)
    (d.nanos.natAbs % 1000000000) (Nat.mod_lt _ (by decide)) 1000000000
  have hfraction := fractionNanos_secondsOf (.ofInt d.nanos) (d.nanos.natAbs / 1000000000 % 60)
    (d.nanos.natAbs % 1000000000) (Nat.mod_lt _ (by decide))
  rw [lengths, List.map_cons, List.map_cons, List.map_cons, List.map_cons, List.map_cons,
    List.map_nil, ← hdays, ← hhours, ← hminutes, ← hseconds, ← hfraction]
  rfl

theorem nanos_spelling : (d.spelling h).nanos = d.nanos := by
  have hsum : (d.spelling h).nanos = (d.spelling h).terms.sum := rfl
  rw [hsum, terms_spelling, sum_apply, sum_lengths, Sign.apply_ofInt]

theorem fits_spelling : (d.spelling h).Fits := by
  have hbounded : d.lengths.sum ≤ durationLimit := d.sum_lengths ▸ d.bounded
  obtain ⟨hterms, hinits⟩ := within_of_sum_le (.ofInt d.nanos) hbounded
  rw [← d.terms_spelling h] at hterms hinits
  refine ⟨?_, hterms, hinits⟩
  have hbounds := d.bounded
  have hhour : 1000000000 ≤ 3600000000000 := by decide
  have hminute : 1000000000 ≤ 60000000000 := by decide
  rw [Written.forall_numbers_iff]
  refine ⟨nofun, fitsSigned_unitOf hhour ?_, fitsSigned_unitOf hminute ?_,
    fitsSigned_secondsOf ?_⟩ <;> omega

/-- Every duration is read back from its text. -/
theorem ofChars?_chars : ofChars? d.chars = some d := by
  by_cases hzero : d.nanos.natAbs = 0
  · obtain ⟨nanos, hbounded⟩ := d
    obtain rfl : nanos = 0 := Int.natAbs_eq_zero.mp hzero
    have hread : ofChars? "PT0S".toList = ofNanos? 0 := by decide
    exact hread.trans (dif_pos hbounded)
  · rw [d.chars_eq hzero, Written.ofChars?_chars]
    exact (Written.total?_eq_some_iff _).mpr ⟨d.fits_spelling hzero, (d.nanos_spelling hzero).symm⟩

/-- Every duration is read back from its text, the longest ones too: no sum on the way fails. -/
theorem text_roundtrip (d : Duration) : ofChars? d.text.toList = some d := by
  rw [text, String.toList_ofList]
  exact ofChars?_chars d

/-- Half a second back keeps its sign, although the seconds are zero. -/
example : ofChars? "PT-0.5S".toList = ofNanos? (-500000000) := by decide

end ScriptTree.Time.Duration
