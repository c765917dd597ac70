import Mathlib
import ScriptTree.Proofs.Number.Signed
import ScriptTree.Proofs.Text.Parts
import ScriptTree.Time.Duration

/-!
# Durations as they are written

A written duration (`Written`) has an optional sign and up to four components, each with a sign of
its own, the last one with an optional fraction. Its text is split into the components again: each
is taken off the front before the next one (`takeComponent_unit`, `takeSeconds_chars`), since no
component starts like one of another unit. What the components denote is added from the left within
the bounds (`total?_eq_some_iff`), and the whole text is read as that sum where there is one
(`Written.ofChars?_chars`).
-/

set_option autoImplicit false

namespace ScriptTree.Time.Duration

open Number (Digits Sign Signed)

/-! ## The written form -/

/-- The mark in front of a fraction. -/
inductive Mark where
  | point
  | comma
  deriving DecidableEq, Repr

/-- The character of a mark. -/
def Mark.char : Mark → Char
  | point => '.'
  | comma => ','

/-- A mark and at most nine digits. -/
structure Fraction where
  mark : Mark
  digits : List Char
  decimal : ∀ c ∈ digits, c.isDigit = true
  short : digits.length ≤ 9

/-- Seconds with an optional fraction. -/
structure Seconds where
  number : Signed
  fraction : Option Fraction

namespace Seconds

/-- The digits of the fraction. -/
def digits (s : Seconds) : List Char := (s.fraction.map (·.digits)).getD []

/-- The seconds as they are written. -/
def chars (s : Seconds) : List Char :=
  s.number.chars ++ (match s.fraction with
    | some f => f.mark.char :: f.digits
    | none => []) ++ ['S']

/-- The nanoseconds of the fraction, behind the sign of the seconds. -/
def fractionNanos (s : Seconds) : Int :=
  s.number.sign.apply (Nat.ofDigitChars 10 s.digits 0 * 10 ^ (9 - s.digits.length) : Nat)

end Seconds

/-- A duration as it is written, with at least one component. -/
structure Written where
  sign : Sign
  days : Option Signed
  hours : Option Signed
  minutes : Option Signed
  seconds : Option Seconds
  present : (days.isSome || hours.isSome || minutes.isSome || seconds.isSome) = true

/-- A component of whole units as it is written. -/
def unitChars (unit : Char) : Option Signed → List Char
  | some i => i.chars ++ [unit]
  | none => []

namespace Written

/-- The hours, minutes and seconds as they are written. -/
def clockChars (d : Written) : List Char :=
  unitChars 'H' d.hours ++ (unitChars 'M' d.minutes ++ (d.seconds.map (·.chars)).getD [])

/-- The part behind the days, announced when there is one. -/
def timeChars (d : Written) : List Char :=
  if d.hours.isSome || d.minutes.isSome || d.seconds.isSome then 'T' :: d.clockChars else []

/-- The text of a written duration. -/
def chars (d : Written) : List Char :=
  d.sign.chars ++ 'P' :: (unitChars 'D' d.days ++ d.timeChars)

/-- The whole numbers of the components. -/
def numbers (d : Written) : List Signed :=
  d.days.toList ++ d.hours.toList ++ d.minutes.toList ++ (d.seconds.map (·.number)).toList

/-- The nanoseconds of a component of whole units. -/
def unitNanos (scale : Int) (o : Option Signed) : Int := ((o.map (·.value)).getD 0) * scale

/-- The nanoseconds of the components, from the left. -/
def terms (d : Written) : List Int :=
  [unitNanos 86400000000000 d.days, unitNanos 3600000000000 d.hours,
    unitNanos 60000000000 d.minutes, unitNanos 1000000000 (d.seconds.map (·.number)),
    (d.seconds.map (·.fractionNanos)).getD 0]

/-- The exact nanoseconds of a written duration. -/
def nanos (d : Written) : Int := d.sign.apply d.terms.sum

end Written

/-- A number of nanoseconds within the bounds of durations. -/
def Within (n : Int) : Prop := n.natAbs ≤ durationLimit

instance (n : Int) : Decidable (Within n) := inferInstanceAs (Decidable (_ ≤ _))

/-- Each number has 64 bits, and each component and each sum from the left is within the bounds. -/
def Written.Fits (d : Written) : Prop :=
  (∀ i ∈ d.numbers, Number.fitsSigned i.value = true) ∧ (∀ n ∈ d.terms, Within n) ∧
    ∀ front ∈ d.terms.inits, Within front.sum

instance (d : Written) : Decidable d.Fits := inferInstanceAs (Decidable (_ ∧ _ ∧ _))

/-! ## Taking components off the front -/

variable {units rest tail : List Char} {c unit : Char}

/-- A signed number is taken off the front of a text. -/
theorem takeSigned_chars (i : Signed) (hc : c.isDigit = false) :
    takeSigned (i.chars ++ c :: rest) = (i.chars, c :: rest) := by
  obtain ⟨sign, digits⟩ := i
  have htake : (digits.chars ++ c :: rest).takeWhile Char.isDigit = digits.chars := by
    rw [List.takeWhile_append_of_pos digits.decimal, List.takeWhile_cons_of_neg (by simp [hc]),
      List.append_nil]
  have hdrop : (digits.chars ++ c :: rest).dropWhile Char.isDigit = c :: rest := by
    rw [List.dropWhile_append_of_pos digits.decimal, List.dropWhile_cons_of_neg (by simp [hc])]
  have hsigned : ∀ front : List Char, (front ++ (digits.chars ++ c :: rest).takeWhile Char.isDigit,
      (digits.chars ++ c :: rest).dropWhile Char.isDigit) = (front ++ digits.chars, c :: rest) := by
    intro front
    rw [htake, hdrop]
  cases sign with
  | plus => exact hsigned ['+']
  | minus => exact hsigned ['-']
  | absent =>
      obtain ⟨d, others, hcons⟩ := List.exists_cons_of_ne_nil digits.ne_nil
      have hplain : takeSigned (digits.chars ++ c :: rest) =
          ([] ++ (digits.chars ++ c :: rest).takeWhile Char.isDigit,
            (digits.chars ++ c :: rest).dropWhile Char.isDigit) := by
        rw [hcons, List.cons_append, takeSigned]
        · rintro _ ⟨⟩
          exact digits.chars_ne_cons (by decide) _ hcons
        · rintro _ ⟨⟩
          exact digits.chars_ne_cons (by decide) _ hcons
      exact hplain.trans (hsigned [])

theorem hasDigit_chars (i : Signed) : hasDigit i.chars = true := by
  obtain ⟨d, others, hcons⟩ := List.exists_cons_of_ne_nil i.digits.ne_nil
  rw [hasDigit, List.any_eq_true]
  exact ⟨d, List.mem_append_right _ (hcons ▸ List.mem_cons_self),
    i.digits.decimal d (hcons ▸ List.mem_cons_self)⟩

/-- A number before the letter of another unit is no component. -/
theorem takeComponent_other (i : Signed) (hc : c.isDigit = false)
    (hunits : units.contains c = false) :
    takeComponent units (i.chars ++ c :: rest) = (none, i.chars ++ c :: rest) := by
  rw [takeComponent, takeSigned_chars i hc]
  simp only [hunits, Bool.and_false, Bool.false_eq_true, if_false]

/-- A component is taken off the front of a text, when what follows it would not be one itself. -/
theorem takeComponent_unit (o : Option Signed) (hunit : unit.isDigit = false)
    (hunits : units.contains unit = true) (htail : takeComponent units tail = (none, tail)) :
    takeComponent units (unitChars unit o ++ tail) = (o.map (·.chars), tail) := by
  cases o with
  | none => exact htail
  | some i =>
      rw [unitChars, List.append_assoc, List.singleton_append, takeComponent,
        takeSigned_chars i hunit]
      simp only [hasDigit_chars, hunits, Bool.and_self, if_true, Option.map_some]

/-- Before a component of another unit stands none of this one. -/
theorem takeComponent_unit_other (o : Option Signed) (hunit : unit.isDigit = false)
    (hunits : units.contains unit = false) (htail : takeComponent units tail = (none, tail)) :
    takeComponent units (unitChars unit o ++ tail) = (none, unitChars unit o ++ tail) := by
  cases o with
  | none => exact htail
  | some i =>
      rw [unitChars, List.append_assoc, List.singleton_append]
      exact takeComponent_other i hunit hunits

/-- Seconds are no component of another unit, with a fraction or without. -/
theorem takeComponent_seconds (s : Seconds) (hunits : units.contains 'S' = false)
    (hpoint : units.contains '.' = false) (hcomma : units.contains ',' = false) :
    takeComponent units s.chars = (none, s.chars) := by
  obtain ⟨number, fraction⟩ := s
  cases fraction with
  | none =>
      rw [Seconds.chars, List.append_nil]
      exact takeComponent_other number (by decide) hunits
  | some f =>
      rw [Seconds.chars, List.append_assoc, List.cons_append]
      cases hmark : f.mark with
      | point => exact takeComponent_other number (by decide) hpoint
      | comma => exact takeComponent_other number (by decide) hcomma

theorem takeSeconds_chars (s : Seconds) :
    takeSeconds s.chars = (some (s.number.chars, s.digits), []) := by
  obtain ⟨number, fraction⟩ := s
  cases fraction with
  | none =>
      rw [Seconds.chars, List.append_nil, takeSeconds, takeSigned_chars number (by decide)]
      simp only [hasDigit_chars]
      rfl
  | some f =>
      obtain ⟨mark, digits, decimal, short⟩ := f
      have htake : (digits ++ ['S']).takeWhile Char.isDigit = digits := by
        rw [List.takeWhile_append_of_pos decimal, List.takeWhile_cons_of_neg (by decide),
          List.append_nil]
      have hdrop : (digits ++ ['S']).dropWhile Char.isDigit = ['S'] := by
        rw [List.dropWhile_append_of_pos decimal, List.dropWhile_cons_of_neg (by decide)]
      have hmark : mark.char.isDigit = false ∧ secondUnits.contains mark.char = false ∧
          (mark.char == '.' || mark.char == ',') = true := by
        cases mark <;> decide
      have hunit : secondUnits.contains 'S' = true := by decide
      rw [Seconds.chars, List.append_assoc, List.cons_append, takeSeconds,
        takeSigned_chars number hmark.1]
      simp only [hasDigit_chars, hmark, htake, hdrop, hunit, short, decide_true, Bool.and_self,
        Bool.not_true, Bool.false_eq_true, if_false, if_true]
      rfl

namespace Written

variable (d : Written)

/-- The components of a written duration, as they are found in its text. -/
def parts : Parts where
  negative := d.sign == .minus
  days := d.days.map (·.chars)
  hours := d.hours.map (·.chars)
  minutes := d.minutes.map (·.chars)
  seconds := d.seconds.map fun s => (s.number.chars, s.digits)

/-- No hours and no minutes are left where the seconds start. -/
theorem takeComponent_lastChars (hunits : units.contains 'S' = false)
    (hpoint : units.contains '.' = false) (hcomma : units.contains ',' = false) :
    takeComponent units ((d.seconds.map (·.chars)).getD []) =
      (none, (d.seconds.map (·.chars)).getD []) := by
  cases d.seconds with
  | none => rfl
  | some s => exact takeComponent_seconds s hunits hpoint hcomma

theorem takeSeconds_lastChars :
    takeSeconds ((d.seconds.map (·.chars)).getD []) = (d.parts.seconds, []) := by
  rw [parts]
  cases d.seconds with
  | none => rfl
  | some s => exact takeSeconds_chars s

/-- The hours are taken off the front of a clock time, then the minutes. -/
theorem takeComponent_clockChars :
    takeComponent ['H', 'h'] d.clockChars =
        (d.parts.hours, unitChars 'M' d.minutes ++ (d.seconds.map (·.chars)).getD []) ∧
      takeComponent ['M', 'm'] (unitChars 'M' d.minutes ++ (d.seconds.map (·.chars)).getD []) =
        (d.parts.minutes, (d.seconds.map (·.chars)).getD []) := by
  refine ⟨takeComponent_unit d.hours (by decide) (by decide) ?_, ?_⟩
  · exact takeComponent_unit_other d.minutes (by decide) (by decide)
      (d.takeComponent_lastChars (by decide) (by decide) (by decide))
  · exact takeComponent_unit d.minutes (by decide) (by decide)
      (d.takeComponent_lastChars (by decide) (by decide) (by decide))

/-- The text of a written duration is split into its components. -/
theorem of?_chars : Parts.of? d.chars = some d.parts := by
  have hsign : ∀ s : List Char,
      Number.takeSign (d.sign.chars ++ 'P' :: s) = (d.sign == .minus, 'P' :: s) := by
    intro s
    cases d.sign <;> rfl
  have hdays : takeComponent ['D', 'd'] (unitChars 'D' d.days ++ d.timeChars) =
      (d.parts.days, d.timeChars) := by
    refine takeComponent_unit d.days (by decide) (by decide) ?_
    -- The announced clock time is no component of days.
    rw [timeChars]
    split <;> rfl
  obtain ⟨hhours, hminutes⟩ := d.takeComponent_clockChars
  rw [chars, Parts.of?, hsign]
  simp only [beq_self_eq_true, Bool.true_or, if_true, hdays]
  by_cases htime : (d.hours.isSome || d.minutes.isSome || d.seconds.isSome) = true
  · rw [timeChars, if_pos htime]
    simp only [beq_self_eq_true, Bool.true_or, if_true, hhours, hminutes, d.takeSeconds_lastChars,
      List.isEmpty_nil]
    rfl
  · rw [timeChars, if_neg htime]
    simp only [Bool.or_eq_true, not_or, Option.not_isSome_iff_eq_none] at htime
    simp only [parts, htime, Option.map_none]

/-! ## The whole text -/

theorem getLast?_append_of_getLast? {α : Type} (s : List α) {t : List α} {u : α}
    (h : t.getLast? = some u) : (s ++ t).getLast? = some u := by
  rw [List.getLast?_append, h]
  rfl

/-- The last letter of a clock time is the unit of its last component. -/
theorem getLast?_clockChars
    (h : (d.hours.isSome || d.minutes.isSome || d.seconds.isSome) = true) :
    ∃ unit ∈ ['H', 'M', 'S'], d.clockChars.getLast? = some unit := by
  rw [clockChars]
  cases hseconds : d.seconds with
  | some s =>
      refine ⟨'S', by decide, ?_⟩
      exact getLast?_append_of_getLast? _ (getLast?_append_of_getLast? _ List.getLast?_concat)
  | none =>
      rw [Option.map_none, Option.getD_none, List.append_nil]
      cases hminutes : d.minutes with
      | some i => exact ⟨'M', by decide, getLast?_append_of_getLast? _ List.getLast?_concat⟩
      | none =>
          rw [hseconds, hminutes, Option.isSome_none, Bool.or_false,
            Option.isSome_none, Bool.or_false] at h
          obtain ⟨i, hhours⟩ := Option.isSome_iff_exists.mp h
          rw [hhours, unitChars, unitChars, List.append_nil]
          exact ⟨'H', by decide, List.getLast?_concat⟩

/-- The last letter of a written duration is the unit of its last component. -/
theorem getLast?_chars : ∃ unit ∈ ['D', 'H', 'M', 'S'], d.chars.getLast? = some unit := by
  have hbehind : ∀ {t : List Char} {u : Char}, t.getLast? = some u →
      (d.sign.chars ++ 'P' :: t).getLast? = some u := fun {t u} ht => by
    rw [List.append_cons]
    exact getLast?_append_of_getLast? _ ht
  by_cases htime : (d.hours.isSome || d.minutes.isSome || d.seconds.isSome) = true
  · obtain ⟨unit, hunit, hlast⟩ := d.getLast?_clockChars htime
    refine ⟨unit, List.mem_cons_of_mem 'D' hunit, hbehind (getLast?_append_of_getLast? _ ?_)⟩
    rw [timeChars, if_pos htime]
    exact getLast?_append_of_getLast? ['T'] hlast
  · -- Without a clock time there are days.
    have hdays : d.days.isSome = true := by
      have hpresent := d.present
      rw [Bool.or_assoc, Bool.or_assoc, ← Bool.or_assoc d.hours.isSome, Bool.or_eq_true] at hpresent
      exact hpresent.resolve_right htime
    obtain ⟨i, hi⟩ := Option.isSome_iff_exists.mp hdays
    refine ⟨'D', by decide, hbehind ?_⟩
    rw [timeChars, if_neg htime, List.append_nil, hi]
    exact List.getLast?_concat

/-- No blank is cut off a written duration. -/
theorem trim_chars : Text.trim d.chars = d.chars := by
  obtain ⟨unit, hunit, hlast⟩ := d.getLast?_chars
  have hdark : ∀ u ∈ ['D', 'H', 'M', 'S'], Text.isBlank u = false := by
    rw [List.forall_mem_cons, List.forall_mem_cons, List.forall_mem_cons, List.forall_mem_singleton]
    decide
  apply Text.trim_eq_self
  · intro c hc
    rw [chars] at hc
    cases hsign : d.sign <;> rw [hsign] at hc <;> cases hc <;> decide
  · intro c hc
    rw [← Option.some.inj (hlast.symm.trans hc)]
    exact hdark unit hunit

/-- The text of a written duration is read as the sum of its components. -/
theorem ofChars?_chars : ofChars? d.chars = d.parts.total? := by
  obtain ⟨unit, hunit, hlast⟩ := d.getLast?_chars
  have hletters : ∀ u ∈ ['D', 'H', 'M', 'S'],
      (some u == some 'T' || some u == some 't') = false := by
    rw [List.forall_mem_cons, List.forall_mem_cons, List.forall_mem_cons, List.forall_mem_singleton]
    decide
  have hpresent : (d.parts.days.isNone && d.parts.hours.isNone && d.parts.minutes.isNone &&
      d.parts.seconds.isNone) = false := by
    simp only [parts, Option.isSome_map, ← Option.not_isSome, ← Bool.not_or, d.present,
      Bool.not_true]
  rw [ofChars?, trim_chars, ofTrimmed?, of?_chars, hlast]
  show (if _ then none else if _ then none else d.parts.total?) = _
  rw [hpresent, hletters unit hunit]
  rfl

end Written

/-! ## Sums within the bounds -/

variable {n : Int} {a : Duration}

theorem ofNanos?_eq_some_iff : ofNanos? n = some a ↔ a.nanos = n := by
  rw [ofNanos?]
  constructor
  · intro h
    split at h
    · rw [← Option.some.inj h]
    · cases h
  · rintro rfl
    rw [dif_pos a.bounded]

/-- The length of a component, where its number has 64 bits and the length is within the bounds. -/
theorem componentOf?_eq_some_iff {scale : Nat} {o : Option Signed} :
    componentOf? scale (o.map (·.chars)) = some a ↔
      (∀ i ∈ o, Number.fitsSigned i.value = true) ∧ a.nanos = Written.unitNanos scale o := by
  cases o with
  | none =>
      have hzero : Written.unitNanos scale none = 0 := Int.zero_mul scale
      rw [Option.map_none, componentOf?, ofNanos?_eq_some_iff, hzero]
      exact ⟨fun h => ⟨nofun, h⟩, fun h => h.2⟩
  | some i =>
      rw [Option.map_some, componentOf?]
      constructor
      · intro h
        split at h
        · rename_i n hread
          obtain ⟨j, hchars, rfl, hfits⟩ := Number.readInt64_eq_ok_iff.mp hread
          have hvalue := Number.Signed.value_eq_of_chars_eq hchars
          refine ⟨fun k hk => ?_, ?_⟩
          · rw [← Option.some.inj hk, ← hvalue]
            exact hfits
          · rw [ofNanos?_eq_some_iff.mp h, hvalue]
            rfl
        · cases h
      · rintro ⟨hfits, hnanos⟩
        rw [Number.readInt64_eq_ok_iff.mpr ⟨i, rfl, rfl, hfits i rfl⟩]
        exact ofNanos?_eq_some_iff.mpr hnanos

/-- The fraction of written seconds has their sign. -/
theorem fractionOf_chars (s : Seconds) : fractionOf s.number.chars s.digits = s.fractionNanos := by
  obtain ⟨⟨sign, digits⟩, fraction⟩ := s
  rw [fractionOf]
  cases sign with
  | plus => rfl
  | minus => rfl
  | absent =>
      obtain ⟨c, others, hcons⟩ := List.exists_cons_of_ne_nil digits.ne_nil
      have hc := digits.decimal c (hcons ▸ List.mem_cons_self)
      rw [if_neg]
      · rfl
      · show ¬(([] ++ digits.chars).head? == some '-') = true
        rw [hcons]
        intro heq
        rw [Option.some.inj (eq_of_beq heq)] at hc
        exact absurd hc (by decide)

/-- Durations of the same nanoseconds are the same. -/
theorem nanos_injective {b : Duration} (h : a.nanos = b.nanos) : a = b := by
  obtain ⟨nanos, hbounded⟩ := a
  cases h
  rfl

/-- The sums of five numbers from the left. -/
theorem forall_inits_within_iff (a b c d e : Int) :
    (∀ front ∈ [a, b, c, d, e].inits, Within front.sum) ↔
      Within a ∧ Within (a + b) ∧ Within (a + b + c) ∧ Within (a + b + c + d) ∧
        Within (a + b + c + d + e) := by
  have hzero : Within 0 := by decide
  simp only [List.inits, List.map_cons, List.map_nil, List.forall_mem_cons, List.sum_cons,
    List.sum_nil, Int.add_zero, hzero, true_and, List.not_mem_nil, false_imp_iff, implies_true,
    and_true, Int.add_assoc]

namespace Written

variable (d : Written)

theorem forall_numbers_iff {P : Signed → Prop} :
    (∀ i ∈ d.numbers, P i) ↔ (∀ i ∈ d.days, P i) ∧ (∀ i ∈ d.hours, P i) ∧ (∀ i ∈ d.minutes, P i) ∧
      ∀ i ∈ d.seconds.map (·.number), P i := by
  simp only [numbers, List.mem_append, Option.mem_toList, Option.mem_def, or_imp, forall_and,
    and_assoc]

theorem forall_terms_iff {P : Int → Prop} :
    (∀ n ∈ d.terms, P n) ↔ P (unitNanos 86400000000000 d.days) ∧
      P (unitNanos 3600000000000 d.hours) ∧ P (unitNanos 60000000000 d.minutes) ∧
      P (unitNanos 1000000000 (d.seconds.map (·.number))) ∧
      P ((d.seconds.map (·.fractionNanos)).getD 0) := by
  simp only [terms, List.forall_mem_cons, List.not_mem_nil, false_imp_iff, implies_true, and_true]

/-- The sum behind the sign in front of the whole. -/
theorem nanos_signed (sum : Duration) :
    (if d.parts.negative = true then sum.neg else sum).nanos = d.sign.apply sum.nanos := by
  rw [parts]
  cases d.sign <;> rfl

/-- The components are added up where the whole fits, and the sum is exact. -/
theorem total?_eq_some_iff : d.parts.total? = some a ↔ d.Fits ∧ a.nanos = d.nanos := by
  have hdays : d.parts.days = d.days.map (·.chars) := rfl
  have hhours : d.parts.hours = d.hours.map (·.chars) := rfl
  have hminutes : d.parts.minutes = d.minutes.map (·.chars) := rfl
  have hseconds : d.parts.seconds.map (·.1) = (d.seconds.map (·.number)).map (·.chars) := by
    rw [parts]
    cases d.seconds <;> rfl
  have hfraction : ((d.parts.seconds.map fun s => fractionOf s.1 s.2).getD 0) =
      (d.seconds.map (·.fractionNanos)).getD 0 := by
    rw [parts]
    cases d.seconds with
    | none => rfl
    | some s => exact fractionOf_chars s
  have hsum : d.terms.sum = unitNanos 86400000000000 d.days + unitNanos 3600000000000 d.hours +
      unitNanos 60000000000 d.minutes + unitNanos 1000000000 (d.seconds.map (·.number)) +
      (d.seconds.map (·.fractionNanos)).getD 0 := by
    simp only [terms, List.sum_cons, List.sum_nil, Int.add_zero, Int.add_assoc]
  rw [Parts.total?, hdays, hhours, hminutes, hseconds, hfraction, Fits, forall_numbers_iff,
    forall_terms_iff, terms, forall_inits_within_iff]
  simp only [Option.bind_eq_bind, Option.bind_eq_some_iff, componentOf?_eq_some_iff,
    ofNanos?_eq_some_iff, add?, Option.some.injEq]
  constructor
  · rintro ⟨days, ⟨hdaysFit, hdays⟩, hours, ⟨hhoursFit, hhours⟩, minutes, ⟨hminutesFit, hminutes⟩,
      seconds, ⟨hsecondsFit, hseconds⟩, fraction, hfraction, first, hfirst, second, hsecond,
      third, hthird, whole, hwhole, rfl⟩
    -- A duration that was reached on the way is within the bounds.
    rw [hdays, hhours] at hfirst
    rw [hfirst, hminutes] at hsecond
    rw [hsecond, hseconds] at hthird
    rw [hthird, hfraction] at hwhole
    refine ⟨⟨⟨hdaysFit, hhoursFit, hminutesFit, hsecondsFit⟩,
      ⟨hdays ▸ days.bounded, hhours ▸ hours.bounded, hminutes ▸ minutes.bounded,
        hseconds ▸ seconds.bounded, hfraction ▸ fraction.bounded⟩,
      hdays ▸ days.bounded, hfirst ▸ first.bounded, hsecond ▸ second.bounded,
      hthird ▸ third.bounded, hwhole ▸ whole.bounded⟩, ?_⟩
    rw [nanos_signed, nanos, hsum, hwhole]
    rfl
  · rintro ⟨⟨⟨hdaysFit, hhoursFit, hminutesFit, hsecondsFit⟩,
      ⟨hdays, hhours, hminutes, hseconds, hfraction⟩, -, hfirst, hsecond, hthird, hwhole⟩, hnanos⟩
    refine ⟨⟨_, hdays⟩, ⟨hdaysFit, rfl⟩, ⟨_, hhours⟩, ⟨hhoursFit, rfl⟩, ⟨_, hminutes⟩,
      ⟨hminutesFit, rfl⟩, ⟨_, hseconds⟩, ⟨hsecondsFit, rfl⟩, ⟨_, hfraction⟩, rfl, ⟨_, hfirst⟩, rfl,
      ⟨_, hsecond⟩, rfl, ⟨_, hthird⟩, rfl, ⟨_, hwhole⟩, rfl, ?_⟩
    exact nanos_injective
      ((d.nanos_signed _).trans ((congrArg d.sign.apply hsum.symm).trans hnanos.symm))

/-- **Written durations are read exactly**: a text of components is read where each number has 64
bits and no component and no sum from the left is out of bounds, and then as the exact sum; the sign
in front of the whole is applied last. -/
theorem reads_exactly :
    (ofChars? d.chars).map (·.nanos) = if d.Fits then some d.nanos else none := by
  rw [ofChars?_chars]
  by_cases hfits : d.Fits
  · -- The whole is the last of the sums from the left, so some duration has it.
    have hwhole : Within d.nanos := by
      have hlast := hfits.2.2 d.terms ((List.mem_inits _ _).mpr (List.prefix_refl _))
      rw [nanos, Within]
      cases d.sign with
      | absent => exact hlast
      | plus => exact hlast
      | minus => exact (Int.natAbs_neg _).symm ▸ hlast
    rw [if_pos hfits, d.total?_eq_some_iff.mpr ⟨hfits, (rfl : Duration.nanos ⟨_, hwhole⟩ = _)⟩]
    rfl
  · rw [if_neg hfits]
    cases htotal : d.parts.total? with
    | none => rfl
    | some a => exact absurd (d.total?_eq_some_iff.mp htotal).1 hfits

end Written

/-- Signs on the components and one in front of them; the fraction has the sign of its seconds. -/
example : ofChars? "-P1DT-2H+3M-0,5S".toList = ofNanos? (-79379500000000) := by decide

end ScriptTree.Time.Duration
