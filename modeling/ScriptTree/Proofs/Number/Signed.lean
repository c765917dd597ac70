import ScriptTree.Proofs.Load.Leaves

/-!
# Integers as they are written

An integer is written as digits, at least one, behind an optional sign (`Signed`). Reading within a
range gives a written integer where its value is in the range, and takes no other text
(`readInteger_eq_ok_iff`): digits are read from the left, and the magnitude read so far only grows,
so no digit on the way leaves the range unless the whole does.
-/

set_option autoImplicit false

namespace ScriptTree.Number

/-! ## The written form -/

/-- Decimal digits, at least one. -/
structure Digits where
  chars : List Char
  ne_nil : chars ≠ []
  decimal : ∀ c ∈ chars, c.isDigit = true

/-- The number that digits denote. -/
def Digits.value (d : Digits) : Nat := Nat.ofDigitChars 10 d.chars 0

/-- The digits of a number. -/
def Digits.ofNat (n : Nat) : Digits :=
  ⟨Nat.toDigits 10 n, Nat.toDigits_ne_nil,
    fun _ => Nat.isDigit_of_mem_toDigits (by decide) (by decide)⟩

@[simp] theorem Digits.value_ofNat (n : Nat) : (Digits.ofNat n).value = n :=
  Nat.ofDigitChars_ten_toDigits

/-- The sign in front of a number, if there is one. -/
inductive Sign where
  | absent
  | plus
  | minus
  deriving DecidableEq, Repr

namespace Sign

/-- The characters of a sign. -/
def chars : Sign → List Char
  | absent => []
  | plus => ['+']
  | minus => ['-']

/-- A number behind a sign. -/
def apply : Sign → Int → Int
  | absent, n => n
  | plus, n => n
  | minus, n => -n

/-- The sign that an integer is written with: a minus or none. -/
def ofInt (i : Int) : Sign := if i < 0 then minus else absent

/-- An integer is its magnitude behind its sign. -/
theorem apply_ofInt (i : Int) : (ofInt i).apply i.natAbs = i := by
  rw [ofInt]
  split
  · show -(i.natAbs : Int) = i
    omega
  · show (i.natAbs : Int) = i
    omega

theorem apply_zero (sign : Sign) : sign.apply 0 = 0 := by
  cases sign <;> rfl

theorem natAbs_apply (sign : Sign) (n : Nat) : (sign.apply n).natAbs = n := by
  cases sign <;> simp only [apply, Int.natAbs_neg, Int.natAbs_natCast]

theorem apply_mul (sign : Sign) (m n : Int) : sign.apply (m * n) = sign.apply m * n := by
  cases sign <;> simp only [apply, Int.neg_mul]

end Sign

/-- An optional sign and digits. -/
structure Signed where
  sign : Sign
  digits : Digits

namespace Signed

/-- A signed number as it is written. -/
def chars (i : Signed) : List Char := i.sign.chars ++ i.digits.chars

/-- The integer that a signed number denotes. -/
def value (i : Signed) : Int := i.sign.apply i.digits.value

end Signed

/-! ## Reading digits -/

variable {low high n : Int} {s : List Char}

/-- Digits read upwards: the number read so far never shrinks. -/
theorem readDigits_up_eq_ok_iff (hlow : low ≤ 0) {v : Nat} (hv : (v : Int) ≤ high) :
    readDigits low high false v s = .ok n ↔
      (∀ c ∈ s, c.isDigit = true) ∧ n = digitsFrom v s ∧ n ≤ high := by
  refine ⟨fun h => ?_, fun ⟨hs, hn, hhigh⟩ => hn ▸ readDigits_up low high hlow hs (hn ▸ hhigh)⟩
  induction s generalizing v with
  | nil =>
      injection h with hn
      exact ⟨fun _ hmem => absurd hmem List.not_mem_nil, hn.symm, hn ▸ hv⟩
  | cons c rest ih =>
      by_cases hc : c.isDigit = true
      · rw [readDigits, digit?, if_pos hc] at h
        simp only [Bool.false_eq_true, if_false] at h
        have hvalue : (10 * (v : Int) + ((c.toNat - '0'.toNat : Nat) : Int)) =
            ((10 * v + (c.toNat - '0'.toNat) : Nat) : Int) := by omega
        rw [hvalue] at h
        split at h
        · cases h
        · split at h
          · cases h
          · rename_i _ hnext
            obtain ⟨hrest, hn, hhigh⟩ := ih (Int.not_lt.mp hnext) h
            exact ⟨List.forall_mem_cons.mpr ⟨hc, hrest⟩, hn, hhigh⟩
      · rw [readDigits, digit?, if_neg hc] at h
        cases h

/-- Digits read downwards: the number read so far never grows. -/
theorem readDigits_down_eq_ok_iff (hhigh : 0 ≤ high) {v : Nat} (hv : low ≤ -(v : Int)) :
    readDigits low high true (-v) s = .ok n ↔
      (∀ c ∈ s, c.isDigit = true) ∧ n = -(digitsFrom v s) ∧ low ≤ n := by
  refine ⟨fun h => ?_, fun ⟨hs, hn, hlow⟩ => hn ▸ readDigits_down low high hhigh hs (hn ▸ hlow)⟩
  induction s generalizing v with
  | nil =>
      injection h with hn
      exact ⟨fun _ hmem => absurd hmem List.not_mem_nil, hn.symm, hn ▸ hv⟩
  | cons c rest ih =>
      by_cases hc : c.isDigit = true
      · rw [readDigits, digit?, if_pos hc] at h
        simp only [if_true] at h
        have hvalue : (10 * -(v : Int) - ((c.toNat - '0'.toNat : Nat) : Int)) =
            -((10 * v + (c.toNat - '0'.toNat) : Nat) : Int) := by omega
        rw [hvalue] at h
        split at h
        · cases h
        · rename_i hnext
          split at h
          · cases h
          · obtain ⟨hrest, hn, hlow⟩ := ih (Int.not_lt.mp hnext) h
            exact ⟨List.forall_mem_cons.mpr ⟨hc, hrest⟩, hn, hlow⟩
      · rw [readDigits, digit?, if_neg hc] at h
        cases h

/-! ## Reading integers -/

/-- A text that starts with a digit does not start with a sign. -/
theorem Digits.chars_ne_cons {sign : Char} (d : Digits) (hsign : sign.isDigit = false)
    (rest : List Char) : d.chars ≠ sign :: rest := by
  intro heq
  have hdigit := d.decimal sign (heq ▸ List.mem_cons_self)
  rw [hsign] at hdigit
  cases hdigit

/-- Digits behind what is taken for a sign. -/
theorem readInteger_cases (hlow : low ≤ 0) (hhigh : 0 ≤ high) (h : readInteger low high s = .ok n) :
    ∃ i : Signed, i.chars = s ∧ i.value = n ∧ low ≤ n ∧ n ≤ high ∧
      (i.sign = .minus → low < 0) := by
  rw [readInteger.eq_def] at h
  split at h
  · cases h
  · obtain ⟨hdigits, hn, hle⟩ := (readDigits_up_eq_ok_iff hlow (v := 0) hhigh).mp h
    exact ⟨⟨.plus, _, List.cons_ne_nil _ _, hdigits⟩, rfl, hn.symm, by omega, hle, nofun⟩
  · split at h
    · rename_i hneg
      obtain ⟨hdigits, hn, hge⟩ := (readDigits_down_eq_ok_iff hhigh (v := 0) hlow).mp h
      exact ⟨⟨.minus, _, List.cons_ne_nil _ _, hdigits⟩, rfl, hn.symm, hge, by omega,
        fun _ => hneg⟩
    · cases h
  · rename_i hnil _ _
    obtain ⟨hdigits, hn, hle⟩ := (readDigits_up_eq_ok_iff hlow (v := 0) hhigh).mp h
    exact ⟨⟨.absent, s, hnil, hdigits⟩, rfl, hn.symm, by omega, hle, nofun⟩

/-- A written integer whose value is in the range is read as that value, a negative range given
where there is a minus. -/
theorem readInteger_chars (hlow : low ≤ 0) (hhigh : 0 ≤ high) (i : Signed)
    (hge : low ≤ i.value) (hle : i.value ≤ high) (hminus : i.sign = .minus → low < 0) :
    readInteger low high i.chars = .ok i.value := by
  obtain ⟨sign, digits⟩ := i
  obtain ⟨c, rest, hcons⟩ := List.exists_cons_of_ne_nil digits.ne_nil
  cases sign with
  | absent =>
      have hread := (readDigits_up_eq_ok_iff hlow (v := 0) hhigh).mpr ⟨digits.decimal, rfl, hle⟩
      show readInteger low high digits.chars = _
      rw [readInteger]
      · exact hread
      · exact digits.ne_nil
      · exact fun _ _ => digits.chars_ne_cons (by decide) _
      · exact fun _ _ => digits.chars_ne_cons (by decide) _
  | plus =>
      have hread : readDigits low high false 0 digits.chars = .ok (Signed.value ⟨.plus, digits⟩) :=
        (readDigits_up_eq_ok_iff hlow (v := 0) hhigh).mpr ⟨digits.decimal, rfl, hle⟩
      show readInteger low high ('+' :: digits.chars) = _
      rw [hcons] at hread ⊢
      exact hread
  | minus =>
      have hread : readDigits low high true 0 digits.chars = .ok (Signed.value ⟨.minus, digits⟩) :=
        (readDigits_down_eq_ok_iff hhigh (v := 0) hlow).mpr ⟨digits.decimal, rfl, hge⟩
      show readInteger low high ('-' :: digits.chars) = _
      rw [hcons] at hread ⊢
      rw [readInteger, if_pos (hminus rfl)]
      exact hread

/-- What is read within a range is a written integer in it, and a minus is only taken where the
range has negative values. -/
theorem readInteger_eq_ok_iff (hlow : low ≤ 0) (hhigh : 0 ≤ high) :
    readInteger low high s = .ok n ↔
      ∃ i : Signed, i.chars = s ∧ i.value = n ∧ low ≤ n ∧ n ≤ high ∧
        (i.sign = .minus → low < 0) := by
  refine ⟨readInteger_cases hlow hhigh, ?_⟩
  rintro ⟨i, rfl, rfl, hge, hle, hminus⟩
  exact readInteger_chars hlow hhigh i hge hle hminus

/-- Characters denote one integer at most. -/
theorem Signed.value_eq_of_chars_eq {i j : Signed} (h : i.chars = j.chars) : i.value = j.value := by
  -- A range that has both values is read in one way.
  obtain ⟨bound, hi, hj⟩ : ∃ bound : Nat, i.value.natAbs ≤ bound ∧ j.value.natAbs ≤ bound :=
    ⟨_, Nat.le_max_left _ _, Nat.le_max_right _ _⟩
  have hlow : -((bound + 1 : Nat) : Int) ≤ 0 := by omega
  have hhigh : (0 : Int) ≤ bound := by omega
  have hleft := readInteger_chars hlow hhigh i (by omega) (by omega) fun _ => by omega
  have hright := readInteger_chars hlow hhigh j (by omega) (by omega) fun _ => by omega
  rw [h] at hleft
  exact Except.ok.inj (hleft.symm.trans hright)

theorem readInt64_eq_ok_iff :
    readInt64 s = .ok n ↔ ∃ i : Signed, i.chars = s ∧ i.value = n ∧ fitsSigned n = true := by
  rw [readInt64, readInteger_eq_ok_iff (by decide) (by decide)]
  refine exists_congr fun i => and_congr_right fun _ => and_congr_right fun _ => ?_
  rw [fitsSigned, decide_eq_true_eq]
  constructor
  · rintro ⟨hge, hle, -⟩
    exact ⟨hge, by omega⟩
  · rintro ⟨hge, hlt⟩
    exact ⟨hge, by omega, fun _ => by decide⟩

end ScriptTree.Number
