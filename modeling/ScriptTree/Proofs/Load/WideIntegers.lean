import ScriptTree.Proofs.Number.Signed

/-!
# Integers of 64 bits in a document

Entries for great numbers take the integers of both 64-bit ranges, whatever the number of zeros in
front of them, and hold them exactly; every other text is reported as an invalid entry
(`EntryKind.read_wide`). One plus is skipped before the two ranges are tried, and both take a sign
again, so a text that is signed twice is read as what stands behind the plus
(`Number.readWide?_eq_some_iff`). The entries of a single range have no such second sign.
-/

set_option autoImplicit false

namespace ScriptTree

namespace Number

variable {s : List Char} {m : Number}

/-- An integer in either of the two ranges. -/
def readEither? (s : List Char) : Option Number :=
  match readInt64 s with
  | .ok n => ofInt? n
  | .error _ =>
      match readUnsigned64 s with
      | .ok n => ofInt? n
      | .error _ => none

theorem readUnsigned64_eq_ok_iff {n : Int} :
    readUnsigned64 s = .ok n ↔
      ∃ i : Signed, i.chars = s ∧ i.value = n ∧ 0 ≤ n ∧ n ≤ 0xFFFFFFFFFFFFFFFF ∧
        i.sign ≠ .minus := by
  rw [readUnsigned64, readInteger_eq_ok_iff (by decide) (by decide)]
  simp only [Int.lt_irrefl, imp_false, ne_eq]

/-- The two ranges together have the integers that a number can hold. -/
theorem readEither?_eq_some_iff :
    readEither? s = some m ↔ ∃ i : Signed, i.chars = s ∧ ofInt? i.value = some m := by
  rw [readEither?]
  constructor
  · intro h
    split at h
    · rename_i n hread
      obtain ⟨i, hchars, hvalue, -⟩ := readInt64_eq_ok_iff.mp hread
      exact ⟨i, hchars, hvalue ▸ h⟩
    · split at h
      · rename_i n hread
        obtain ⟨i, hchars, hvalue, -⟩ := readUnsigned64_eq_ok_iff.mp hread
        exact ⟨i, hchars, hvalue ▸ h⟩
      · cases h
  · rintro ⟨i, rfl, hm⟩
    obtain ⟨hge, hlt⟩ : -0x8000000000000000 ≤ i.value ∧ i.value < 0x10000000000000000 := by
      by_contra hout
      rw [ofInt?, dif_neg hout] at hm
      cases hm
    split
    · rename_i n hread
      obtain ⟨j, hchars, hvalue, -⟩ := readInt64_eq_ok_iff.mp hread
      rw [← hvalue, Signed.value_eq_of_chars_eq hchars, hm]
    · rename_i fault hread
      -- What is no signed integer is past that range, and so has no minus.
      have hpast : ¬fitsSigned i.value = true := fun hfits => by
        rw [readInt64_eq_ok_iff.mpr ⟨i, rfl, rfl, hfits⟩] at hread
        cases hread
      rw [fitsSigned, decide_eq_true_eq] at hpast
      have hplus : i.sign ≠ .minus := fun hminus => by
        have hvalue : i.value = -(i.digits.value : Int) := by
          rw [Signed.value, hminus]
          rfl
        omega
      rw [readUnsigned64_eq_ok_iff.mpr ⟨i, rfl, rfl, by omega, by omega, hplus⟩]
      exact hm

/-- The text is a plus in front of an integer of 64 bits that is signed itself. -/
def SignedTwice (s : List Char) : Prop :=
  ∃ i : Signed, i.sign ≠ .absent ∧ s = '+' :: i.chars ∧ (ofInt? i.value).isSome = true

/-- What is read as a wide integer: a number with one sign at most, or the number that stands
behind the first of two signs. -/
theorem readWide?_eq_some_iff :
    readWide? s = some m ↔ ∃ i : Signed, ofInt? i.value = some m ∧
      (i.chars = s ∨ i.sign ≠ .absent ∧ '+' :: i.chars = s) := by
  by_cases hplus : ∃ rest, s = '+' :: rest
  · obtain ⟨rest, rfl⟩ := hplus
    show readEither? rest = some m ↔ _
    rw [readEither?_eq_some_iff]
    constructor
    · rintro ⟨⟨sign, digits⟩, hchars, hm⟩
      cases sign with
      | absent => exact ⟨⟨.plus, digits⟩, hm, .inl (congrArg ('+' :: ·) hchars)⟩
      | plus => exact ⟨⟨.plus, digits⟩, hm, .inr ⟨nofun, congrArg ('+' :: ·) hchars⟩⟩
      | minus => exact ⟨⟨.minus, digits⟩, hm, .inr ⟨nofun, congrArg ('+' :: ·) hchars⟩⟩
    · rintro ⟨⟨sign, digits⟩, hm, hchars | ⟨-, hchars⟩⟩
      · cases sign with
        | absent => exact absurd hchars (digits.chars_ne_cons (by decide) rest)
        | plus => exact ⟨⟨.absent, digits⟩, (List.cons.inj hchars).2, hm⟩
        | minus => exact absurd (List.cons.inj hchars).1 (by decide)
      · exact ⟨⟨sign, digits⟩, (List.cons.inj hchars).2, hm⟩
  · have hplain : readWide? s = readEither? s := by
      rw [readWide?]
      · rfl
      · exact fun rest heq => hplus ⟨rest, heq⟩
    rw [hplain, readEither?_eq_some_iff]
    refine exists_congr fun i => ⟨fun ⟨hchars, hm⟩ => ⟨hm, .inl hchars⟩, ?_⟩
    rintro ⟨hm, hchars | ⟨-, hchars⟩⟩
    · exact ⟨hchars, hm⟩
    · exact absurd ⟨_, hchars.symm⟩ hplus

/-- Where no text is signed twice, exactly the written integers of 64 bits are read. -/
theorem readWide?_of_not_signedTwice (hs : ¬SignedTwice s) :
    readWide? s = some m ↔ ∃ i : Signed, i.chars = s ∧ ofInt? i.value = some m := by
  rw [readWide?_eq_some_iff]
  refine exists_congr fun i => ⟨?_, fun ⟨hchars, hm⟩ => ⟨hm, .inl hchars⟩⟩
  rintro ⟨hm, hchars | ⟨hsign, hchars⟩⟩
  · exact ⟨hchars, hm⟩
  · exact absurd ⟨i, hsign, hchars.symm, Option.isSome_of_eq_some hm⟩ hs

end Number

namespace EntryKind

open Number (Signed SignedTwice)

/-- The entry holds a wide integer: it is of the kind for great integers, or of the kind for great
decimals and has no mark of a fraction or an exponent. -/
def HoldsWide (kind : EntryKind) (s : List Char) : Prop :=
  kind = .bigInteger ∨ kind = .bigDecimal ∧ hasFractionMark s = false

/-- What is wrong with a text that is no wide integer. -/
def notWide : EntryKind → Detail
  | .bigDecimal => .own "integer wider than 64 bits"
  | _ => .own "not an integer within 64 bits"

variable {kind : EntryKind} {text : String} {s : List Char}

/-- The kinds that hold wide integers are read as values of their own. -/
theorem HoldsWide.ne_expression (h : kind.HoldsWide s) : kind ≠ .expression ∧ kind ≠ .json := by
  obtain rfl | ⟨rfl, -⟩ := h <;> decide

theorem HoldsWide.scalar_eq (h : kind.HoldsWide s) :
    kind.scalar s =
      match Number.readWide? s with
      | some m => .ok (.number m)
      | none => .error kind.notWide := by
  obtain rfl | ⟨rfl, hmark⟩ := h
  · rfl
  · rw [scalar, hmark]
    rfl

/-- A text that a kind does not take is an invalid entry. -/
theorem read_of_scalar_error (hexpression : kind ≠ .expression) (hjson : kind ≠ .json)
    {detail : Detail} (h : kind.scalar (Text.trimmed text).toList = .error detail)
    (lang : Language) (n : NodeId) (w : World) :
    kind.read lang n text w =
      (.failed (.invalidEntry kind.tag (Text.trimmed text) detail), w) := by
  rw [read]
  · rw [h]
    rfl
  · exact hexpression
  · exact hjson

/-- **Wide integers are taken exactly**: a text that is not signed twice is accepted where it is a
written integer of one of the two 64-bit ranges, and is that integer; every other text is an
invalid entry. -/
theorem read_wide (lang : Language) (n : NodeId) (w : World)
    (hkind : kind.HoldsWide (Text.trimmed text).toList)
    (honce : ¬SignedTwice (Text.trimmed text).toList) :
    (∀ i : Signed, i.chars = (Text.trimmed text).toList →
      ∀ fits : -0x8000000000000000 ≤ i.value ∧ i.value < 0x10000000000000000,
        kind.read lang n text w = (.done (.number (.integer i.value fits)), w)) ∧
    ((∀ i : Signed, i.chars = (Text.trimmed text).toList →
      ¬(-0x8000000000000000 ≤ i.value ∧ i.value < 0x10000000000000000)) →
        kind.read lang n text w =
          (.failed (.invalidEntry kind.tag (Text.trimmed text) kind.notWide), w)) := by
  obtain ⟨hexpression, hjson⟩ := hkind.ne_expression
  refine ⟨fun i hchars fits => ?_, fun hnone => ?_⟩
  · have hread := (Number.readWide?_of_not_signedTwice honce).mpr
      ⟨i, hchars, (dif_pos fits : Number.ofInt? i.value = _)⟩
    exact read_of_scalar hexpression hjson (by rw [hkind.scalar_eq, hread]) lang n w
  · have hread : Number.readWide? (Text.trimmed text).toList = none := by
      cases hwide : Number.readWide? (Text.trimmed text).toList with
      | none => rfl
      | some m =>
          obtain ⟨i, hchars, hm⟩ := (Number.readWide?_of_not_signedTwice honce).mp hwide
          rw [Number.ofInt?, dif_neg (hnone i hchars)] at hm
          cases hm
    exact read_of_scalar_error hexpression hjson (by rw [hkind.scalar_eq, hread]) lang n w

/-- The greatest integer behind zeros and among blanks. -/
theorem read_wide_greatest :
    HoldsWide .bigDecimal (Text.trimmed " 0018446744073709551615\n").toList ∧
      ¬SignedTwice (Text.trimmed " 0018446744073709551615\n").toList ∧
      EntryKind.read (.ofFuel 0) .bigDecimal ⟨0⟩ " 0018446744073709551615\n"
          (World.initial ⟨false, false, 0⟩ .empty) =
        (.done (.number (.integer 18446744073709551615 (by decide))),
          World.initial ⟨false, false, 0⟩ .empty) := by
  have htrimmed : Text.trimmed " 0018446744073709551615\n" = "0018446744073709551615" := by decide
  have hkind : HoldsWide .bigDecimal (Text.trimmed " 0018446744073709551615\n").toList := by
    rw [htrimmed]
    exact .inr ⟨rfl, by decide⟩
  have honce : ¬SignedTwice (Text.trimmed " 0018446744073709551615\n").toList := by
    rw [htrimmed]
    rintro ⟨i, -, hchars, -⟩
    exact absurd (List.cons.inj hchars).1 (by decide)
  refine ⟨hkind, honce, ?_⟩
  exact (read_wide (.ofFuel 0) ⟨0⟩ (World.initial ⟨false, false, 0⟩ .empty) hkind honce).1
    ⟨.absent, "0018446744073709551615".toList, by decide, List.all_eq_true.mp rfl⟩
    (congrArg String.toList htrimmed).symm (by decide)

/-- A text that is signed twice is no written integer, and no integer of a single range, but it is
read as the number behind its first sign. -/
theorem read_signedTwice :
    (¬∃ i : Signed, i.chars = "+-5".toList) ∧
      EntryKind.read (.ofFuel 0) .bigInteger ⟨0⟩ "+-5" (World.initial ⟨false, false, 0⟩ .empty) =
        (.done (.number (.integer (-5) (by decide))), World.initial ⟨false, false, 0⟩ .empty) ∧
      EntryKind.read (.ofFuel 0) .long ⟨0⟩ "+-5" (World.initial ⟨false, false, 0⟩ .empty) =
        (.failed (.invalidEntry "long" "+-5" (.own "invalid digit found in string")),
          World.initial ⟨false, false, 0⟩ .empty) := by
  refine ⟨?_, rfl, rfl⟩
  rintro ⟨⟨sign, digits⟩, hchars⟩
  cases sign with
  | absent => exact digits.chars_ne_cons (by decide) _ hchars
  | plus => exact digits.chars_ne_cons (by decide) _ (List.cons.inj hchars).2
  | minus => exact absurd (List.cons.inj hchars).1 (by decide)

end EntryKind

end ScriptTree
