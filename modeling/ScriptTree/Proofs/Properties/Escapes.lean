import Mathlib.Algebra.Ring.Nat
import Mathlib.Data.List.Forall2
import ScriptTree.Proofs.Properties.Writing

/-!
# Code escapes

The letter `u` behind a backslash and four hexadecimal digits are a UTF-16 code unit. A key or a
value as written is a list of parts, plain characters and code escapes, and what the reader makes of
it is what it makes of these (`resolve_parts`). It stands for the characters whose code units it has
(`Decodes`), and there are such characters exactly when each escape has its digits and the halves of
each pair stand together (`exists_decodes_iff`).

The reader agrees on the texts whose escapes are regular (`ofLines_decodes`). It takes more than
there is: a plus sign for the first digit, and any unit behind a first half for the second half
(`ofLines_misread`).
-/

set_option autoImplicit false

namespace ScriptTree.Properties

open Json.Lenient (hexDigit? hexValue?)

/-! ## Code units -/

/-- The unit is the second half of a surrogate pair. -/
def isLow (unit : Nat) : Bool := 0xDC00 ≤ unit && unit < 0xE000

theorem isHigh_iff {unit : Nat} : isHigh unit = true ↔ 0xD800 ≤ unit ∧ unit < 0xDC00 := by
  rw [isHigh, Bool.and_eq_true, decide_eq_true_eq, decide_eq_true_eq]

theorem isHigh_eq_false_iff {unit : Nat} :
    isHigh unit = false ↔ unit < 0xD800 ∨ 0xDC00 ≤ unit := by
  rw [Bool.eq_false_iff, Ne, isHigh_iff]
  omega

theorem isLow_iff {unit : Nat} : isLow unit = true ↔ 0xDC00 ≤ unit ∧ unit < 0xE000 := by
  rw [isLow, Bool.and_eq_true, decide_eq_true_eq, decide_eq_true_eq]

theorem isLow_eq_false_iff {unit : Nat} :
    isLow unit = false ↔ unit < 0xDC00 ∨ 0xE000 ≤ unit := by
  rw [Bool.eq_false_iff, Ne, isLow_iff]
  omega

theorem isLow_of_isHigh {unit : Nat} (h : isHigh unit = true) : isLow unit = false := by
  rw [isHigh_iff] at h
  rw [isLow_eq_false_iff]
  omega

theorem isLow_of_isValidChar {unit : Nat} (h : unit.isValidChar) : isLow unit = false := by
  rw [Nat.isValidChar] at h
  rw [isLow_eq_false_iff]
  omega

/-- A unit that is no half of a pair is a code. -/
theorem isValidChar_of_single {unit : Nat} (hlt : unit < 0x10000) (hhigh : isHigh unit = false)
    (hlow : isLow unit = false) : unit.isValidChar := by
  rw [isHigh_eq_false_iff] at hhigh
  rw [isLow_eq_false_iff] at hlow
  rw [Nat.isValidChar]
  omega

/-- The UTF-16 code units of a character. -/
def charUnits (c : Char) : List Nat :=
  if c.toNat < 0x10000 then [c.toNat]
  else [0xD800 + (c.toNat - 0x10000) / 0x400, 0xDC00 + (c.toNat - 0x10000) % 0x400]

/-- The UTF-16 code units of a text. -/
def utf16 (s : List Char) : List Nat := s.flatMap charUnits

theorem toNat_ofNat {code : Nat} (h : code.isValidChar) : (Char.ofNat code).toNat = code := by
  rw [Char.ofNat, dif_pos h]
  rfl

/-- The units of a character: one that is no half of a pair, or a pair. -/
theorem charUnits_cases (c : Char) :
    (charUnits c = [c.toNat] ∧ isHigh c.toNat = false ∧ isLow c.toNat = false) ∨
      ∃ high low, charUnits c = [high, low] ∧ isHigh high = true ∧ isLow low = true := by
  have hvalid : c.toNat < 0xD800 ∨ 0xDFFF < c.toNat ∧ c.toNat < 0x110000 := c.valid
  by_cases hsmall : c.toNat < 0x10000
  · refine .inl ⟨if_pos hsmall, ?_, ?_⟩
    · rw [isHigh_eq_false_iff]
      omega
    · rw [isLow_eq_false_iff]
      omega
  · refine .inr ⟨_, _, if_neg hsmall, ?_, ?_⟩
    · rw [isHigh_iff]
      omega
    · rw [isLow_iff]
      omega

theorem charUnits_ofNat {unit : Nat} (hvalid : unit.isValidChar) (h : unit < 0x10000) :
    charUnits (Char.ofNat unit) = [unit] := by
  rw [charUnits, toNat_ofNat hvalid, if_pos h]

/-- A pair is the code of a character, and its units are those of the pair. -/
theorem charUnits_pairCode {high low : Nat} (hhigh : isHigh high = true) (hlow : isLow low = true) :
    (pairCode high low).isValidChar ∧
      charUnits (Char.ofNat (pairCode high low)) = [high, low] := by
  rw [isHigh_iff] at hhigh
  rw [isLow_iff] at hlow
  have hvalid : (pairCode high low).isValidChar := by
    simp only [pairCode, Nat.isValidChar]
    omega
  refine ⟨hvalid, ?_⟩
  have hfirst : 0xD800 + (pairCode high low - 0x10000) / 0x400 = high := by
    rw [pairCode]
    omega
  have hsecond : 0xDC00 + (pairCode high low - 0x10000) % 0x400 = low := by
    rw [pairCode]
    omega
  rw [charUnits, toNat_ofNat hvalid, if_neg (by rw [pairCode]; omega), hfirst, hsecond]

theorem utf16_cons (c : Char) (s : List Char) : utf16 (c :: s) = charUnits c ++ utf16 s :=
  List.flatMap_cons

/-- The units tell the character that they start with, and so does the rest of them. -/
theorem charUnits_append_inj {c d : Char} {us vs : List Nat}
    (h : charUnits c ++ us = charUnits d ++ vs) : c = d ∧ us = vs := by
  have hc : c.toNat < 0xD800 ∨ 0xDFFF < c.toNat ∧ c.toNat < 0x110000 := c.valid
  have hd : d.toNat < 0xD800 ∨ 0xDFFF < d.toNat ∧ d.toNat < 0x110000 := d.valid
  suffices hcode : c.toNat = d.toNat ∧ us = vs from ⟨Char.toNat_inj.mp hcode.1, hcode.2⟩
  -- A character in one unit and one in two never start alike: no half of a pair is a code.
  by_cases hcsmall : c.toNat < 0x10000 <;> by_cases hdsmall : d.toNat < 0x10000 <;>
    simp only [charUnits, hcsmall, hdsmall, if_true, if_false, List.cons_append, List.nil_append,
      List.cons.injEq] at h
  · exact h
  · omega
  · omega
  · exact ⟨by omega, h.2.2⟩

theorem charUnits_ne_nil (c : Char) : charUnits c ≠ [] := by
  rcases charUnits_cases c with ⟨heq, -, -⟩ | ⟨high, low, heq, -, -⟩
  · rw [heq]
    exact List.cons_ne_nil _ _
  · rw [heq]
    exact List.cons_ne_nil _ _

theorem utf16_injective {s t : List Char} (h : utf16 s = utf16 t) : s = t := by
  induction s generalizing t with
  | nil =>
      cases t with
      | nil => rfl
      | cons d t => exact absurd (List.append_eq_nil_iff.mp h.symm).1 (charUnits_ne_nil d)
  | cons c s ih =>
      cases t with
      | nil => exact absurd (List.append_eq_nil_iff.mp h).1 (charUnits_ne_nil c)
      | cons d t =>
          obtain ⟨rfl, hrest⟩ := charUnits_append_inj h
          rw [ih hrest]

/-! ## The four digits -/

/-- The code unit of four hexadecimal digits. -/
def hexUnit? (digits : List Char) : Option Nat :=
  if digits.length = 4 then hexValue? digits else none

theorem hexDigit?_bounds {c : Char} {n : Nat} (h : hexDigit? c = some n) :
    c.utf8Size = 1 ∧ n < 16 := by
  have hrange : c.toNat ≤ 127 ∧ n < 16 := by
    simp only [hexDigit?, Char.isDigit_iff_toNat, Bool.and_eq_true, decide_eq_true_eq, Char.le_def,
      UInt32.le_iff_toNat_le] at h
    split at h
    · rename_i hdigit
      simp at hdigit h
      omega
    · split at h
      · rename_i hlower
        simp at hlower h
        omega
      · split at h
        · rename_i hupper
          simp at hupper h
          omega
        · cases h
  exact ⟨Char.utf8Size_eq_one_iff.mpr hrange.1, hrange.2⟩

/-- Hexadecimal digits are one byte each and four bits. -/
theorem hexValue?_bounds {digits : List Char} {value : Nat} (h : hexValue? digits = some value) :
    (String.ofList digits).utf8ByteSize = digits.length ∧ value < 16 ^ digits.length := by
  suffices hfold : ∀ (digits : List Char) (start : Nat),
      digits.foldlM (fun n c => (hexDigit? c).map (16 * n + ·)) start = some value →
        (String.ofList digits).utf8ByteSize = digits.length ∧
          value < (start + 1) * 16 ^ digits.length by
    have hbounds := hfold digits 0 h
    rwa [Nat.zero_add, Nat.one_mul] at hbounds
  -- The digits that are read already are in the start value, so it has to be general.
  intro digits
  induction digits with
  | nil =>
      intro start h
      obtain rfl : start = value := Option.some.inj h
      exact ⟨rfl, by simp⟩
  | cons c digits ih =>
      intro start h
      rw [List.foldlM_cons] at h
      obtain ⟨next, hnext, hrest⟩ := Option.bind_eq_some_iff.mp h
      obtain ⟨digit, hdigit, rfl⟩ := Option.map_eq_some_iff.mp hnext
      obtain ⟨hsize, hsmall⟩ := hexDigit?_bounds hdigit
      obtain ⟨hbytes, hvalue⟩ := ih _ hrest
      rw [String.ofList_cons, String.utf8ByteSize_append, String.utf8ByteSize_singleton, hsize,
        hbytes, List.length_cons, Nat.add_comm]
      refine ⟨rfl, Nat.lt_of_lt_of_le hvalue ?_⟩
      calc
        (16 * start + digit + 1) * 16 ^ digits.length ≤
            ((start + 1) * 16) * 16 ^ digits.length := Nat.mul_le_mul_right _ (by omega)
        _ = (start + 1) * 16 ^ (digits.length + 1) := by rw [Nat.mul_assoc, Nat.pow_succ']

/-- Without a plus sign in front, the reader takes four hexadecimal digits. -/
theorem codeUnit_eq_ok_iff {digits : List Char} (h : digits.head? ≠ some '+') {unit : Nat} :
    codeUnit digits = .ok unit ↔ hexUnit? digits = some unit := by
  have hread := codeUnit.eq_2 digits fun others heq => h (heq ▸ rfl)
  rw [hread, hexUnit?]
  cases hvalue : hexValue? digits with
  | none =>
      simp only [ite_self, reduceCtorEq, iff_false]
      split
      · exact nofun
      · exact nofun
  | some value =>
      rw [(hexValue?_bounds hvalue).1]
      by_cases hlength : digits.length = 4
      · simp [hlength]
      · simp [hlength]

/-- Behind a plus sign the reader takes three hexadecimal digits. -/
theorem length_of_codeUnit_plus {others : List Char} {unit : Nat}
    (h : codeUnit ('+' :: others) = .ok unit) : others.length = 3 := by
  rw [codeUnit] at h
  split at h
  · cases h
  · rename_i hbytes
    cases hvalue : hexValue? others with
    | none =>
        simp only [hvalue] at h
        cases h
    | some value =>
        rw [String.ofList_cons, String.utf8ByteSize_append, (hexValue?_bounds hvalue).1] at hbytes
        simp only [String.utf8ByteSize_singleton] at hbytes
        have hplus : '+'.utf8Size = 1 := by decide
        omega

/-- No unit is read from fewer than four characters. -/
theorem length_of_codeUnit {digits : List Char} {unit : Nat} (h : codeUnit digits = .ok unit) :
    digits.length = 4 := by
  by_cases hplus : digits.head? = some '+'
  · obtain ⟨others, rfl⟩ := List.head?_eq_some_iff.mp hplus
    rw [List.length_cons, length_of_codeUnit_plus h]
  · by_contra hlength
    have hunit := (codeUnit_eq_ok_iff hplus).mp h
    rw [hexUnit?, if_neg hlength] at hunit
    cases hunit

/-- A plus sign is no hexadecimal digit. -/
theorem head?_ne_of_hexUnit? {digits : List Char} {unit : Nat} (h : hexUnit? digits = some unit) :
    digits.head? ≠ some '+' := by
  intro hplus
  obtain ⟨others, rfl⟩ := List.head?_eq_some_iff.mp hplus
  rw [hexUnit?] at h
  split at h
  · cases h
  · cases h

theorem codeUnit_of_hexUnit? {digits : List Char} {unit : Nat} (h : hexUnit? digits = some unit) :
    codeUnit digits = .ok unit :=
  (codeUnit_eq_ok_iff (head?_ne_of_hexUnit? h)).mpr h

theorem hexUnit?_lt {digits : List Char} {unit : Nat} (h : hexUnit? digits = some unit) :
    unit < 0x10000 := by
  rw [hexUnit?, Option.ite_none_right_eq_some] at h
  have hbound := (hexValue?_bounds h.2).2
  rw [h.1] at hbound
  exact hbound

/-! ## The parts of a text -/

/-- A part of a key or value as written. -/
inductive Part where
  /-- A character, as it is or behind a backslash. -/
  | plain (c : Char)
  /-- A code escape, with the characters behind its letter: four, or all that are left. -/
  | code (digits : List Char)

/-- The parts of a key or value as written. -/
def parts : List Char → List Part
  | [] => []
  | c :: rest =>
      if c != '\\' then .plain c :: parts rest
      else
        match rest with
        | [] => []
        | 'u' :: a :: b :: c :: d :: rest => .code [a, b, c, d] :: parts rest
        | 'u' :: short => [.code short]
        | e :: rest => .plain (escaped e) :: parts rest

/-- The characters that the reader makes of the parts. -/
def resolve : List Part → Except Fault (List Char)
  | [] => .ok []
  | .plain c :: rest => (resolve rest).map (c :: ·)
  | .code digits :: rest => do
      let unit ← codeUnit digits
      if isHigh unit then
        match rest with
        | .code digits :: rest =>
            let low ← codeUnit digits
            let x ← character (pairCode unit low)
            (resolve rest).map (x :: ·)
        | _ => .error (.unpairedSurrogate unit)
      else
        let x ← character unit
        (resolve rest).map (x :: ·)

/-- How a text starts, as the reader tells it. -/
inductive Start : List Char → Prop
  | nil : Start []
  | plain {c : Char} {rest : List Char} : c ≠ '\\' → Start (c :: rest)
  /-- A backslash at the end. -/
  | lone : Start ['\\']
  | code {a b c d : Char} {rest : List Char} : Start ('\\' :: 'u' :: a :: b :: c :: d :: rest)
  /-- A code escape that is cut short. -/
  | short {digits : List Char} : digits.length < 4 → Start ('\\' :: 'u' :: digits)
  | escape {e : Char} {rest : List Char} : e ≠ 'u' → Start ('\\' :: e :: rest)

theorem start (s : List Char) : Start s := by
  rcases s with _ | ⟨c, s⟩
  · exact .nil
  · by_cases hslash : c = '\\'
    · subst hslash
      rcases s with _ | ⟨e, s⟩
      · exact .lone
      · by_cases hu : e = 'u'
        · subst hu
          rcases s with _ | ⟨a, _ | ⟨b, _ | ⟨c, _ | ⟨d, rest⟩⟩⟩⟩
          · exact .short (by decide)
          · exact .short (by simp)
          · exact .short (by simp)
          · exact .short (by simp)
          · exact .code
        · exact .escape hu
    · exact .plain hslash

theorem parts_plain {c : Char} (h : c ≠ '\\') (rest : List Char) :
    parts (c :: rest) = .plain c :: parts rest := by
  rw [parts.eq_def]
  simp only [bne_iff_ne.mpr h, if_true]

theorem parts_short {digits : List Char} (h : digits.length < 4) :
    parts ('\\' :: 'u' :: digits) = [.code digits] := by
  rcases digits with _ | ⟨a, _ | ⟨b, _ | ⟨c, _ | ⟨d, rest⟩⟩⟩⟩
  · rfl
  · rfl
  · rfl
  · rfl
  · simp at h
    omega

theorem parts_escape {e : Char} (h : e ≠ 'u') (rest : List Char) :
    parts ('\\' :: e :: rest) = .plain (escaped e) :: parts rest := by
  rw [parts.eq_def]
  simp only [bne_self_eq_false, Bool.false_eq_true, if_false]
  split
  · contradiction
  · rename_i heq
    exact absurd (List.cons.inj heq).1 h
  · rename_i heq
    exact absurd (List.cons.inj heq).1 h
  · rename_i heq
    obtain ⟨rfl, rfl⟩ := List.cons.inj heq
    rfl

theorem unescape_plain {c : Char} (h : c ≠ '\\') (rest : List Char) :
    unescape (c :: rest) = (unescape rest).map (c :: ·) := by
  rw [unescape.eq_def]
  simp only [bne_iff_ne.mpr h, if_true]

/-- An escape that is cut short is refused. -/
theorem codeUnit_short {digits : List Char} (h : digits.length < 4) :
    ∃ fault, codeUnit digits = .error fault := by
  cases hunit : codeUnit digits with
  | error fault => exact ⟨fault, rfl⟩
  | ok unit =>
      rw [length_of_codeUnit hunit] at h
      exact absurd h (by decide)

theorem unescape_short {digits : List Char} (h : digits.length < 4) :
    unescape ('\\' :: 'u' :: digits) = (codeUnit digits).map fun _ => [] := by
  rcases digits with _ | ⟨a, _ | ⟨b, _ | ⟨c, _ | ⟨d, rest⟩⟩⟩⟩
  · rfl
  · rfl
  · rfl
  · rfl
  · simp at h
    omega

section

variable {a b c d : Char} {unit : Nat} (hunit : codeUnit [a, b, c, d] = .ok unit)

include hunit

/-- The reader takes a unit that starts no pair for a character. -/
theorem unescape_single (hhigh : isHigh unit = false) (rest : List Char) :
    unescape ('\\' :: 'u' :: a :: b :: c :: d :: rest) =
      character unit >>= fun x => (unescape rest).map (x :: ·) := by
  rw [unescape.eq_def]
  simp only [bne_self_eq_false, Bool.false_eq_true, if_false, hunit]
  show (if isHigh unit = true then _ else _) = _
  rw [hhigh, if_neg Bool.false_ne_true]

/-- The reader takes a unit that starts a pair together with the one of the next escape. -/
theorem unescape_pair (hhigh : isHigh unit = true) (e f g h : Char) (rest : List Char) :
    unescape ('\\' :: 'u' :: a :: b :: c :: d :: '\\' :: 'u' :: e :: f :: g :: h :: rest) =
      codeUnit [e, f, g, h] >>= fun low =>
        character (pairCode unit low) >>= fun x => (unescape rest).map (x :: ·) := by
  rw [unescape.eq_def]
  simp only [bne_self_eq_false, Bool.false_eq_true, if_false, hunit]
  show (if isHigh unit = true then _ else _) = _
  rw [hhigh, if_pos rfl]

theorem unescape_pair_short (hhigh : isHigh unit = true) {digits : List Char}
    (hshort : digits.length < 4) :
    unescape ('\\' :: 'u' :: a :: b :: c :: d :: '\\' :: 'u' :: digits) =
      (codeUnit digits).map fun _ => [] := by
  rw [unescape.eq_def]
  simp only [bne_self_eq_false, Bool.false_eq_true, if_false, hunit]
  show (if isHigh unit = true then _ else _) = _
  rw [hhigh, if_pos rfl]
  rcases digits with _ | ⟨e, _ | ⟨f, _ | ⟨g, _ | ⟨h, rest⟩⟩⟩⟩
  · rfl
  · rfl
  · rfl
  · rfl
  · simp at hshort
    omega

/-- The reader refuses a unit that starts a pair without an escape behind it. -/
theorem unescape_unpaired (hhigh : isHigh unit = true) (rest : List Char)
    (hrest : ∀ digits, rest ≠ '\\' :: 'u' :: digits) :
    unescape ('\\' :: 'u' :: a :: b :: c :: d :: rest) = .error (.unpairedSurrogate unit) := by
  rw [unescape.eq_def]
  simp only [bne_self_eq_false, Bool.false_eq_true, if_false, hunit]
  show (if isHigh unit = true then _ else _) = _
  rw [hhigh, if_pos rfl]
  split
  · exact absurd rfl (hrest _)
  · exact absurd rfl (hrest _)
  · rfl

end

section

variable {digits : List Char} {unit : Nat} (hunit : codeUnit digits = .ok unit)

include hunit

theorem resolve_single (hhigh : isHigh unit = false) (others : List Part) :
    resolve (.code digits :: others) =
      character unit >>= fun x => (resolve others).map (x :: ·) := by
  rw [resolve, hunit]
  show (if isHigh unit = true then _ else _) = _
  rw [hhigh, if_neg Bool.false_ne_true]

theorem resolve_pair (hhigh : isHigh unit = true) (second : List Char) (others : List Part) :
    resolve (.code digits :: .code second :: others) =
      codeUnit second >>= fun low =>
        character (pairCode unit low) >>= fun x => (resolve others).map (x :: ·) := by
  rw [resolve, hunit]
  show (if isHigh unit = true then _ else _) = _
  rw [hhigh, if_pos rfl]

theorem resolve_unpaired (hhigh : isHigh unit = true) (others : List Part)
    (hothers : ∀ second more, others ≠ .code second :: more) :
    resolve (.code digits :: others) = .error (.unpairedSurrogate unit) := by
  rw [resolve, hunit]
  show (if isHigh unit = true then _ else _) = _
  rw [hhigh, if_pos rfl]
  split
  · exact absurd rfl (hothers _ _)
  · rfl

end

/-- Behind a unit that starts a pair, how the rest starts tells whether an escape follows. -/
theorem resolve_parts_high {a b c d : Char} {unit : Nat} (hunit : codeUnit [a, b, c, d] = .ok unit)
    (hhigh : isHigh unit = true) {rest : List Char}
    (ih : ∀ s, s.length < rest.length → resolve (parts s) = unescape s) :
    resolve (.code [a, b, c, d] :: parts rest) =
      unescape ('\\' :: 'u' :: a :: b :: c :: d :: rest) := by
  cases start rest with
  | nil =>
      rw [unescape_unpaired hunit hhigh [] nofun]
      exact resolve_unpaired hunit hhigh [] nofun
  | @plain e rest hslash =>
      rw [parts_plain hslash, resolve_unpaired hunit hhigh (.plain e :: parts rest) nofun,
        unescape_unpaired hunit hhigh]
      intro digits heq
      exact hslash (List.cons.inj heq).1
  | lone =>
      rw [unescape_unpaired hunit hhigh ['\\'] nofun]
      exact resolve_unpaired hunit hhigh [] nofun
  | @code e f g h rest =>
      rw [unescape_pair hunit hhigh, ← ih rest (by simp only [List.length_cons]; omega)]
      exact resolve_pair hunit hhigh [e, f, g, h] (parts rest)
  | @short digits hshort =>
      obtain ⟨fault, hfault⟩ := codeUnit_short hshort
      rw [parts_short hshort, resolve_pair hunit hhigh, unescape_pair_short hunit hhigh hshort,
        hfault]
      rfl
  | @escape e rest hu =>
      rw [parts_escape hu, resolve_unpaired hunit hhigh (.plain (escaped e) :: parts rest) nofun,
        unescape_unpaired hunit hhigh]
      intro digits heq
      exact hu (List.cons.inj (List.cons.inj heq).2).1

/-- Resolving the escapes of a text is resolving those of its parts. -/
theorem resolve_parts (s : List Char) : resolve (parts s) = unescape s := by
  cases start s with
  | nil => rfl
  | @plain c rest hslash =>
      rw [parts_plain hslash, unescape_plain hslash, resolve, resolve_parts rest]
  | lone => rfl
  | @code a b c d rest =>
      show resolve (.code [a, b, c, d] :: parts rest) = _
      cases hunit : codeUnit [a, b, c, d] with
      | error fault =>
          rw [resolve, unescape.eq_def, hunit]
          simp only [bne_self_eq_false, Bool.false_eq_true, if_false, hunit]
          rfl
      | ok unit =>
          -- A first half takes the next escape with it, so the text behind that one is reached.
          cases hhigh : isHigh unit with
          | false =>
              rw [resolve_single hunit hhigh, unescape_single hunit hhigh, resolve_parts rest]
          | true => exact resolve_parts_high hunit hhigh fun s _ => resolve_parts s
  | @short digits hshort =>
      obtain ⟨fault, hfault⟩ := codeUnit_short hshort
      rw [parts_short hshort, unescape_short hshort, resolve, hfault]
      rfl
  | @escape e rest hu =>
      rw [parts_escape hu, unescape_escape hu, resolve, resolve_parts rest]
  termination_by s.length
  decreasing_by all_goals simp only [List.length_cons]; omega

/-! ## What the parts stand for -/

/-- The UTF-16 code units of the parts; none when a code escape is not four hexadecimal digits. -/
def units? : List Part → Option (List Nat)
  | [] => some []
  | .plain c :: rest => (units? rest).map (charUnits c ++ ·)
  | .code digits :: rest => (hexUnit? digits).bind fun unit => (units? rest).map (unit :: ·)

/-- What is written stands for the characters: it has their code units. -/
def Decodes (written decoded : List Char) : Prop := units? (parts written) = some (utf16 decoded)

/-- Every code escape is four hexadecimal digits. The escape of a first half of a pair is directly
followed by that of a second half, which stands nowhere else. -/
inductive WellPaired : List Part → Prop
  | nil : WellPaired []
  | plain {c : Char} {rest : List Part} : WellPaired rest → WellPaired (.plain c :: rest)
  | single {digits : List Char} {unit : Nat} {rest : List Part} :
      hexUnit? digits = some unit → isHigh unit = false → isLow unit = false →
        WellPaired rest → WellPaired (.code digits :: rest)
  | pair {first second : List Char} {high low : Nat} {rest : List Part} :
      hexUnit? first = some high → isHigh high = true →
        hexUnit? second = some low → isLow low = true →
          WellPaired rest → WellPaired (.code first :: .code second :: rest)

/-- Where the reader does not take more than there is: no code escape has a plus sign for its first
digit, and none of a first half of a pair is directly followed by that of another unit than a
second half. -/
structure Regular (s : List Part) : Prop where
  unsigned : ∀ digits, .code digits ∈ s → digits.head? ≠ some '+'
  paired : ∀ first second high unit, [.code first, .code second] <:+: s →
    hexUnit? first = some high → isHigh high = true → hexUnit? second = some unit →
      isLow unit = true

theorem Regular.tail {part : Part} {rest : List Part} (h : Regular (part :: rest)) :
    Regular rest where
  unsigned digits hmem := h.unsigned digits (List.mem_cons_of_mem part hmem)
  paired first second high unit hinfix :=
    h.paired first second high unit (List.infix_cons hinfix)

theorem Regular.plain {rest : List Part} (h : Regular rest) (c : Char) :
    Regular (.plain c :: rest) := by
  constructor
  · intro digits hmem
    rcases List.mem_cons.mp hmem with heq | hmem
    · cases heq
    · exact h.unsigned digits hmem
  · intro first second high unit hinfix
    rcases List.infix_cons_iff.mp hinfix with hprefix | hinfix
    · exact nomatch (List.cons_prefix_cons.mp hprefix).1
    · exact h.paired first second high unit hinfix

/-- An escape is regular in front of regular parts if what follows a first half is a second one. -/
theorem Regular.code {digits : List Char} {unit : Nat} {rest : List Part} (h : Regular rest)
    (hunit : hexUnit? digits = some unit)
    (hnext : isHigh unit = true → ∀ second others next, rest = .code second :: others →
      hexUnit? second = some next → isLow next = true) :
    Regular (.code digits :: rest) := by
  constructor
  · intro others hmem
    rcases List.mem_cons.mp hmem with heq | hmem
    · obtain rfl : others = digits := Part.code.inj heq
      exact head?_ne_of_hexUnit? hunit
    · exact h.unsigned others hmem
  · intro first second high next hinfix hfirst hhigh hsecond
    rcases List.infix_cons_iff.mp hinfix with hprefix | hinfix
    · obtain ⟨hcode, others, hothers⟩ := List.cons_prefix_cons.mp hprefix
      obtain rfl : first = digits := Part.code.inj hcode
      obtain rfl : unit = high := Option.some.inj (hunit.symm.trans hfirst)
      exact hnext hhigh second others next hothers.symm hsecond
    · exact h.paired first second high next hinfix hfirst hhigh hsecond

/-- The reader takes no more than there is of well paired parts. -/
theorem WellPaired.regular {s : List Part} (h : WellPaired s) : Regular s := by
  induction h with
  | nil =>
      constructor
      · intro digits hmem
        cases hmem
      · intro first second high unit hinfix
        cases List.infix_nil.mp hinfix
  | @plain c rest _ ih => exact ih.plain c
  | @single digits unit rest hunit hhigh _ _ ih =>
      refine ih.code hunit fun hhalf => ?_
      rw [hhigh] at hhalf
      cases hhalf
  | @pair first second high low rest hfirst _ hsecond hlow _ ih =>
      have hrest : Regular (.code second :: rest) := by
        -- A second half is not the first half of another pair.
        refine ih.code hsecond fun hhalf => ?_
        rw [isLow_of_isHigh hhalf] at hlow
        cases hlow
      refine hrest.code hfirst fun _ digits others next heq hnext => ?_
      obtain rfl : second = digits := Part.code.inj (List.cons.inj heq).1
      rwa [← Option.some.inj (hsecond.symm.trans hnext)]

/-- No character starts with a second half of a pair. -/
theorem isLow_of_charUnits {c : Char} {unit : Nat} {us vs : List Nat}
    (h : charUnits c ++ us = unit :: vs) : isLow unit = false := by
  rcases charUnits_cases c with ⟨heq, -, hlow⟩ | ⟨high, low, heq, hhigh, -⟩
  · rw [heq] at h
    rw [← (List.cons.inj h).1]
    exact hlow
  · rw [heq] at h
    rw [← (List.cons.inj h).1]
    exact isLow_of_isHigh hhigh

theorem ok_bind {ε α β : Type} (x : α) (next : α → Except ε β) :
    (Except.ok x >>= next) = next x := rfl

theorem character_bind {code : Nat} (h : code.isValidChar) (others : List Char) :
    (character code >>= fun x => (Except.ok others).map (x :: ·)) =
      .ok (Char.ofNat code :: others) := by
  rw [character, if_pos h]
  rfl

/-- A character and what follows it come from a code and the characters behind it. -/
theorem of_character_bind {code : Nat} {others : Except Fault (List Char)} {decoded : List Char}
    (h : (character code >>= fun x => others.map (x :: ·)) = .ok decoded) :
    code.isValidChar ∧ ∃ rest, others = .ok rest := by
  rw [character] at h
  split at h
  · rename_i hvalid
    cases others with
    | error fault => cases h
    | ok rest => exact ⟨hvalid, rest, rfl⟩
  · cases h

/-- Well paired parts are resolved, to characters that have their units. -/
theorem WellPaired.exists_resolve {s : List Part} (h : WellPaired s) :
    ∃ decoded, resolve s = .ok decoded ∧ units? s = some (utf16 decoded) := by
  induction h with
  | nil => exact ⟨[], rfl, rfl⟩
  | @plain c rest _ ih =>
      obtain ⟨decoded, hresolve, hunits⟩ := ih
      refine ⟨c :: decoded, ?_, ?_⟩
      · rw [resolve, hresolve]
        rfl
      · rw [units?, hunits]
        rfl
  | @single digits unit rest hunit hhigh hlow _ ih =>
      obtain ⟨decoded, hresolve, hunits⟩ := ih
      have hvalid := isValidChar_of_single (hexUnit?_lt hunit) hhigh hlow
      refine ⟨Char.ofNat unit :: decoded, ?_, ?_⟩
      · rw [resolve_single (codeUnit_of_hexUnit? hunit) hhigh, hresolve, character_bind hvalid]
      · rw [units?, hunit, hunits, utf16_cons, charUnits_ofNat hvalid (hexUnit?_lt hunit)]
        rfl
  | @pair first second high low rest hfirst hhigh hsecond hlow _ ih =>
      obtain ⟨decoded, hresolve, hunits⟩ := ih
      obtain ⟨hvalid, hpair⟩ := charUnits_pairCode hhigh hlow
      refine ⟨Char.ofNat (pairCode high low) :: decoded, ?_, ?_⟩
      · rw [resolve_pair (codeUnit_of_hexUnit? hfirst) hhigh, codeUnit_of_hexUnit? hsecond,
          ok_bind, hresolve, character_bind hvalid]
      · rw [units?, units?, hfirst, hsecond, hunits, utf16_cons, hpair]
        rfl

/-- Parts that have the units of characters are well paired. -/
theorem wellPaired_of_units : ∀ {s : List Part} {decoded : List Char},
    units? s = some (utf16 decoded) → WellPaired s
  | [], _, _ => .nil
  | .plain c :: rest, decoded, h => by
      obtain ⟨us, hunits, heq⟩ := Option.map_eq_some_iff.mp h
      cases decoded with
      | nil => exact absurd (List.append_eq_nil_iff.mp heq).1 (charUnits_ne_nil c)
      | cons d decoded =>
          rw [utf16_cons] at heq
          rw [(charUnits_append_inj heq).2] at hunits
          exact .plain (wellPaired_of_units hunits)
  | .code digits :: rest, decoded, h => by
      obtain ⟨unit, hunit, h⟩ := Option.bind_eq_some_iff.mp h
      obtain ⟨us, hunits, heq⟩ := Option.map_eq_some_iff.mp h
      cases decoded with
      | nil => cases heq
      | cons d decoded =>
          rw [utf16_cons] at heq
          rcases charUnits_cases d with ⟨hd, hhigh, hlow⟩ | ⟨high, low, hd, hhigh, hlow⟩
          · rw [hd] at heq
            obtain ⟨rfl, rfl⟩ := List.cons.inj heq
            exact .single hunit hhigh hlow (wellPaired_of_units hunits)
          · rw [hd] at heq
            obtain ⟨rfl, rfl⟩ := List.cons.inj heq
            -- The second unit of the character starts the rest.
            match rest, hunits with
            | .plain c :: rest, hunits =>
                obtain ⟨us, -, heq⟩ := Option.map_eq_some_iff.mp hunits
                rw [isLow_of_charUnits heq] at hlow
                cases hlow
            | .code second :: rest, hunits =>
                obtain ⟨unit, hsecond, h⟩ := Option.bind_eq_some_iff.mp hunits
                obtain ⟨us, hunits, heq⟩ := Option.map_eq_some_iff.mp h
                obtain ⟨rfl, rfl⟩ := List.cons.inj heq
                exact .pair hunit hhigh hsecond hlow (wellPaired_of_units hunits)

/-- A first half that is resolved is resolved together with the escape behind it. -/
theorem exists_of_resolve_high {digits : List Char} {unit : Nat} {rest : List Part}
    {decoded : List Char} (hunit : codeUnit digits = .ok unit) (hhigh : isHigh unit = true)
    (h : resolve (.code digits :: rest) = .ok decoded) :
    ∃ second others low more, rest = .code second :: others ∧ codeUnit second = .ok low ∧
      resolve others = .ok more := by
  match rest, h with
  | [], h =>
      rw [resolve_unpaired hunit hhigh [] nofun] at h
      cases h
  | .plain c :: rest, h =>
      rw [resolve_unpaired hunit hhigh (.plain c :: rest) nofun] at h
      cases h
  | .code second :: rest, h =>
      rw [resolve_pair hunit hhigh] at h
      cases hsecond : codeUnit second with
      | error fault =>
          rw [hsecond] at h
          cases h
      | ok low =>
          rw [hsecond, ok_bind] at h
          obtain ⟨-, more, hrest⟩ := of_character_bind h
          exact ⟨second, rest, low, more, rfl, hsecond, hrest⟩

/-- Regular parts that are resolved are well paired. -/
theorem wellPaired_of_resolve : ∀ {s : List Part} {decoded : List Char}, Regular s →
    resolve s = .ok decoded → WellPaired s
  | [], _, _, _ => .nil
  | .plain c :: rest, decoded, hregular, h => by
      rw [resolve] at h
      cases hrest : resolve rest with
      | error fault =>
          rw [hrest] at h
          cases h
      | ok others => exact .plain (wellPaired_of_resolve hregular.tail hrest)
  | .code digits :: rest, decoded, hregular, h => by
      cases hread : codeUnit digits with
      | error fault =>
          rw [resolve, hread] at h
          cases h
      | ok unit =>
          -- Without the plus sign, what the reader takes is the unit of the digits.
          have hunsigned := hregular.unsigned digits List.mem_cons_self
          have hunit := (codeUnit_eq_ok_iff hunsigned).mp hread
          cases hhigh : isHigh unit with
          | false =>
              rw [resolve_single hread hhigh] at h
              obtain ⟨hvalid, others, hrest⟩ := of_character_bind h
              exact .single hunit hhigh (isLow_of_isValidChar hvalid)
                (wellPaired_of_resolve hregular.tail hrest)
          | true =>
              obtain ⟨second, others, low, more, rfl, hnext, hrest⟩ :=
                exists_of_resolve_high hread hhigh h
              have hsecond := (codeUnit_eq_ok_iff
                (hregular.tail.unsigned second List.mem_cons_self)).mp hnext
              have hlow := hregular.paired digits second unit low
                (List.IsPrefix.isInfix ⟨others, rfl⟩) hunit hhigh hsecond
              exact .pair hunit hhigh hsecond hlow
                (wellPaired_of_resolve hregular.tail.tail hrest)

/-- What stands for characters is resolved to them. -/
theorem Decodes.unescape_eq {s decoded : List Char} (h : Decodes s decoded) :
    unescape s = .ok decoded := by
  obtain ⟨resolved, hresolve, hunits⟩ := (wellPaired_of_units h).exists_resolve
  rw [← resolve_parts, hresolve, utf16_injective (Option.some.inj (hunits.symm.trans h))]

/-- What is regular is resolved exactly to the characters that it stands for. -/
theorem unescape_eq_ok_iff {s decoded : List Char} (h : Regular (parts s)) :
    unescape s = .ok decoded ↔ Decodes s decoded := by
  refine ⟨fun hunescape => ?_, Decodes.unescape_eq⟩
  rw [← resolve_parts] at hunescape
  obtain ⟨resolved, hresolve, hunits⟩ := (wellPaired_of_resolve h hunescape).exists_resolve
  rwa [Except.ok.inj (hresolve.symm.trans hunescape)] at hunits

/-- The well paired texts are those that stand for some characters. -/
theorem exists_decodes_iff {s : List Char} : (∃ decoded, Decodes s decoded) ↔
    WellPaired (parts s) := by
  constructor
  · rintro ⟨decoded, h⟩
    exact wellPaired_of_units h
  · intro h
    obtain ⟨decoded, -, hunits⟩ := h.exists_resolve
    exact ⟨decoded, hunits⟩

/-! ## Whole texts -/

/-- The keys and values of a text as they are written. -/
def writtenEntries (text : String) : List (List Char × List Char) :=
  (logicalLines none (Text.lines text.toList)).map fun line =>
    ((cutKey line).1, dropSeparator (cutKey line).2)

/-- The entry as written stands for the key and the value. -/
def DecodesEntry (p : List Char × List Char) (entry : String × String) : Prop :=
  Decodes p.1 entry.1.toList ∧ Decodes p.2 entry.2.toList

theorem mapM_eq_ok_iff {ε α β : Type} {f : α → Except ε β} {xs : List α} {ys : List β} :
    xs.mapM f = .ok ys ↔ List.Forall₂ (fun x y => f x = .ok y) xs ys := by
  induction xs generalizing ys with
  | nil =>
      rw [List.forall₂_nil_left_iff]
      constructor
      · rintro ⟨⟩
        rfl
      · rintro rfl
        rfl
  | cons x xs ih =>
      rw [List.mapM_cons, List.forall₂_cons_left_iff]
      constructor
      · intro h
        cases hfirst : f x with
        | error fault =>
            rw [hfirst] at h
            cases h
        | ok y =>
            cases hrest : xs.mapM f with
            | error fault =>
                rw [hfirst, hrest] at h
                cases h
            | ok others =>
                rw [hfirst, hrest] at h
                obtain rfl : y :: others = ys := Except.ok.inj h
                exact ⟨y, others, rfl, ih.mp hrest, rfl⟩
      · rintro ⟨y, others, hfirst, hrest, rfl⟩
        rw [hfirst, ih.mpr hrest]
        rfl

theorem exists_forall₂_iff {α β : Type} {R : α → β → Prop} {xs : List α} :
    (∃ ys, List.Forall₂ R xs ys) ↔ ∀ x ∈ xs, ∃ y, R x y := by
  induction xs with
  | nil => exact ⟨fun _ => List.forall_mem_nil _, fun _ => ⟨[], .nil⟩⟩
  | cons x xs ih =>
      rw [List.forall_mem_cons, ← ih]
      constructor
      · rintro ⟨ys, h⟩
        obtain ⟨y, others, hfirst, hrest, -⟩ := List.forall₂_cons_left_iff.mp h
        exact ⟨⟨y, hfirst⟩, others, hrest⟩
      · rintro ⟨⟨y, hfirst⟩, others, hrest⟩
        exact ⟨y :: others, .cons hfirst hrest⟩

theorem property_eq_ok_iff {line : List Char} {entry : String × String} :
    property line = .ok entry ↔
      unescape (cutKey line).1 = .ok entry.1.toList ∧
        unescape (dropSeparator (cutKey line).2) = .ok entry.2.toList := by
  show (unescape (cutKey line).1 >>= fun key =>
    unescape (dropSeparator (cutKey line).2) >>= fun value =>
      Except.ok (String.ofList key, String.ofList value)) = _ ↔ _
  cases hkey : unescape (cutKey line).1 with
  | error fault => exact ⟨nofun, fun h => (nomatch h.1)⟩
  | ok key =>
      cases hvalue : unescape (dropSeparator (cutKey line).2) with
      | error fault => exact ⟨nofun, fun h => (nomatch h.2)⟩
      | ok value =>
          obtain ⟨first, second⟩ := entry
          simp only [ok_bind, Except.ok.injEq, Prod.mk.injEq]
          constructor
          · rintro ⟨rfl, rfl⟩
            exact ⟨String.toList_ofList.symm, String.toList_ofList.symm⟩
          · rintro ⟨rfl, rfl⟩
            exact ⟨String.ofList_toList, String.ofList_toList⟩

/-- The properties that the reader returns. -/
theorem ofLines_eq_ok_iff {text : String} {entries : List (String × String)} :
    ofLines text = .ok entries ↔
      List.Forall₂ (fun p entry => unescape p.1 = .ok entry.1.toList ∧
        unescape p.2 = .ok entry.2.toList) (writtenEntries text) entries := by
  rw [ofLines, mapM_eq_ok_iff, writtenEntries, List.forall₂_map_left_iff]
  simp only [property_eq_ok_iff]

/-- Where the escapes of a text are regular, its keys and values stand for those that the reader
returns, and the reader refuses it exactly when one of them is not well paired. -/
theorem ofLines_decodes (text : String)
    (h : ∀ p ∈ writtenEntries text, Regular (parts p.1) ∧ Regular (parts p.2)) :
    (∀ entries, ofLines text = .ok entries ↔
        List.Forall₂ DecodesEntry (writtenEntries text) entries) ∧
      ((∃ fault, ofLines text = .error fault) ↔
        ∃ p ∈ writtenEntries text, ¬ (WellPaired (parts p.1) ∧ WellPaired (parts p.2))) := by
  have hread : ∀ entries, ofLines text = .ok entries ↔
      List.Forall₂ DecodesEntry (writtenEntries text) entries := by
    intro entries
    rw [ofLines_eq_ok_iff]
    constructor
    · -- Only this direction needs the escapes to be regular.
      intro hall
      apply ((List.forall₂_and_left _ _).mpr ⟨h, hall⟩).imp
      rintro p entry ⟨hregular, hkey, hvalue⟩
      exact ⟨(unescape_eq_ok_iff hregular.1).mp hkey, (unescape_eq_ok_iff hregular.2).mp hvalue⟩
    · intro hall
      exact hall.imp fun _ _ hdecodes => ⟨hdecodes.1.unescape_eq, hdecodes.2.unescape_eq⟩
  have hpaired : (∃ entries, ofLines text = .ok entries) ↔
      ∀ p ∈ writtenEntries text, WellPaired (parts p.1) ∧ WellPaired (parts p.2) := by
    simp only [hread, exists_forall₂_iff]
    refine forall₂_congr fun p _ => ?_
    rw [← exists_decodes_iff, ← exists_decodes_iff]
    constructor
    · rintro ⟨entry, hkey, hvalue⟩
      exact ⟨⟨_, hkey⟩, _, hvalue⟩
    · rintro ⟨⟨key, hkey⟩, value, hvalue⟩
      refine ⟨(String.ofList key, String.ofList value), ?_, ?_⟩
      · rwa [String.toList_ofList]
      · rwa [String.toList_ofList]
  have hrefused : (∃ fault, ofLines text = .error fault) ↔
      ¬ ∃ entries, ofLines text = .ok entries := by
    cases ofLines text with
    | error fault => exact ⟨fun _ => nofun, fun _ => ⟨fault, rfl⟩⟩
    | ok entries => exact ⟨nofun, fun hnone => (hnone ⟨entries, rfl⟩).elim⟩
  refine ⟨hread, ?_⟩
  rw [hrefused, hpaired]
  simp only [not_forall, exists_prop]

/-- A key with a letter as a code, and a value with a pair as two codes. -/
theorem ofLines_pair :
    (∀ p ∈ writtenEntries "\\u00e9=\\uD83D\\uDE00",
        Regular (parts p.1) ∧ Regular (parts p.2)) ∧
      ofLines "\\u00e9=\\uD83D\\uDE00" = .ok [("é", "😀")] := by
  have hentries : writtenEntries "\\u00e9=\\uD83D\\uDE00" =
      [("\\u00e9".toList, "\\uD83D\\uDE00".toList)] := by
    decide
  have hkey : Decodes "\\u00e9".toList "é".toList := by
    show units? _ = some _
    decide +kernel
  have hvalue : Decodes "\\uD83D\\uDE00".toList "😀".toList := by
    show units? _ = some _
    decide +kernel
  have hregular : ∀ p ∈ writtenEntries "\\u00e9=\\uD83D\\uDE00",
      Regular (parts p.1) ∧ Regular (parts p.2) := by
    rw [hentries]
    exact List.forall_mem_singleton.mpr
      ⟨(wellPaired_of_units hkey).regular, (wellPaired_of_units hvalue).regular⟩
  refine ⟨hregular, ?_⟩
  have hread := (ofLines_decodes "\\u00e9=\\uD83D\\uDE00" hregular).1 [("é", "😀")]
  rw [hentries] at hread
  exact hread.mpr (.cons ⟨hkey, hvalue⟩ .nil)

/-- Of the unit behind a first half only the last ten bits count, and a plus sign stands for a
digit, so that values which are not well paired are read as characters. -/
theorem ofLines_misread :
    ofLines "k=\\uD83D\\u0041" = .ok [("k", "👁")] ∧
      (∃ p ∈ writtenEntries "k=\\uD83D\\u0041", ¬ WellPaired (parts p.2)) ∧
      ofLines "k=\\u+041" = .ok [("k", "A")] ∧
      ∃ p ∈ writtenEntries "k=\\u+041", ¬ WellPaired (parts p.2) := by
  have hmasked : writtenEntries "k=\\uD83D\\u0041" =
      [(['k'], ['\\', 'u', 'D', '8', '3', 'D', '\\', 'u', '0', '0', '4', '1'])] := by
    decide
  have hsigned : writtenEntries "k=\\u+041" = [(['k'], ['\\', 'u', '+', '0', '4', '1'])] := by
    decide
  rw [hmasked, hsigned]
  refine ⟨by decide +kernel, ⟨_, List.mem_singleton.mpr rfl, fun h => ?_⟩, by decide +kernel,
    ⟨_, List.mem_singleton.mpr rfl, fun h => ?_⟩⟩
  · have hlow := h.regular.paired ['D', '8', '3', 'D'] ['0', '0', '4', '1'] 0xD83D 0x41
      (List.infix_refl _) (by decide) (by decide) (by decide)
    cases hlow
  · exact h.regular.unsigned ['+', '0', '4', '1'] List.mem_cons_self rfl

end ScriptTree.Properties
