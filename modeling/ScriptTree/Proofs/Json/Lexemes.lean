import ScriptTree.Json.Lenient
import Mathlib.Data.List.TakeWhile
import Mathlib.Tactic.IntervalCases

/-!
# Numbers and texts at the front of a text

What the lenient reader makes of the text of a number or of a text in quotes, with more of an
indented text behind it. The text of a number is made of numerals (`Number.isNumeral_of_mem_text`),
and a number is read as far as they go (`readNumber_append`). A text in quotes is read up to its
closing quote, unless a separator of lines stands in it (`readString_escaped`).
-/

set_option autoImplicit false

namespace ScriptTree

/-! ## Texts of numbers -/

/-- A character of the text of a number. -/
def Number.isNumeral (c : Char) : Bool :=
  c.isDigit || c == '.' || c == '-' || c == '+' || c == 'e'

namespace Number

theorem isNumeral_of_isDigit {c : Char} (h : c.isDigit = true) : isNumeral c = true := by
  rw [isNumeral, h]
  rfl

theorem isNumeral_of_mem_toDigits {n : Nat} {c : Char} (h : c ∈ Nat.toDigits 10 n) :
    isNumeral c = true :=
  isNumeral_of_isDigit (Nat.isDigit_of_mem_toDigits (by decide) (by decide) h)

theorem isNumeral_of_mem_replicate {n : Nat} {c : Char} (h : c ∈ List.replicate n '0') :
    isNumeral c = true := by
  rw [List.eq_of_mem_replicate h]
  decide

theorem isNumeral_of_mem_scaled (d : Decimal.Scaled) :
    ∀ c ∈ d.text layout, isNumeral c = true := by
  have hdigits : ∀ c ∈ Nat.toDigits 10 d.digits, isNumeral c = true := fun c =>
    isNumeral_of_mem_toDigits
  have htake : ∀ k, ∀ c ∈ (Nat.toDigits 10 d.digits).take k, isNumeral c = true := fun k c hc =>
    hdigits c (List.mem_of_mem_take hc)
  have hdrop : ∀ k, ∀ c ∈ (Nat.toDigits 10 d.digits).drop k, isNumeral c = true := fun k c hc =>
    hdigits c (List.mem_of_mem_drop hc)
  have hzeros : ∀ k, ∀ c ∈ List.replicate k '0', isNumeral c = true := fun k c =>
    isNumeral_of_mem_replicate
  have hend : ∀ c ∈ layout.wholeEnd, isNumeral c = true :=
    List.all_eq_true.mp (by decide)
  have hexponent : ∀ k, ∀ c ∈ Nat.toDigits 10 k, isNumeral c = true := fun k c =>
    isNumeral_of_mem_toDigits
  rw [Decimal.Scaled.text]
  split
  · split
    · simp only [List.forall_mem_append]
      exact ⟨⟨hdigits, hzeros _⟩, hend⟩
    · split
      · simp only [List.forall_mem_append, List.forall_mem_cons]
        exact ⟨htake _, by decide, hdrop _⟩
      · simp only [List.cons_append, List.forall_mem_append, List.forall_mem_cons]
        exact ⟨by decide, by decide, hzeros _, hdigits⟩
  · simp only [List.forall_mem_append, List.forall_mem_cons]
    refine ⟨⟨htake _, ?_⟩, by decide, ?_, hexponent _⟩
    · split
      · exact fun c hc => absurd hc List.not_mem_nil
      · exact List.forall_mem_cons.mpr ⟨by decide, hdrop _⟩
    · split <;> decide

/-- The text of a number is made of digits, signs, a point and the mark of an exponent. -/
theorem isNumeral_of_mem_text (n : Number) : ∀ c ∈ n.text.toList, isNumeral c = true := by
  cases n with
  | integer i fits =>
      have hnat : ∀ k : Nat, ∀ c ∈ (toString k).toList, isNumeral c = true := by
        intro k c hc
        rw [show (toString k).toList = Nat.toDigits 10 k from Nat.toList_repr] at hc
        exact isNumeral_of_mem_toDigits hc
      cases i with
      | ofNat k => exact hnat k
      | negSucc k =>
          show ∀ c ∈ ("-" ++ toString (k + 1)).toList, isNumeral c = true
          rw [String.toList_append, List.forall_mem_append]
          exact ⟨List.all_eq_true.mp (by decide), hnat (k + 1)⟩
  | floating x finite =>
      show ∀ c ∈ (String.ofList (Decimal.floatText layout x)).toList, isNumeral c = true
      rw [String.toList_ofList, Decimal.floatText, List.forall_mem_append]
      refine ⟨?_, isNumeral_of_mem_scaled _⟩
      split <;> exact List.all_eq_true.mp (by decide)

end Number

namespace Json

namespace Lenient

open ScriptTree.Number (isNumeral)

/-- What follows a value in an indented text: nothing, a comma or the end of the line. -/
def Follows (t : List Char) : Prop := ∀ c rest, t = c :: rest → c = ',' ∨ c = '\n'

theorem follows_nil : Follows [] := fun _ _ h => nomatch h

theorem follows_comma (t : List Char) : Follows (',' :: t) := by
  rintro c rest heq
  exact .inl (List.cons.inj heq).1.symm

theorem follows_newline (depth : Nat) (t : List Char) : Follows (newline depth ++ t) := by
  rintro c rest heq
  exact .inr (List.cons.inj heq).1.symm

variable {s t : List Char}

theorem takeWhile_isDigit_append (ht : Follows t) (s : List Char) :
    (s ++ t).takeWhile Char.isDigit = s.takeWhile Char.isDigit := by
  have hnone : t.takeWhile Char.isDigit = [] := by
    cases t with
    | nil => rfl
    | cons c rest =>
        apply List.takeWhile_cons_of_neg
        rcases ht c rest rfl with rfl | rfl <;> decide
  rw [List.takeWhile_append]
  split
  · rename_i hall
    rw [hnone, List.append_nil, (List.takeWhile_sublist _).eq_of_length hall]
  · rfl

theorem drop_takeWhile_append (s t : List Char) :
    (s ++ t).drop (s.takeWhile Char.isDigit).length =
      s.drop (s.takeWhile Char.isDigit).length ++ t :=
  List.drop_append_of_le_length (List.takeWhile_sublist _).length_le

/-- The sign of an exponent at the front of a text, and the rest. -/
def exponentSign : List Char → List Char × List Char
  | '+' :: body => (['+'], body)
  | '-' :: body => (['-'], body)
  | s => ([], s)

theorem exponentSign_append (ht : Follows t) (s : List Char) :
    exponentSign (s ++ t) = ((exponentSign s).1, (exponentSign s).2 ++ t) := by
  cases s with
  | nil =>
      cases t with
      | nil => rfl
      | cons c rest => rcases ht c rest rfl with rfl | rfl <;> rfl
  | cons c rest =>
      by_cases hplus : c = '+'
      · subst hplus
        rfl
      · by_cases hminus : c = '-'
        · subst hminus
          rfl
        · simp [exponentSign, hplus, hminus]

/-- An exponent: its mark, a sign and digits, as written. -/
theorem takeExponent_cons (e : Char) (rest : List Char) :
    takeExponent (e :: rest) =
      if e == 'e' || e == 'E' then
        if ((exponentSign rest).2.takeWhile Char.isDigit).isEmpty then ([], e :: rest)
        else (e :: (exponentSign rest).1 ++ (exponentSign rest).2.takeWhile Char.isDigit,
          (exponentSign rest).2.drop ((exponentSign rest).2.takeWhile Char.isDigit).length)
      else ([], e :: rest) := by
  cases rest with
  | nil => rfl
  | cons c body =>
      by_cases hplus : c = '+'
      · subst hplus
        rfl
      · by_cases hminus : c = '-'
        · subst hminus
          rfl
        · simp [takeExponent, exponentSign, hplus, hminus]

/-- What follows a number is not taken for its exponent. -/
theorem takeExponent_append (ht : Follows t) (s : List Char) :
    takeExponent (s ++ t) = ((takeExponent s).1, (takeExponent s).2 ++ t) := by
  cases s with
  | nil =>
      cases t with
      | nil => rfl
      | cons c rest => rcases ht c rest rfl with rfl | rfl <;> rfl
  | cons e rest =>
      rw [List.cons_append, takeExponent_cons, takeExponent_cons, exponentSign_append ht,
        takeWhile_isDigit_append ht, drop_takeWhile_append]
      split
      · split <;> rfl
      · rfl

/-- The rest of a decimal behind its whole digits: a point and digits, and an exponent. -/
def afterWhole (whole : List Char) : List Char → List Char × List Char
  | '.' :: rest =>
      (whole ++ '.' :: rest.takeWhile Char.isDigit ++
          (takeExponent (rest.drop (rest.takeWhile Char.isDigit).length)).1,
        (takeExponent (rest.drop (rest.takeWhile Char.isDigit).length)).2)
  | rest => (whole ++ (takeExponent rest).1, (takeExponent rest).2)

theorem afterWhole_append (ht : Follows t) (whole s : List Char) :
    afterWhole whole (s ++ t) = ((afterWhole whole s).1, (afterWhole whole s).2 ++ t) := by
  have hplain : ∀ s, (∀ rest, s ≠ '.' :: rest) →
      afterWhole whole s = (whole ++ (takeExponent s).1, (takeExponent s).2) := by
    intro s hs
    rw [afterWhole]
    exact hs
  cases s with
  | nil =>
      have hpoint : ∀ rest, [] ++ t ≠ '.' :: rest := by
        intro rest heq
        rcases ht '.' rest heq with h | h <;> cases h
      rw [hplain _ hpoint, hplain [] (fun _ h => nomatch h), takeExponent_append ht]
  | cons c rest =>
      by_cases hc : c = '.'
      · subst hc
        rw [List.cons_append, afterWhole, afterWhole, takeWhile_isDigit_append ht,
          drop_takeWhile_append, takeExponent_append ht]
      · have hne : ∀ (s rest' : List Char), c :: s ≠ '.' :: rest' := fun _ _ heq =>
          hc (List.cons.inj heq).1
        rw [hplain _ (hne rest), List.cons_append, hplain _ (hne _), ← List.cons_append,
          takeExponent_append ht]

/-- The whole digits of a decimal, without a leading zero. -/
def wholeDigits (c : Char) (rest : List Char) : List Char :=
  if c == '0' then ['0'] else c :: rest.takeWhile Char.isDigit

theorem takeDecimal_cons {c : Char} (hc : c.isDigit = true) (rest : List Char) :
    takeDecimal (c :: rest) =
      some (afterWhole (wholeDigits c rest) ((c :: rest).drop (wholeDigits c rest).length)) := by
  have hpoint : c ≠ '.' := by
    rintro rfl
    exact absurd hc (by decide)
  simp only [takeDecimal, hc, if_true, wholeDigits]
  split
  · rename_i rest' hrest
    rw [hrest]
    rfl
  · rename_i hrest
    rw [afterWhole]
    exact hrest

/-- A decimal is read as far as it goes whatever follows. -/
theorem takeDecimal_append (ht : Follows t) (s : List Char) :
    takeDecimal (s ++ t) = (takeDecimal s).map fun p => (p.1, p.2 ++ t) := by
  cases s with
  | nil =>
      cases t with
      | nil => rfl
      | cons c rest => rcases ht c rest rfl with rfl | rfl <;> rfl
  | cons c rest =>
      by_cases hpoint : c = '.'
      · subst hpoint
        have hread : ∀ rest, takeDecimal ('.' :: rest) =
            if (rest.takeWhile Char.isDigit).isEmpty then none
            else some (afterWhole [] ('.' :: rest)) := fun _ => rfl
        rw [List.cons_append, hread, hread, takeWhile_isDigit_append ht, ← List.cons_append,
          afterWhole_append ht]
        split <;> rfl
      · by_cases hc : c.isDigit = true
        · have hwhole : wholeDigits c (rest ++ t) = wholeDigits c rest := by
            rw [wholeDigits, wholeDigits, takeWhile_isDigit_append ht]
          have hlength : (wholeDigits c rest).length ≤ (c :: rest).length := by
            rw [wholeDigits]
            split
            · simp
            · exact Nat.succ_le_succ (List.takeWhile_sublist _).length_le
          rw [List.cons_append, takeDecimal_cons hc, takeDecimal_cons hc, hwhole,
            ← List.cons_append, List.drop_append_of_le_length hlength, afterWhole_append ht]
          rfl
        · simp [takeDecimal, hc]

theorem exponentSign_suffix (s : List Char) : (exponentSign s).2 <:+ s := by
  unfold exponentSign
  split
  · exact List.suffix_cons _ _
  · exact List.suffix_cons _ _
  · exact List.suffix_refl _

theorem takeExponent_suffix (s : List Char) : (takeExponent s).2 <:+ s := by
  cases s with
  | nil => exact List.suffix_refl _
  | cons e rest =>
      rw [takeExponent_cons]
      split
      · split
        · exact List.suffix_refl _
        · exact ((List.drop_suffix _ _).trans (exponentSign_suffix rest)).trans
            (List.suffix_cons e rest)
      · exact List.suffix_refl _

theorem afterWhole_suffix (whole s : List Char) : (afterWhole whole s).2 <:+ s := by
  unfold afterWhole
  split
  · exact ((takeExponent_suffix _).trans (List.drop_suffix _ _)).trans (List.suffix_cons _ _)
  · exact takeExponent_suffix _

theorem takeDecimal_suffix {written rest : List Char} (h : takeDecimal s = some (written, rest)) :
    rest <:+ s := by
  cases s with
  | nil => cases h
  | cons c s =>
      by_cases hpoint : c = '.'
      · subst hpoint
        have hread : takeDecimal ('.' :: s) =
            if (s.takeWhile Char.isDigit).isEmpty then none
            else some (afterWhole [] ('.' :: s)) := rfl
        rw [hread] at h
        split at h
        · cases h
        · have hrest : _ = rest := congrArg Prod.snd (Option.some.inj h)
          rw [← hrest]
          exact afterWhole_suffix _ _
      · by_cases hc : c.isDigit = true
        · rw [takeDecimal_cons hc] at h
          have hrest : _ = rest := congrArg Prod.snd (Option.some.inj h)
          rw [← hrest]
          exact (afterWhole_suffix _ _).trans (List.drop_suffix _ _)
        · simp [takeDecimal, hc] at h

/-- A text that begins with another character does not begin with the word. -/
theorem afterWord_eq_none {word : String} {first : Char} {others : List Char}
    (hword : word.toList = first :: others) (h : ∀ rest, s ≠ first :: rest) :
    afterWord word s = none := by
  rw [afterWord, hword, if_neg]
  intro hprefix
  cases s with
  | nil => cases hprefix
  | cons c rest =>
      have hc := (Bool.and_eq_true_iff.mp hprefix).1
      exact h rest (congrArg (· :: rest) (eq_of_beq hc).symm)

/-- The front of a text of numerals with something behind. -/
theorem head_of_numerals (ht : Follows t) (hs : ∀ c ∈ s, isNumeral c = true) {c : Char}
    {rest : List Char} (h : s ++ t = c :: rest) : isNumeral c = true ∨ c = ',' ∨ c = '\n' := by
  cases s with
  | nil => exact .inr (ht c rest h)
  | cons d others =>
      rw [← (List.cons.inj h).1]
      exact .inl (hs d List.mem_cons_self)

theorem afterWord_of_numerals (ht : Follows t) (hs : ∀ c ∈ s, isNumeral c = true) {word : String}
    {first : Char} {others : List Char} (hword : word.toList = first :: others)
    (hfirst : isNumeral first = false ∧ first ≠ ',' ∧ first ≠ '\n') :
    afterWord word (s ++ t) = none := by
  apply afterWord_eq_none hword
  intro rest heq
  rcases head_of_numerals ht hs heq with h | h | h
  · rw [hfirst.1] at h
    cases h
  · exact hfirst.2.1 h
  · exact hfirst.2.2 h

/-- The digits of a hexadecimal number at the front of a text. -/
def hexDigits (body : List Char) : List Char :=
  match body with
  | '0' :: x :: digits =>
      if x == 'x' || x == 'X' then digits.takeWhile fun c => (hexDigit? c).isSome else []
  | _ => []

theorem hexDigits_of_numerals (ht : Follows t) (hs : ∀ c ∈ s, isNumeral c = true) :
    hexDigits (s ++ t) = [] := by
  unfold hexDigits
  split
  · rename_i x digits heq
    rw [if_neg]
    intro hx
    -- The second character is a numeral, or follows the number.
    have hsecond : isNumeral x = true ∨ x = ',' ∨ x = '\n' := by
      cases s with
      | nil => rcases ht '0' (x :: digits) heq with h | h <;> cases h
      | cons c rest =>
          exact head_of_numerals ht (fun d hd => hs d (List.mem_cons_of_mem c hd))
            (List.cons.inj heq).2
    rcases Bool.or_eq_true_iff.mp hx with h | h
    all_goals
      rw [eq_of_beq h] at hsecond
      exact absurd hsecond (by decide)
  · rfl

/-- A number behind its sign. -/
theorem readNumber_eq (s : List Char) :
    readNumber s =
      match afterWord "Infinity" (exponentSign s).2, afterWord "NaN" (exponentSign s).2 with
      | some rest, _ => if (exponentSign s).1 == ['+'] then none else some (.null, rest)
      | _, some rest => if (exponentSign s).1 == ['+'] then none else some (.null, rest)
      | none, none =>
          if (hexDigits (exponentSign s).2).isEmpty then
            (takeDecimal (exponentSign s).2).bind fun p =>
              (decimalValue (exponentSign s).1 p.1).bind fun value => some (value, p.2)
          else
            (hexValue? (hexDigits (exponentSign s).2)).bind fun n =>
              if (exponentSign s).1.isEmpty && n < 0x100000000 then
                (Number.ofInt? n).map fun n =>
                  (.number n, (exponentSign s).2.drop ((hexDigits (exponentSign s).2).length + 2))
              else none := by
  cases s with
  | nil => rfl
  | cons c body =>
      by_cases hplus : c = '+'
      · subst hplus
        rfl
      · by_cases hminus : c = '-'
        · subst hminus
          rfl
        · have hsign : exponentSign (c :: body) = ([], c :: body) := by
            simp [exponentSign, hplus, hminus]
          rw [hsign]
          unfold readNumber
          split
          rename_i sign body' heq
          have hpair : (sign, body') = ([], c :: body) := by
            rw [← heq]
            split
            · rename_i h
              exact absurd (List.cons.inj h).1 hplus
            · rename_i h
              exact absurd (List.cons.inj h).1 hminus
            · rfl
          obtain ⟨rfl, rfl⟩ := Prod.mk.inj hpair
          rfl

/-- A text of numerals is no word and no hexadecimal number, so it is read as a decimal. -/
theorem readNumber_of_numerals (ht : Follows t) (hs : ∀ c ∈ s, isNumeral c = true) :
    readNumber (s ++ t) = (takeDecimal ((exponentSign s).2 ++ t)).bind fun p =>
      (decimalValue (exponentSign s).1 p.1).map fun value => (value, p.2) := by
  have hbody : ∀ c ∈ (exponentSign s).2, isNumeral c = true := fun c hc =>
    hs c ((exponentSign_suffix s).subset hc)
  rw [readNumber_eq, exponentSign_append ht, afterWord_of_numerals ht hbody (by rfl) (by decide),
    afterWord_of_numerals ht hbody (by rfl) (by decide), hexDigits_of_numerals ht hbody]
  show (takeDecimal _).bind _ = _
  congr 1
  funext p
  cases decimalValue (exponentSign s).1 p.1 <;> rfl

/-- What follows a number is left. -/
theorem readNumber_append (ht : Follows t) (hs : ∀ c ∈ s, isNumeral c = true) :
    readNumber (s ++ t) = (readNumber s).map fun p => (p.1, p.2 ++ t) := by
  have hbare := readNumber_of_numerals follows_nil hs
  rw [List.append_nil, List.append_nil] at hbare
  rw [readNumber_of_numerals ht hs, hbare, takeDecimal_append ht]
  cases takeDecimal (exponentSign s).2 with
  | none => rfl
  | some p =>
      show (decimalValue _ _).map _ = ((decimalValue _ _).map _).map _
      rw [Option.map_map]
      rfl

theorem readNumber_suffix (hs : ∀ c ∈ s, isNumeral c = true) {json : Json} {rest : List Char}
    (h : readNumber s = some (json, rest)) : rest <:+ s := by
  have hbare := readNumber_of_numerals follows_nil hs
  rw [List.append_nil, List.append_nil, h] at hbare
  obtain ⟨⟨written, rest'⟩, htake, hvalue⟩ := Option.bind_eq_some_iff.mp hbare.symm
  obtain ⟨value, -, heq⟩ := Option.map_eq_some_iff.mp hvalue
  rw [← (Prod.mk.inj heq).2]
  exact (takeDecimal_suffix htake).trans (exponentSign_suffix s)

/-! ## Blanks -/

/-- The character is neither a blank nor the start of a comment. -/
def Dark (c : Char) : Prop := isGap c = false ∧ c ≠ '/'

instance (c : Char) : Decidable (Dark c) := inferInstanceAs (Decidable (_ ∧ _))

theorem skip_cons_of_dark {c : Char} (hc : Dark c) (rest : List Char) :
    skip (c :: rest) = some (c :: rest) := by
  rw [skip, skipFrom, hc.1]
  · rfl
  · exact fun _ h => absurd h hc.2
  · exact fun _ h => absurd h hc.2

theorem skip_cons_of_gap {c : Char} (hgap : isGap c = true) (hslash : c ≠ '/')
    (rest : List Char) : skip (c :: rest) = skip rest := by
  rw [skip, skipFrom, hgap]
  · rfl
  · exact fun _ h => absurd h hslash
  · exact fun _ h => absurd h hslash

theorem skip_newline (depth : Nat) (s : List Char) : skip (newline depth ++ s) = skip s := by
  have hspaces : ∀ k, skip (List.replicate k ' ' ++ s) = skip s := by
    intro k
    induction k with
    | zero => rfl
    | succ k ih =>
        rw [List.replicate_succ, List.cons_append, skip_cons_of_gap (by decide) (by decide), ih]
  rw [newline, List.cons_append, skip_cons_of_gap (by decide) (by decide), hspaces]

/-- The characters of numbers. -/
def numerals : List Char :=
  ['0', '1', '2', '3', '4', '5', '6', '7', '8', '9', '.', '-', '+', 'e']

theorem mem_numerals {c : Char} (h : isNumeral c = true) : c ∈ numerals := by
  simp only [isNumeral, Bool.or_eq_true, beq_iff_eq] at h
  rcases h with (((hdigit | rfl) | rfl) | rfl) | rfl
  case inl =>
    have hrange : 48 ≤ c.toNat ∧ c.toNat ≤ 57 := by
      simp only [Char.isDigit, Bool.and_eq_true, decide_eq_true_eq] at hdigit
      exact hdigit
    obtain ⟨hlow, hhigh⟩ := hrange
    have hc : c = Char.ofNat c.toNat := (Char.ofNat_toNat c).symm
    generalize c.toNat = k at *
    subst hc
    interval_cases k <;> decide
  all_goals decide

theorem dark_of_isNumeral {c : Char} (h : isNumeral c = true) : Dark c := by
  have hall : (numerals.all fun c => decide (Dark c)) = true := by decide
  exact of_decide_eq_true (List.all_eq_true.mp hall c (mem_numerals h))

/-! ## Texts -/

/-- The character would end a line of a source, though it stands in a text as it is. -/
def isSeparator (c : Char) : Bool := c.toNat == 0x2028 || c.toNat == 0x2029

theorem hexValue?_hex4 : ∀ n < 0x20, (hex4 n).length = 4 ∧ hexValue? (hex4 n) = some n := by
  decide

theorem readString_escapedChar {c : Char} (hc : isSeparator c = false) (fuel : Nat)
    (rest : List Char) :
    readString '"' (fuel + 1) (escapedChar c ++ rest) =
      (readString '"' fuel rest).map fun p => (c :: p.1, p.2) := by
  have hcode : ∀ {k}, (c.toNat == k) = true → c = Char.ofNat k := fun hk => by
    rw [← eq_of_beq hk, Char.ofNat_toNat]
  unfold escapedChar
  split
  · rename_i hquoted
    rcases Bool.or_eq_true_iff.mp hquoted with h | h <;> rcases eq_of_beq h with rfl <;> rfl
  rename_i hplain
  split
  · rename_i h
    rcases hcode h with rfl
    rfl
  split
  · rename_i h
    rcases hcode h with rfl
    rfl
  split
  · rename_i h
    rcases eq_of_beq h with rfl
    rfl
  rename_i hfeed
  split
  · rename_i h
    rcases eq_of_beq h with rfl
    rfl
  rename_i hreturn
  split
  · rename_i h
    rcases eq_of_beq h with rfl
    rfl
  split
  · -- A control character is written with its code.
    rename_i hcontrol
    obtain ⟨hlength, hvalue⟩ := hexValue?_hex4 c.toNat hcontrol
    obtain ⟨a, b, d, e, hhex⟩ : ∃ a b d e, hex4 c.toNat = [a, b, d, e] := by
      match hex4 c.toNat, hlength with
      | [a, b, d, e], _ => exact ⟨a, b, d, e, rfl⟩
    rw [hhex] at hvalue ⊢
    have hunit : unicodeEscape? dropContinuations ([a, b, d, e] ++ rest) = some (c, rest) := by
      show (hexValue? [a, b, d, e]).bind _ = _
      rw [hvalue]
      show (if _ then _ else _) = _
      rw [if_neg (by simp; omega), if_neg (by simp; omega), Char.ofNat_toNat]
      rfl
    show (unicodeEscape? dropContinuations ([a, b, d, e] ++ rest)).bind _ = _
    rw [hunit]
    rfl
  · rw [Bool.or_eq_true_iff, not_or] at hplain
    have hquote : (c == '"') = false := Bool.eq_false_iff.mpr hplain.1
    have hslash : (c == '\\') = false := Bool.eq_false_iff.mpr hplain.2
    have hline : isLineEnd c = false := by
      rw [isLineEnd, Bool.eq_false_iff.mpr hfeed, Bool.eq_false_iff.mpr hreturn]
      exact hc
    have hne : c ≠ '\\' := beq_eq_false_iff_ne.mp hslash
    show readString '"' (fuel + 1) (c :: rest) = _
    rw [readString]
    · dsimp only
      rw [hquote, hline, hslash]
      rfl
    all_goals
      intros
      exact absurd (by assumption) hne

/-- An unescaped separator of lines is refused. -/
theorem readString_separator {c : Char} (hc : isSeparator c = true) (fuel : Nat)
    (rest : List Char) : readString '"' (fuel + 1) (escapedChar c ++ rest) = none := by
  have hcases : c = Char.ofNat 0x2028 ∨ c = Char.ofNat 0x2029 := by
    rcases Bool.or_eq_true_iff.mp hc with h | h
    · exact .inl (by rw [← eq_of_beq h, Char.ofNat_toNat])
    · exact .inr (by rw [← eq_of_beq h, Char.ofNat_toNat])
  rcases hcases with rfl | rfl <;> rfl

/-- A text without separators of lines is read up to its closing quote. -/
theorem readString_escaped {s : List Char} (hs : ∀ c ∈ s, isSeparator c = false) {fuel : Nat}
    (hfuel : s.length < fuel) (rest : List Char) :
    readString '"' fuel (s.flatMap escapedChar ++ '"' :: rest) = some (s, rest) := by
  induction s generalizing fuel with
  | nil =>
      obtain ⟨k, rfl⟩ := Nat.exists_eq_succ_of_ne_zero (Nat.ne_of_gt hfuel)
      rfl
  | cons c others ih =>
      obtain ⟨k, rfl⟩ := Nat.exists_eq_succ_of_ne_zero (Nat.ne_of_gt (Nat.zero_lt_of_lt hfuel))
      obtain ⟨hc, hothers⟩ := List.forall_mem_cons.mp hs
      rw [List.flatMap_cons, List.append_assoc, readString_escapedChar hc,
        ih hothers (Nat.lt_of_succ_lt_succ hfuel)]
      rfl

/-- What can be read has no separators of lines. -/
theorem isSeparator_of_readString {s : List Char} {fuel : Nat} {rest : List Char}
    {result : List Char × List Char}
    (h : readString '"' fuel (s.flatMap escapedChar ++ rest) = some result) :
    ∀ c ∈ s, isSeparator c = false := by
  induction s generalizing fuel result with
  | nil => exact fun c hc => absurd hc List.not_mem_nil
  | cons c others ih =>
      cases fuel with
      | zero => cases h
      | succ fuel =>
          rw [List.flatMap_cons, List.append_assoc] at h
          cases hc : isSeparator c with
          | true =>
              rw [readString_separator hc] at h
              cases h
          | false =>
              rw [readString_escapedChar hc] at h
              obtain ⟨inner, hinner, -⟩ := Option.map_eq_some_iff.mp h
              exact List.forall_mem_cons.mpr ⟨hc, ih hinner⟩

end Lenient

end Json

end ScriptTree
