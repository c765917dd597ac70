import ScriptTree.Proofs.Expr.Spelling
import ScriptTree.Proofs.Load.Receipt
import ScriptTree.Proofs.Text.Parts

/-!
# Leaves of a document

Each leaf of a mapping has an element of a document that stands for it: texts, signed 64-bit
integers, truth values and null, by a kind and the text between the tags (`EntryKind.Stands`). What
is read from the element is the leaf (`EntryKind.Stands.read`), since integers are read back from
their digits (`Number.readInt64_toString`).
-/

set_option autoImplicit false

namespace ScriptTree.Number

/-- The value of digits behind a number. -/
def digitsFrom (v : Nat) (s : List Char) : Nat :=
  s.foldl (fun n c => 10 * n + (c.toNat - '0'.toNat)) v

theorem le_digitsFrom (v : Nat) (s : List Char) : v ≤ digitsFrom v s := by
  induction s generalizing v with
  | nil => exact Nat.le_refl v
  | cons c rest ih => exact Nat.le_trans (by omega) (ih (10 * v + (c.toNat - '0'.toNat)))

theorem readDigits_up (low high : Int) (hlow : low ≤ 0) {s : List Char}
    (hs : ∀ c ∈ s, c.isDigit = true) {v : Nat} (hhigh : (digitsFrom v s : Int) ≤ high) :
    readDigits low high false v s = .ok (digitsFrom v s) := by
  induction s generalizing v with
  | nil => rfl
  | cons c rest ih =>
      obtain ⟨hc, hrest⟩ := List.forall_mem_cons.mp hs
      have hnext := le_digitsFrom (10 * v + (c.toNat - '0'.toNat)) rest
      change (digitsFrom (10 * v + (c.toNat - '0'.toNat)) rest : Int) ≤ high at hhigh
      have hvalue : (10 * (v : Int) + ((c.toNat - '0'.toNat : Nat) : Int)) =
          ((10 * v + (c.toNat - '0'.toNat) : Nat) : Int) := by omega
      rw [readDigits, digit?, if_pos hc]
      simp only [Bool.false_eq_true, if_false]
      rw [hvalue, if_neg (by omega), if_neg (by omega)]
      exact ih hrest hhigh

theorem readDigits_down (low high : Int) (hhigh : 0 ≤ high) {s : List Char}
    (hs : ∀ c ∈ s, c.isDigit = true) {v : Nat} (hlow : low ≤ -(digitsFrom v s : Int)) :
    readDigits low high true (-v) s = .ok (-(digitsFrom v s)) := by
  induction s generalizing v with
  | nil => rfl
  | cons c rest ih =>
      obtain ⟨hc, hrest⟩ := List.forall_mem_cons.mp hs
      have hnext := le_digitsFrom (10 * v + (c.toNat - '0'.toNat)) rest
      change low ≤ -(digitsFrom (10 * v + (c.toNat - '0'.toNat)) rest : Int) at hlow
      have hvalue : (10 * -(v : Int) - ((c.toNat - '0'.toNat : Nat) : Int)) =
          -((10 * v + (c.toNat - '0'.toNat) : Nat) : Int) := by omega
      rw [readDigits, digit?, if_pos hc]
      simp only [if_true]
      rw [hvalue, if_neg (by omega), if_neg (by omega)]
      exact ih hrest hlow

/-- A signed 64-bit integer is read back from its text. -/
theorem readInt64_toString {i : Int} (h : fitsSigned i = true) :
    readInt64 (toString i).toList = .ok i := by
  rw [fitsSigned, decide_eq_true_eq] at h
  -- A text of digits behind a sign, or without one.
  have hdigits : ∀ n : Nat, ∀ d ∈ (toString n).toList, d.isDigit = true := fun n d =>
    Expr.isDigit_of_mem_toString
  have hvalue : ∀ n : Nat, digitsFrom 0 (toString n).toList = n := Expr.digitsValue_toString
  cases i with
  | ofNat n =>
      have hread := readDigits_up (-0x8000000000000000) 0x7FFFFFFFFFFFFFFF
        (by decide) (hdigits n) (v := 0) (by rw [hvalue]; show Int.ofNat n ≤ _; omega)
      rw [hvalue] at hread
      obtain ⟨c, others, hs, hc⟩ := Expr.exists_toString_eq_cons n
      show readInteger _ _ (toString n).toList = _
      rw [hs] at hread ⊢
      rw [readInteger]
      · exact hread
      · exact List.cons_ne_nil c others
      · rintro c' rest heq
        rw [(List.cons.inj heq).1] at hc
        exact absurd hc (by decide)
      · rintro c' rest heq
        rw [(List.cons.inj heq).1] at hc
        exact absurd hc (by decide)
  | negSucc n =>
      have hread := readDigits_down (-0x8000000000000000) 0x7FFFFFFFFFFFFFFF
        (by decide) (hdigits (n + 1)) (v := 0)
        (by rw [hvalue]; show _ ≤ Int.negSucc n; omega)
      rw [hvalue] at hread
      obtain ⟨c, others, hs, hc⟩ := Expr.exists_toString_eq_cons (n + 1)
      rw [Expr.toList_toString_negSucc, hs, readInt64, readInteger, if_pos (by decide), ← hs]
      exact hread

end ScriptTree.Number

namespace ScriptTree

theorem Number.trimmed_toString (i : Int) : Text.trimmed (toString i) = toString i := by
  have htrim : Text.trim (toString i).toList = (toString i).toList :=
    Text.trim_eq_self (fun _ hc => Expr.isBlank_of_mem_toString (List.mem_of_mem_head? hc))
      fun _ hc => Expr.isBlank_of_mem_toString (List.mem_of_getLast? hc)
  rw [Text.trimmed, htrim, String.ofList_toList]

/-- A number made of an integer is that integer. -/
theorem Number.signed?_ofInt? {i : Int} {n : Number} (h : Number.ofInt? i = some n)
    (hsigned : n.signed?.isSome = true) : Number.fitsSigned i = true := by
  rw [Number.ofInt?] at h
  split at h
  · cases h
    rw [Number.signed?] at hsigned
    split at hsigned
    · rename_i hfits
      exact hfits
    · cases hsigned
  · cases h

theorem Number.exists_ofInt?_of_signed? {n : Number} (h : n.signed?.isSome = true) :
    ∃ i, Number.ofInt? i = some n := by
  cases n with
  | integer i fits => exact ⟨i, dif_pos fits⟩
  | floating x finite => cases h

namespace EntryKind

/-- An element of the kind with the text between its tags stands for the leaf. -/
inductive Stands : EntryKind → String → Json → Prop
  | text (s : String) : Stands .text s (.text s)
  | long {i : Int} {n : Number} : Number.ofInt? i = some n → Stands .long (toString i) (.number n)
  | boolean (b : Bool) : Stands .boolean (if b then "true" else "false") (.bool b)
  | null : Stands .json "null" .null

theorem read_of_scalar {kind : EntryKind} (hexpression : kind ≠ .expression) (hjson : kind ≠ .json)
    {s : String} {value : Value} (h : kind.scalar (Text.trimmed s).toList = .ok value)
    (lang : Language) (n : NodeId) (w : World) :
    kind.read lang n s w = (.done value, w) := by
  rw [EntryKind.read]
  · rw [h]
    rfl
  · exact hexpression
  · exact hjson

/-- What is read from the element of a leaf is the leaf. -/
theorem Stands.read {kind : EntryKind} {s : String} {json : Json} (h : Stands kind s json)
    (hnested : json.Nested) (lang : Language) (n : NodeId) (w : World) :
    ∃ value, kind.read lang n s w = (.done value, w) ∧ ∀ v : World, v.Depicts json value [] := by
  cases h with
  | text s =>
      rw [Json.Nested] at hnested
      have hscalar : scalar .text (Text.trimmed s).toList = .ok (.text s) := by
        rw [scalar, hnested, String.ofList_toList]
      exact ⟨.text s, read_of_scalar (by decide) (by decide) hscalar lang n w, fun _ => .text s⟩
  | @long i number hnumber =>
      rw [Json.Nested] at hnested
      have hscalar : scalar .long (Text.trimmed (toString i)).toList = .ok (.number number) := by
        rw [scalar, Number.trimmed_toString,
          Number.readInt64_toString (Number.signed?_ofInt? hnumber hnested), integerValue, hnumber]
        rfl
      exact ⟨.number number, read_of_scalar (by decide) (by decide) hscalar lang n w,
        fun _ => .number number⟩
  | boolean b =>
      have hscalar : scalar .boolean (Text.trimmed (if b then "true" else "false")).toList =
          .ok (.bool b) := by
        cases b <;> rfl
      exact ⟨.bool b, read_of_scalar (by decide) (by decide) hscalar lang n w, fun _ => .bool b⟩
  | null =>
      have hread : Json.readLenient? (Text.trimmed "null") = some .null := rfl
      refine ⟨.null, ?_, fun _ => .null⟩
      rw [EntryKind.read, hread]
      rfl

/-- A leaf has no nodes. -/
theorem Stands.nodes_eq_nil {kind : EntryKind} {s : String} {json : Json} {value : Value}
    {w : World} (h : Stands kind s json) (hnested : json.Nested) (hvalue : w.Depicts json value []) :
    value.nodes = [] := by
  refine (hvalue.leaf_eq hnested (fun members heq => ?_) hvalue).2.2.2
  rw [heq] at h
  cases h

end EntryKind

end ScriptTree
