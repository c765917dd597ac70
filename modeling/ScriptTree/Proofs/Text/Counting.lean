import ScriptTree.Proofs.Number.Exactness
import ScriptTree.Proofs.Place.Positions

/-!
# Texts count in characters

The methods of texts agree on what a position is: `indexOf` gives the least position at which
`substring` cuts the sought text out, whatever stands before it and inside it, and nothing is
found exactly where `contains` says so. Cutting a text at a position loses no character
(`Expr.texts_count_characters`). Expressions without names stand for the same value in every world,
so what the methods give is stated as the value that an expression is.
-/

set_option autoImplicit false

namespace ScriptTree

namespace Text

/-- A text stands at a position exactly where cutting out as many characters gives it. -/
theorem take_drop_eq_iff (needle s : List Char) (k : Nat) :
    (s.drop k).take needle.length = needle ↔ needle <+: s.drop k := by
  rw [List.prefix_iff_eq_take]
  exact eq_comm

/-- The position of a text in another one, and the characters there. -/
theorem take_drop_of_indexOf? {needle s : List Char} {k : Nat} (h : indexOf? needle s = some k) :
    (s.drop k).take needle.length = needle ∧ k + needle.length ≤ s.length ∧
      ∀ j < k, (s.drop j).take needle.length ≠ needle := by
  have hprefix : needle <+: s.drop k := List.isPrefixOf_iff_prefix.mp (indexOf?_isPrefixOf h)
  refine ⟨(take_drop_eq_iff needle s k).mpr hprefix, ?_, fun j hj heq => ?_⟩
  · have hfits := hprefix.length_le
    rw [List.length_drop] at hfits
    by_cases hk : k ≤ s.length
    · omega
    · -- Behind the end there is only the empty text, and that stands at the start already.
      have hempty : needle = [] := List.length_eq_zero_iff.mp (by omega)
      exact absurd (hempty ▸ List.nil_prefix) (not_prefix_of_lt_indexOf? h (j := 0) (by omega))
  · exact not_prefix_of_lt_indexOf? h hj ((take_drop_eq_iff needle s j).mp heq)

end Text

/-! ## Values of expressions without names -/

namespace Action

/-- Nodes that are held while nothing happens make no difference. -/
theorem holding_pure {α : Type} (nodes : List NodeId) (x : α) :
    holding nodes (pure x) = pure x := rfl

/-- Actions that only give a value differ where the values do. -/
theorem pure_injective {α : Type} : Function.Injective (pure : α → Action α) := by
  intro x y heq
  have hrun : (Outcome.done x, World.initial ⟨false, false, 0⟩ .empty) =
      (Outcome.done y, World.initial ⟨false, false, 0⟩ .empty) :=
    congrFun heq (World.initial ⟨false, false, 0⟩ .empty)
  injection hrun with houtcome
  injection houtcome

end Action

namespace Value

/-- The sum of two counts. -/
theorem binary_add_ofNat {a b : Nat} (h : a + b < 0x8000000000000000) (w : World) :
    w.binary .add (ofNat a) (ofNat b) = .ok (ofNat (a + b)) := by
  have hcount : ∀ {n : Nat}, n < 0x8000000000000000 → ∃ fits, Number.ofNat n = .integer n fits :=
    fun {n} hn => by
      have hmin : min (n : Int) 0xFFFFFFFFFFFFFFFF = n := by omega
      exact ⟨by omega, by simp only [Number.ofNat, hmin]⟩
  obtain ⟨ha, hA⟩ := hcount (n := a) (by omega)
  obtain ⟨hb, hB⟩ := hcount (n := b) (by omega)
  obtain ⟨hc, hC⟩ := hcount h
  have hsum : (Number.ofNat a).add (Number.ofNat b) = some (Number.ofNat (a + b)) := by
    rw [hA, hB, hC]
    exact Number.combine_of_fits _ (Number.fitsSigned_iff.mpr (by omega))
      (Number.fitsSigned_iff.mpr (by omega)) (by simp) (Number.fitsSigned_iff.mpr (by omega))
  show Except.ok (ofNumber? ((Number.ofNat a).add (Number.ofNat b))) = _
  rw [hsum]
  rfl

end Value

namespace Expr

variable {lang : Language} {c : Context} {e left right receiver : Expr} {arguments : List Expr}
  {values : List Value} {x y result : Value} {op : Operator} {method s : String}

/-- A literal before an argument that names nothing. -/
theorem evalAll_pair (i : Literal) (he : e.eval lang c = pure x) :
    evalAll lang c [.literal i, e] = pure [Value.ofLiteral i, x] := by
  have hnil : evalAll lang c [] = pure [] := by
    rw [evalAll]
  have hlast : evalAll lang c [e] = pure [x] := by
    rw [evalAll, he, Action.pure_bind, hnil, Action.holding_pure, Action.pure_bind]
  rw [evalAll, funext (eval_literal i)]
  show (pure (Value.ofLiteral i) >>= fun first : Value =>
    Action.holding first.nodes (evalAll lang c [e]) >>= fun rest => pure (first :: rest)) = _
  rw [Action.pure_bind, hlast, Action.holding_pure, Action.pure_bind]

theorem eval_binary (hleft : left.eval lang c = pure x) (hright : right.eval lang c = pure y)
    (hresult : ∀ w : World, w.binary op x y = .ok result) :
    (Expr.binary op left right).eval lang c = pure result := by
  have hcompute : (Action.inspect (·.binary op x y) >>= Action.ofFaulty) = pure result := by
    funext w
    rw [Action.inspect_bind_apply, hresult]
    rfl
  rw [eval, hleft, Action.pure_bind, hright, Action.pure_bind, hcompute, Action.holding_pure,
    Action.holding_pure]

/-- A method of a text whose arguments name nothing. -/
theorem eval_send_text (hreceiver : receiver.eval lang c = pure (.text s))
    (harguments : evalAll lang c arguments = pure values)
    (hresult : ∀ w : World, w.textMethod s.toList ⟨method, values⟩ = .ok result) :
    (Expr.send receiver method arguments).eval lang c = pure result := by
  have hcalled : Context.callMethod lang (.text s) ⟨method, values⟩ = pure (result, none) := by
    funext w
    rw [Context.callMethod, Action.inspect_bind_apply]
    show ((·, none) <$> Action.ofExcept (w.textMethod s.toList ⟨method, values⟩)) w = _
    rw [hresult]
    rfl
  rw [eval, harguments, Action.pure_bind, hreceiver, Action.pure_bind, hcalled, Action.pure_bind]
  rfl

/-- A text in a statement. -/
def ofText (s : String) : Expr := .literal (.text s)

/-- A position in a statement. -/
def position (k : Nat) : Expr := .literal (.number (.ofNat k))

/-- The length of an expression: `e.length`. -/
def length (e : Expr) : Expr := .member e "length"

/-- As many characters of a text as another one has, from a position on:
`s.substring(k, k + t.length)`. -/
def window (s t : String) (k : Nat) : Expr :=
  .send (ofText s) "substring" [position k, .binary .add (position k) (ofText t).length]

/-- What stands in front of a position: `s.substring(0, i)`. -/
def front (s : String) (i : Literal) : Expr :=
  .send (ofText s) "substring" [position 0, .literal i]

/-- What stands from a position on: `s.substring(i)`. -/
def behind (s : String) (i : Literal) : Expr := .send (ofText s) "substring" [.literal i]

theorem eval_ofText (s : String) : (ofText s).eval lang c = pure (.text s) :=
  funext (eval_literal (.text s))

theorem eval_position (k : Nat) : (position k).eval lang c = pure (.ofNat k) :=
  funext (eval_literal (.number (.ofNat k)))

theorem eval_length (he : e.eval lang c = pure (.text s)) :
    e.length.eval lang c = pure (.ofNat s.toList.length) := by
  rw [length, eval, he, Action.pure_bind]
  rfl

/-! ## Searching -/

/-- `contains` and `indexOf` agree on two texts, and a position that they give is the least one at
which the sought text is cut out. -/
structure Searches (lang : Language) (c : Context) (s t : String) : Prop where
  decided : ∃ found,
    (Expr.send (ofText s) "contains" [ofText t]).eval lang c = pure (.bool found)
  absent : (Expr.send (ofText s) "indexOf" [ofText t]).eval lang c = pure (.number .minusOne) ↔
    (Expr.send (ofText s) "contains" [ofText t]).eval lang c = pure (.bool false)
  least : (Expr.send (ofText s) "contains" [ofText t]).eval lang c = pure (.bool true) →
    ∃ k, (Expr.send (ofText s) "indexOf" [ofText t]).eval lang c = pure (.ofNat k) ∧
      (Expr.binary .eq (window s t k) (ofText t)).eval lang c = pure (.bool true) ∧
      ∀ j < k, (Expr.binary .eq (window s t j) (ofText t)).eval lang c = pure (.bool false)

variable {t : String}

theorem evalAll_ofText (t : String) : evalAll lang c [ofText t] = pure [.text t] :=
  funext (evalAll_literal (.text t))

theorem eval_contains (s t : String) :
    (Expr.send (ofText s) "contains" [ofText t]).eval lang c =
      pure (.bool (Text.containsText t.toList s.toList)) :=
  eval_send_text (eval_ofText s) (evalAll_ofText t) fun _ => rfl

theorem eval_indexOf (s t : String) :
    (Expr.send (ofText s) "indexOf" [ofText t]).eval lang c =
      pure (match Text.indexOf? t.toList s.toList with
        | some k => .ofNat k
        | none => .number .minusOne) :=
  eval_send_text (eval_ofText s) (evalAll_ofText t) fun _ => rfl

/-- The characters between two positions. -/
theorem substring_two {start stop : Value} {i j : Nat} (hi : start.index? = some i)
    (hj : stop.index? = some j) (w : World) (s : List Char) :
    w.textMethod s ⟨"substring", [start, stop]⟩ =
      .ok (.text (String.ofList ((s.drop i).take (j - i)))) := by
  have hstart : Call.index ⟨"substring", [start, stop]⟩ 0 = .ok i := by
    show (match start.index? with | some n => Except.ok n | none => _) = _
    rw [hi]
  have hstop : Call.index ⟨"substring", [start, stop]⟩ 1 = .ok j := by
    show (match stop.index? with | some n => Except.ok n | none => _) = _
    rw [hj]
  show (Call.index ⟨"substring", [start, stop]⟩ 0 >>= _) = _
  rw [hstart]
  show (Call.index ⟨"substring", [start, stop]⟩ 1 >>= _) = _
  rw [hstop]
  rfl

/-- The characters from a position on. -/
theorem substring_one {start : Value} {i : Nat} (hi : start.index? = some i) (w : World)
    (s : List Char) :
    w.textMethod s ⟨"substring", [start]⟩ = .ok (.text (String.ofList (s.drop i))) := by
  have hstart : Call.index ⟨"substring", [start]⟩ 0 = .ok i := by
    show (match start.index? with | some n => Except.ok n | none => _) = _
    rw [hi]
  show (Call.index ⟨"substring", [start]⟩ 0 >>= _) = _
  rw [hstart]
  rfl

theorem eval_window {k : Nat} (h : k + t.toList.length < 0x8000000000000000) :
    (window s t k).eval lang c =
      pure (.text (String.ofList ((s.toList.drop k).take t.toList.length))) := by
  have hstop : (Expr.binary .add (position k) (ofText t).length).eval lang c =
      pure (.ofNat (k + t.toList.length)) :=
    eval_binary (eval_position k) (eval_length (eval_ofText t)) (Value.binary_add_ofNat h)
  have hcut := substring_two (Value.index?_ofNat (i := k) (by omega)) (Value.index?_ofNat h)
  simp only [Nat.add_sub_cancel_left] at hcut
  exact eval_send_text (eval_ofText s)
    (evalAll_pair (.number (.ofNat k)) hstop) fun w => hcut w s.toList

/-- Whether what is cut out at a position is the sought text. -/
theorem eval_window_eq {k : Nat} (h : k + t.toList.length < 0x8000000000000000) :
    (Expr.binary .eq (window s t k) (ofText t)).eval lang c =
      pure (.bool (decide ((s.toList.drop k).take t.toList.length = t.toList))) := by
  refine eval_binary (eval_window h) (eval_ofText t) fun w => ?_
  show Except.ok (Value.bool (String.ofList ((s.toList.drop k).take t.toList.length) == t)) = _
  congr 2
  rw [Bool.eq_iff_iff, beq_iff_eq, decide_eq_true_iff, ← String.toList_inj, String.toList_ofList]

/-- No count is the answer of a search that finds nothing. -/
theorem ofNat_ne_minusOne (k : Nat) : Value.ofNat k ≠ .number .minusOne := by
  intro heq
  injection heq with hnumber
  injection hnumber with hinteger
  omega

theorem searches (lang : Language) (c : Context) {s t : String}
    (hs : s.toList.length < 0x8000000000000000) : Searches lang c s t := by
  have hcontains := @eval_contains lang c s t
  have hindex := @eval_indexOf lang c s t
  rw [Text.containsText] at hcontains
  cases hfound : Text.indexOf? t.toList s.toList with
  | none =>
      rw [hfound] at hcontains hindex
      refine ⟨⟨false, hcontains⟩, ⟨fun _ => hcontains, fun _ => hindex⟩, fun htrue => ?_⟩
      have heq : Value.bool false = .bool true :=
        Action.pure_injective (hcontains.symm.trans htrue)
      cases heq
  | some k =>
      rw [hfound] at hcontains hindex
      obtain ⟨hcut, hfits, hfirst⟩ := Text.take_drop_of_indexOf? hfound
      refine ⟨⟨true, hcontains⟩, ⟨fun hminus => ?_, fun hfalse => ?_⟩,
        fun _ => ⟨k, hindex, ?_, fun j hj => ?_⟩⟩
      · exact absurd (Action.pure_injective (hindex.symm.trans hminus)) (ofNat_ne_minusOne k)
      · have heq : Value.bool true = .bool false :=
          Action.pure_injective (hcontains.symm.trans hfalse)
        cases heq
      · rw [eval_window_eq (by omega), decide_eq_true hcut]
      · rw [eval_window_eq (by omega), decide_eq_false (hfirst j hj)]

/-! ## Cutting -/

/-- The two parts of a text at a position make up the text, and their lengths its length. -/
structure Cuts (lang : Language) (c : Context) (s : String) (i : Literal) : Prop where
  joined : (Expr.binary .add (front s i) (behind s i)).eval lang c = pure (.text s)
  lengths : (Expr.binary .add (front s i).length (behind s i).length).eval lang c =
    (ofText s).length.eval lang c

variable {i : Literal} {k : Nat}

theorem eval_front (s : String) (hk : (Value.ofLiteral i).index? = some k) :
    (front s i).eval lang c = pure (.text (String.ofList (s.toList.take k))) := by
  have hcut := substring_two (Value.index?_ofNat (i := 0) (by omega)) hk
  simp only [List.drop_zero, Nat.sub_zero] at hcut
  exact eval_send_text (eval_ofText s)
    (evalAll_pair (.number (.ofNat 0)) (funext (eval_literal i)))
    fun w => hcut w s.toList

theorem eval_behind (s : String) (hk : (Value.ofLiteral i).index? = some k) :
    (behind s i).eval lang c = pure (.text (String.ofList (s.toList.drop k))) :=
  eval_send_text (eval_ofText s) (funext (evalAll_literal i))
    fun w => substring_one hk w s.toList

theorem cuts (lang : Language) (c : Context) {s : String}
    (hs : s.toList.length < 0x8000000000000000) (hk : (Value.ofLiteral i).index? = some k) :
    Cuts lang c s i := by
  have hfront := @eval_front lang c i k s hk
  have hbehind := @eval_behind lang c i k s hk
  constructor
  · refine eval_binary hfront hbehind fun w => ?_
    show Except.ok (Value.text (String.ofList (s.toList.take k) ++
      String.ofList (s.toList.drop k))) = _
    rw [← String.ofList_append, List.take_append_drop, String.ofList_toList]
  · have hsum : (s.toList.take k).length + (s.toList.drop k).length = s.toList.length := by
      rw [← List.length_append, List.take_append_drop]
    rw [eval_length (eval_ofText s)]
    refine eval_binary (eval_length hfront) (eval_length hbehind) fun w => ?_
    rw [String.toList_ofList, String.toList_ofList, ← hsum]
    exact Value.binary_add_ofNat (by omega) w

/-- **Texts count in characters**: a search and a cut speak of the same positions, for every text
and everything sought in it, and a text may be cut wherever an index points, also behind its
end. The bound is what a text can have: no more than 2^63 - 1 bytes. -/
theorem texts_count_characters (lang : Language) (c : Context) (s t : String)
    (hs : s.toList.length < 0x8000000000000000) :
    Searches lang c s t ∧
      ∀ i : Literal, (Value.ofLiteral i).index?.isSome → Cuts lang c s i := by
  refine ⟨searches lang c hs, fun i hindex => ?_⟩
  obtain ⟨k, hk⟩ := Option.isSome_iff_exists.mp hindex
  exact cuts lang c hs hk

/-- A text with characters of one to four bytes, sought in and cut at the third of them. -/
theorem texts_count_characters_mixed :
    "aé€😀b".toList.length < 0x8000000000000000 ∧
      (Value.ofLiteral (.number (.ofNat 3))).index?.isSome ∧
      Searches (.ofFuel 0) ⟨⟨0⟩, none, ⟨0⟩, ⟨0⟩⟩ "aé€😀b" "😀" ∧
      Cuts (.ofFuel 0) ⟨⟨0⟩, none, ⟨0⟩, ⟨0⟩⟩ "aé€😀b" (.number (.ofNat 3)) := by
  have hs : "aé€😀b".toList.length < 0x8000000000000000 := by decide
  have hindex : (Value.ofLiteral (.number (.ofNat 3))).index?.isSome := by decide
  have hall := texts_count_characters (.ofFuel 0) ⟨⟨0⟩, none, ⟨0⟩, ⟨0⟩⟩ "aé€😀b" "😀" hs
  exact ⟨hs, hindex, hall.1, hall.2 _ hindex⟩

end Expr

end ScriptTree
