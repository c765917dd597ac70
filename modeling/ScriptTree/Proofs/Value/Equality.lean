import ScriptTree.Proofs.Number.Comparison
import ScriptTree.World.Text

/-!
# Equality of values

Equality reads less of a value than there is: of a number the value of its double, of a failure the
sentence that reports it. `Value.look` keeps just that, at any depth of lists, and two values are
equal exactly when they look alike and the integers that stand in one place of both are the same
(`Value.same_iff`).

The second half is a relation between two values and no property of each, so equality is reflexive
and symmetric but carries over a value in the middle only as far as the integers of the outer two
agree (`World.same_equivalence`). Where every integer is a double, as all up to `2 ^ 53` are, they
always do, and equality is an equivalence relation. Past that, a floating number equals each of the
integers that round to it, and these do not equal each other (`World.same_not_transitive`).
-/

set_option autoImplicit false

namespace ScriptTree

/-- What equality reads of a value. -/
inductive Value.Look where
  | null
  | bool (b : Bool)
  /-- The value of the number's double, in units of the least positive double. -/
  | number (worth : Int)
  | text (s : String)
  | date (d : Time.Date)
  | dateTime (t : Time.DateTime)
  | duration (d : Time.Duration)
  | list (items : List Value.Look)
  | node (id : NodeId)
  /-- The sentence that reports the failure. -/
  | failure (message : String)

mutual

/-- What equality reads of this value. -/
def Value.look (r : Rendering) : Value → Value.Look
  | .null => .null
  | .bool b => .bool b
  | .number n => .number n.worth
  | .text s => .text s
  | .date d => .date d
  | .dateTime t => .dateTime t
  | .duration d => .duration d
  | .list items => .list (Value.looks r items)
  | .node id => .node id
  | .failure cause => .failure (cause.message r)

/-- What equality reads of the values of a list. -/
def Value.looks (r : Rendering) : List Value → List Value.Look
  | [] => []
  | v :: rest => v.look r :: Value.looks r rest

end

mutual

/-- The integers that stand in one place of both values are the same. -/
def Value.Agrees : Value → Value → Prop
  | .number a, .number b => a.Agrees b
  | .list as, .list bs => Value.AllAgree as bs
  | _, _ => True

/-- The integers that stand in one place of both lists are the same. -/
def Value.AllAgree : List Value → List Value → Prop
  | a :: as, b :: bs => a.Agrees b ∧ Value.AllAgree as bs
  | _, _ => True

end

mutual

/-- The integers of the value, at any depth of lists, are doubles. -/
def Value.IsExact : Value → Prop
  | .number n => n.IsExact
  | .list items => Value.AllExact items
  | _ => True

/-- The integers of the values of a list are doubles. -/
def Value.AllExact : List Value → Prop
  | [] => True
  | v :: rest => v.IsExact ∧ Value.AllExact rest

end

namespace Number

variable {a b : Number}

theorem agrees_refl (a : Number) : a.Agrees a := by
  cases a with
  | integer n _ => exact rfl
  | floating _ _ => exact trivial

theorem agrees_symm (h : a.Agrees b) : b.Agrees a := by
  cases a with
  | integer m _ =>
      cases b with
      | integer n _ => exact Eq.symm h
      | floating _ _ => exact trivial
  | floating _ _ =>
      cases b with
      | integer n _ => exact trivial
      | floating _ _ => exact trivial

/-- Integers that are doubles are the same when their doubles are. -/
theorem agrees_of_worth (ha : a.IsExact) (hb : b.IsExact) (h : a.worth = b.worth) :
    a.Agrees b := by
  cases a with
  | integer m _ =>
      cases b with
      | integer n _ =>
          have hpos : (Double.unitsOfOne : Int) ≠ 0 :=
            Int.ne_of_gt (Int.natCast_pos.mpr Double.unitsOfOne_pos)
          rw [worth_integer, worth_integer] at h
          calc
            m = Double.nearest m := ha.symm
            _ = Double.nearest n := Int.eq_of_mul_eq_mul_right hpos h
            _ = n := hb
      | floating _ _ => exact trivial
  | floating _ _ => exact trivial

end Number

namespace Value

variable {r : Rendering}

mutual

/-- Values are equal when they look alike and their integers agree. -/
theorem same_iff (a b : Value) : a.same r b = true ↔ a.look r = b.look r ∧ a.Agrees b := by
  cases a <;> cases b
  case number.number x y => simp only [same, look, Agrees, Number.same_iff, Look.number.injEq]
  case list.list as bs => simp only [same, look, Agrees, allSame_iff as bs, Look.list.injEq]
  -- Values of one other kind are equal when their parts are, and values of two kinds never.
  all_goals simp [same, look, Agrees]
  termination_by sizeOf a

theorem allSame_iff : ∀ as bs : List Value,
    allSame r as bs = true ↔ looks r as = looks r bs ∧ AllAgree as bs
  | [], [] => by simp [allSame, looks, AllAgree]
  | [], _ :: _ => by simp [allSame, looks]
  | _ :: _, [] => by simp [allSame, looks]
  | a :: as, b :: bs => by
      rw [allSame, Bool.and_eq_true, same_iff a b, allSame_iff as bs, looks, looks, AllAgree,
        List.cons_eq_cons]
      constructor
      · rintro ⟨⟨hlook, hagree⟩, hlooks, hagrees⟩
        exact ⟨⟨hlook, hlooks⟩, hagree, hagrees⟩
      · rintro ⟨⟨hlook, hlooks⟩, hagree, hagrees⟩
        exact ⟨⟨hlook, hagree⟩, hlooks, hagrees⟩
  termination_by as => sizeOf as

end

mutual

theorem agrees_refl (v : Value) : v.Agrees v := by
  cases v with
  | number n => exact n.agrees_refl
  | list items => exact allAgree_refl items
  | _ => exact trivial
  termination_by sizeOf v

theorem allAgree_refl : ∀ items : List Value, AllAgree items items
  | [] => trivial
  | v :: rest => ⟨agrees_refl v, allAgree_refl rest⟩
  termination_by items => sizeOf items

end

mutual

theorem agrees_symm {a b : Value} (h : a.Agrees b) : b.Agrees a := by
  cases a <;> cases b
  case number.number x y => exact Number.agrees_symm h
  case list.list as bs => exact allAgree_symm h
  all_goals exact trivial
  termination_by sizeOf a

theorem allAgree_symm : ∀ {as bs : List Value}, AllAgree as bs → AllAgree bs as
  | [], [], _ => trivial
  | [], _ :: _, _ => trivial
  | _ :: _, [], _ => trivial
  | _ :: _, _ :: _, h => ⟨agrees_symm h.1, allAgree_symm h.2⟩
  termination_by as => sizeOf as

end

mutual

/-- Values whose integers are doubles agree when they look alike. -/
theorem agrees_of_look {a b : Value} (ha : a.IsExact) (hb : b.IsExact)
    (h : a.look r = b.look r) : a.Agrees b := by
  cases a <;> cases b
  case number.number x y =>
    simp only [look, Look.number.injEq] at h
    exact Number.agrees_of_worth ha hb h
  case list.list as bs =>
    simp only [look, Look.list.injEq] at h
    exact allAgree_of_looks ha hb h
  all_goals exact trivial
  termination_by sizeOf a

theorem allAgree_of_looks : ∀ {as bs : List Value}, AllExact as → AllExact bs →
    looks r as = looks r bs → AllAgree as bs
  | [], _, _, _, _ => by
      simp only [AllAgree]
  | _ :: _, [], _, _, _ => trivial
  | _ :: _, _ :: _, ha, hb, h => by
      rw [looks, looks, List.cons_eq_cons] at h
      exact ⟨agrees_of_look ha.1 hb.1 h.1, allAgree_of_looks ha.2 hb.2 h.2⟩
  termination_by as => sizeOf as

end

/-- Among values whose integers are doubles, the equal ones are those that look alike. -/
theorem same_iff_look {a b : Value} (ha : a.IsExact) (hb : b.IsExact) :
    a.same r b = true ↔ a.look r = b.look r := by
  rw [same_iff]
  exact ⟨And.left, fun h => ⟨h, agrees_of_look ha hb h⟩⟩

end Value

namespace World

/-- Equality of values is reflexive and symmetric. Two values that equal a third look alike, and
they are equal exactly when their integers agree. So equality is an equivalence relation on the
values whose integers are doubles. -/
theorem same_equivalence (w : World) :
    (∀ v, w.same v v = true) ∧ (∀ u v, w.same u v = w.same v u) ∧
      (∀ u v t, w.same u v = true → w.same v t = true → (w.same u t = true ↔ u.Agrees t)) ∧
      Equivalence fun u v : {v : Value // v.IsExact} => w.same u.1 v.1 = true := by
  have hrefl : ∀ v, w.same v v = true := fun v => (Value.same_iff v v).mpr ⟨rfl, v.agrees_refl⟩
  have hsymm : ∀ {u v}, w.same u v = true → w.same v u = true := by
    intro u v h
    obtain ⟨hlook, hagree⟩ := (Value.same_iff u v).mp h
    exact (Value.same_iff v u).mpr ⟨hlook.symm, Value.agrees_symm hagree⟩
  -- The looks carry over the value in the middle; the agreement of integers is all that may not.
  have hcross : ∀ u v t, w.same u v = true → w.same v t = true →
      (w.same u t = true ↔ u.Agrees t) := by
    intro u v t huv hvt
    have hlook := ((Value.same_iff u v).mp huv).1.trans ((Value.same_iff v t).mp hvt).1
    exact (Value.same_iff u t).trans ⟨And.right, fun h => ⟨hlook, h⟩⟩
  refine ⟨hrefl, fun u v => Bool.eq_iff_iff.mpr ⟨hsymm, hsymm⟩, hcross, ?_⟩
  refine ⟨fun v => hrefl v.1, hsymm, ?_⟩
  intro u v t huv hvt
  have huv := (Value.same_iff_look u.2 v.2).mp huv
  have hvt := (Value.same_iff_look v.2 t.2).mp hvt
  exact (Value.same_iff_look u.2 t.2).mpr (huv.trans hvt)

/-- Zeros of three kinds, each next to an integer that is a double: the middle one carries
equality over, since the outer two are values whose integers are doubles. -/
theorem same_zeros :
    plain.same (.list [Value.ofNat 0, Value.ofNat 9007199254740994])
        (.list [.number (.floating (-0.0) (by decide)), Value.ofNat 9007199254740994]) = true ∧
      plain.same (.list [.number (.floating (-0.0) (by decide)), Value.ofNat 9007199254740994])
        (.list [.number (.floating 0.0 (by decide)),
          .number (.floating 9007199254740994.0 (by decide))]) = true ∧
      plain.same (.list [Value.ofNat 0, Value.ofNat 9007199254740994])
        (.list [.number (.floating 0.0 (by decide)),
          .number (.floating 9007199254740994.0 (by decide))]) = true := by
  have hequivalence := (same_equivalence plain).2.2.2
  have hfirst : Value.IsExact (.list [Value.ofNat 0, Value.ofNat 9007199254740994]) :=
    ⟨Double.nearest_eq_self (by decide), rfl, trivial⟩
  have hmiddle : Value.IsExact
      (.list [.number (.floating (-0.0) (by decide)), Value.ofNat 9007199254740994]) :=
    ⟨trivial, rfl, trivial⟩
  have hlast : Value.IsExact (.list [.number (.floating 0.0 (by decide)),
      .number (.floating 9007199254740994.0 (by decide))]) :=
    ⟨trivial, trivial, trivial⟩
  have hstart : plain.same (.list [Value.ofNat 0, Value.ofNat 9007199254740994])
      (.list [.number (.floating (-0.0) (by decide)), Value.ofNat 9007199254740994]) = true := by
    decide
  have hrest : plain.same
      (.list [.number (.floating (-0.0) (by decide)), Value.ofNat 9007199254740994])
      (.list [.number (.floating 0.0 (by decide)),
        .number (.floating 9007199254740994.0 (by decide))]) = true := by
    decide
  refine ⟨hstart, hrest, ?_⟩
  exact hequivalence.trans (x := ⟨_, hfirst⟩) (y := ⟨_, hmiddle⟩) (z := ⟨_, hlast⟩) hstart hrest

/-- The floating number equals both of the integers that round to it, and these differ. -/
theorem same_not_transitive :
    plain.same (Value.ofNat 9007199254740993)
        (.number (.floating 9007199254740992.0 (by decide))) = true ∧
      plain.same (.number (.floating 9007199254740992.0 (by decide)))
        (Value.ofNat 9007199254740992) = true ∧
      plain.same (Value.ofNat 9007199254740993) (Value.ofNat 9007199254740992) = false ∧
      ¬ Equivalence fun u v : Value => plain.same u v = true := by
  refine ⟨by decide, by decide, by decide, fun hequivalence => ?_⟩
  have hsame : plain.same (Value.ofNat 9007199254740993) (Value.ofNat 9007199254740992) = true :=
    hequivalence.trans (y := .number (.floating 9007199254740992.0 (by decide)))
      (by decide) (by decide)
  exact absurd hsame (by decide)

end World

end ScriptTree
