import ScriptTree.Proofs.Load.Leaves
import ScriptTree.Proofs.Place.Slots
import ScriptTree.Proofs.Place.Update
import ScriptTree.Proofs.Reading.Dotted

/-!
# Two spellings of an item

The item of a list at a position is written with the position behind a point (`Expr.pointed`) or
between brackets (`Expr.bracketed`). Both read the same item, and a statement that has nothing to
store there does the same with either of them (`Change.on_positions`). As places they differ: what
is stored between brackets goes into the list around the item, and a point takes nothing, so an
assignment behind it fails, and so does a method that has changed the item (`add_behind_point`).
-/

set_option autoImplicit false

namespace ScriptTree

/-! ## Positions as texts and as numbers -/

/-- A natural number of 64 bits is read back from its digits. -/
theorem Number.readUnsigned64_toString {n : Nat} (h : n < 0x10000000000000000) :
    readUnsigned64 (toString n).toList = .ok n := by
  have hdigits : ∀ d ∈ (toString n).toList, d.isDigit = true := fun d =>
    Expr.isDigit_of_mem_toString
  have hvalue : digitsFrom 0 (toString n).toList = n := Expr.digitsValue_toString n
  have hread := readDigits_up 0 0xFFFFFFFFFFFFFFFF (by decide) hdigits (v := 0)
    (by rw [hvalue]; omega)
  rw [hvalue] at hread
  obtain ⟨c, others, hs, hc⟩ := Expr.exists_toString_eq_cons n
  rw [hs] at hread ⊢
  rw [readUnsigned64, readInteger]
  · exact hread
  · exact List.cons_ne_nil c others
  · rintro c' rest heq
    rw [(List.cons.inj heq).1] at hc
    exact absurd hc (by decide)
  · rintro c' rest heq
    rw [(List.cons.inj heq).1] at hc
    exact absurd hc (by decide)

namespace Value

theorem index?_ofNat {i : Nat} (h : i < 0x8000000000000000) : (ofNat i).index? = some i := by
  have hmin : min (i : Int) 0xFFFFFFFFFFFFFFFF = i := by omega
  have hfits : Number.fitsSigned (i : Int) = true := by
    rw [Number.fitsSigned, decide_eq_true_eq]
    omega
  simp [ofNat, Number.ofNat, index?, Number.signed?, hmin, hfits]

theorem index?_toString {i : Nat} (h : i < 0x10000000000000000) :
    (text (toString i)).index? = some i := by
  have htrim : Text.trim (toString i).toList = (toString i).toList :=
    Text.trim_eq_self (fun _ hc => Expr.isBlank_of_isDigit
      (Expr.isDigit_of_mem_toString (List.mem_of_mem_head? hc)))
      fun _ hc => Expr.isBlank_of_isDigit (Expr.isDigit_of_mem_toString (List.mem_of_getLast? hc))
  rw [index?, htrim, Number.readUnsigned64_toString h]
  simp

/-- A position is the name of no size. -/
theorem toString_ne_of_head {i : Nat} {s : String} {c : Char} (hs : s.toList.head? = some c)
    (hc : c.isDigit = false) : toString i ≠ s := by
  rintro rfl
  obtain ⟨d, others, hd, hdigit⟩ := Expr.exists_toString_eq_cons i
  rw [hd] at hs
  obtain rfl := Option.some.inj hs
  rw [hdigit] at hc
  cases hc

theorem member_toString (lang : Language) {i : Nat} (h : i < 0x8000000000000000)
    (items : List Value) :
    (Value.list items).member lang (toString i) = pure (items[i]?.getD .null) := by
  have hlength : toString i ≠ "length" := toString_ne_of_head (c := 'l') (by decide) (by decide)
  have hsize : toString i ≠ "size" := toString_ne_of_head (c := 's') (by decide) (by decide)
  have hposition : (Value.text (toString i)).index? = some i := index?_toString (by omega)
  rw [member, if_neg (by simp only [hlength, hsize, or_self, not_false_eq_true]), hposition, itemAt,
    Option.bind_some]

theorem part_ofNat (lang : Language) {i : Nat} (h : i < 0x8000000000000000)
    (items : List Value) :
    (Value.list items).part lang (ofNat i) = pure (items[i]?.getD .null) := by
  simp [part, index?_ofNat h, itemAt]

end Value

/-! ## Reading -/

namespace Expr

/-- The item of a list with the position behind a point. -/
def pointed (place : Expr) (i : Nat) : Expr := .member place (toString i)

/-- The item of a list with the position between brackets. -/
def bracketed (place : Expr) (i : Nat) : Expr :=
  .index place (.literal (.number (Number.ofNat i)))

variable {lang : Language} {c : Context} {w w' : World} {place : Expr} {rows : List Value} {i : Nat}

theorem eval_pointed (hi : i < 0x8000000000000000)
    (h : place.eval lang c w = (.done (.list rows), w')) :
    (place.pointed i).eval lang c w = (.done (rows[i]?.getD .null), w') := by
  rw [pointed, eval]
  refine (Action.bind_done h).trans (Action.holding_of_hold ?_ rfl)
  rw [Value.member_toString lang hi]
  rfl

theorem eval_bracketed (hi : i < 0x8000000000000000)
    (h : place.eval lang c w = (.done (.list rows), w')) :
    (place.bracketed i).eval lang c w = (.done (rows[i]?.getD .null), w') := by
  rw [bracketed, eval]
  refine (Action.bind_done h).trans (Action.holding_of_hold ?_ rfl)
  refine (Action.bind_done (eval_literal _ _)).trans (Action.holding_of_hold ?_ rfl)
  rw [show Value.ofLiteral (.number (Number.ofNat i)) = Value.ofNat i from rfl,
    Value.part_ofNat lang hi]
  rfl

/-- The item at a position of a list that a path leads to. -/
theorem Found.bracketed {x : Value} {read : List (NodeId × String)} {path : List Nat}
    (h : Found c w place (.list rows) read path) (hi : i < 0x8000000000000000)
    (hx : rows[i]? = some x) : Found c w (place.bracketed i) x read (path ++ [i]) :=
  .item h (Value.index?_ofNat hi) hx

/-! ## Storing -/

/-- Nothing can be stored to a pointed position of a list. -/
theorem writeBack_pointed (h : place.eval lang c w = (.done (.list rows), w')) (value : Value) :
    writeBack lang c value (place.pointed i) w =
      (.failed (.script (.notAssignable (toString i ++ " of list"))), w') := by
  rw [pointed, writeBack]
  refine (Action.bind_done h).trans (Action.holding_of_hold ?_ rfl)
  show Action.fault (.notAssignable (toString i ++ " of " ++ "list")) _ = _
  rw [String.append_assoc]
  rfl

/-- A value stored to a bracketed position of the list at a path goes into the list, if the list has
the position. -/
theorem Found.writeBack_bracketed {n : NodeId} {key : String} {outer : Value}
    {read : List (NodeId × String)} {path : List Nat} {nodes : List NodeId}
    (h : Found c w place (.list rows) ((n, key) :: read) path)
    (houter : w.getRaw n key = some outer) (hclosed : w.Closed) (hc : c.Alive w)
    (hnodes : ∀ m ∈ nodes, w.alive m = true) (hi : i < 0x8000000000000000) (value : Value) :
    Expr.writeBack lang c value (place.bracketed i) (w.hold nodes) =
      if i < rows.length then
        (.done (), (w.set n key (Value.replaceAt (.list (rows.set i value)) path outer)).hold nodes)
      else (.failed (.script (.notAssignable ("index " ++ toString i))), w.hold nodes) := by
  have hposition : (Value.ofLiteral (.number (Number.ofNat i))).index? = some i :=
    Value.index?_ofNat hi
  have hread : place.eval lang c (w.hold nodes) = (.done (.list rows), w.hold nodes) :=
    (h.hold hnodes).eval rfl
  split
  · rename_i hlt
    have hrows := h.alive hclosed hc
    have hall : ∀ m ∈ (Value.list rows).nodes ++ nodes, w.alive m = true := by
      intro m hm
      exact (List.mem_append.mp hm).elim (hrows m) (hnodes m)
    refine writeBack_index_literal hread ?_ rfl
    rw [storeItem, Action.inspect_bind_apply]
    dsimp only
    rw [hposition, Option.filter_some, decide_eq_true hlt, if_pos rfl, World.hold_hold,
      World.hold_hold]
    exact h.writeBack houter hclosed hc hall _
  · rename_i hge
    have hkey : Literal.asKey (.number (Number.ofNat i)) = toString i := by
      have hmin : min (i : Int) 0xFFFFFFFFFFFFFFFF = i := by omega
      rw [Literal.asKey, Number.ofNat, Number.text, hmin]
      rfl
    refine writeBack_index_literal hread ?_ rfl
    rw [storeItem, Action.inspect_bind_apply, World.text_ofLiteral, hkey]
    dsimp only
    rw [hposition, Option.filter_some, decide_eq_false hge]
    rfl

end Expr

/-! ## Statements -/

namespace Change

variable {lang : Language} {c : Context} {w w₁ : World} {place : Expr} {rows : List Value}
  {change : Change} {result item : Value} {i : Nat}

/-- Where the statement comes to the place after its operands, the place is a list. -/
def OnList (lang : Language) (c : Context) (place : Expr) (w : World) : Change → Prop
  | assign value => ∀ x w₁, value.eval lang c w = (.done x, w₁) →
      ∃ rows w₂, place.eval lang c (w₁.hold x.nodes) = (.done (.list rows), w₂)
  | send _ arguments => ∀ values w₁, Expr.evalAll lang c arguments w = (.done values, w₁) →
      ∃ rows w₂, place.eval lang c (w₁.hold (Value.allNodes values)) = (.done (.list rows), w₂)

/-- The statement has something to store at the place, and `result` is its value once that is done:
`item` is a value that is assigned, or the list that a method has changed. The operands leave the
world `w₁`, and their nodes are held from then on. -/
inductive Stores (lang : Language) (c : Context) (place : Expr) (w : World) :
    Change → (result item : Value) → World → List NodeId → Prop
  | assign {value : Expr} {x : Value} {w₁ : World} (operand : value.eval lang c w = (.done x, w₁)) :
      Stores lang c place w (.assign value) x x w₁ x.nodes
  | send {method : String} {arguments : List Expr} {values : List Value} {w₁ w₂ w₃ : World}
      {target value : Value} {items : List Value}
      (operands : Expr.evalAll lang c arguments w = (.done values, w₁))
      (receiver : place.eval lang c (w₁.hold (Value.allNodes values)) = (.done target, w₂))
      (changes : Context.callMethod lang target ⟨method, values⟩ (w₂.hold target.nodes) =
        (.done (value, some items), w₃)) :
      Stores lang c place w (.send method arguments) value (.list items) w₁
        (Value.allNodes values)

/-- A statement that has nothing to store does the same with either spelling. -/
theorem on_pointed_eq_of_not_stores (hi : i < 0x8000000000000000)
    (hlist : change.OnList lang c place w)
    (hstores : ∀ result item w₁ nodes,
      ¬ change.Stores lang c (place.bracketed i) w result item w₁ nodes) :
    (change.on (place.pointed i)).eval lang c w =
      (change.on (place.bracketed i)).eval lang c w := by
  cases change with
  | assign value =>
      -- The value itself has to fail, before the place counts.
      rw [on, on, Expr.eval_assign, Expr.eval_assign, Action.bind_apply, Action.bind_apply]
      rcases hvalue : value.eval lang c w with ⟨x | cause | _, w₁⟩
      · exact absurd (.assign hvalue) (hstores x x w₁ x.nodes)
      · rfl
      · rfl
  | send method arguments =>
      rw [on, on, Expr.eval_send, Expr.eval_send, Action.bind_apply, Action.bind_apply]
      rcases harguments : Expr.evalAll lang c arguments w with ⟨values | cause | _, w₁⟩
      case failed => rfl
      case exhausted => rfl
      obtain ⟨rows, w₂, hplace⟩ := hlist values w₁ harguments
      have hpointed := Expr.eval_pointed hi hplace
      have hbracketed := Expr.eval_bracketed hi hplace
      generalize rows[i]?.getD .null = item at hpointed hbracketed
      apply Action.holding_congr
      rw [Action.bind_done hpointed, Action.bind_done hbracketed]
      apply Action.holding_congr
      rw [Action.bind_apply, Action.bind_apply]
      rcases hcall : Context.callMethod lang item ⟨method, values⟩ (w₂.hold item.nodes) with
        ⟨⟨value, _ | items⟩ | cause | _, w₃⟩
      · rfl
      · exact absurd (.send harguments hbracketed hcall) (hstores value _ w₁ _)
      · rfl
      · rfl

/-- A list that a method changes is an item of the list around it. -/
theorem item_of_receiver {target : Value} {w₂ : World} {items : List Value}
    (hi : i < 0x8000000000000000) (hplace : place.eval lang c w = (.done (.list rows), w))
    (receiver : (place.bracketed i).eval lang c w = (.done target, w₂))
    (hlist : target = .list items) : w₂ = w ∧ rows[i]? = some (.list items) := by
  have hread := (Expr.eval_bracketed hi hplace).symm.trans receiver
  obtain ⟨hvalue, rfl⟩ := Prod.mk.inj hread
  have htarget : rows[i]?.getD .null = .list items := (Outcome.done.inj hvalue).trans hlist
  refine ⟨rfl, ?_⟩
  cases hitem : rows[i]? with
  | none =>
      rw [hitem] at htarget
      cases htarget
  | some y =>
      rw [hitem] at htarget
      exact congrArg some htarget

/-- With either spelling the statement ends as the storing does: of the same item, in the world that
the operands leave, while nodes are held that are alive anyway. -/
theorem Stores.exists_stored {nodes : List NodeId} {read : List (NodeId × String)}
    {path : List Nat} (h : change.Stores lang c (place.bracketed i) w result item w₁ nodes)
    (hi : i < 0x8000000000000000)
    (hfound : Expr.Found c (w₁.hold nodes) place (.list rows) read path)
    (hclosed : (w₁.hold nodes).Closed) (hc : c.Alive (w₁.hold nodes)) :
    ∃ more, (∀ m ∈ more, (w₁.hold nodes).alive m = true) ∧
      ∀ spelling, spelling = place.pointed i ∨ spelling = place.bracketed i →
        ∀ (outcome : Outcome Unit) (w' : World), w'.held = w₁.held →
          Expr.writeBack lang c item spelling ((w₁.hold nodes).hold more) =
            (outcome, (w'.hold nodes).hold more) →
          (change.on spelling).eval lang c w = (outcome.map fun _ => result, w') := by
  cases h with
  | @assign value _ _ operand =>
      refine ⟨[], List.forall_mem_nil _, ?_⟩
      intro spelling hspelling outcome w' hheld hwrite
      have hstore : Action.holding result.nodes (Expr.writeBack lang c result spelling) w₁ =
          (outcome, w') := Action.holding_of_hold hwrite hheld
      have hassigned : Expr.storeAssigned lang c spelling result =
          (Action.holding result.nodes (Expr.writeBack lang c result spelling) >>=
            fun _ => pure result) := by
        rcases hspelling with rfl | rfl <;> rfl
      rw [on, Expr.eval_assign]
      refine (Action.bind_done operand).trans ?_
      rw [hassigned, Action.bind_apply, hstore]
      cases outcome <;> rfl
  | @send method arguments values _ w₂ w₃ target _ items operands receiver changes =>
      obtain ⟨rfl, before, hlist, hvalue⟩ := Context.callMethod_eq_changed changes
      obtain ⟨rfl, hitem⟩ := item_of_receiver hi (hfound.eval rfl) receiver hlist
      subst hlist
      have hitems := (hfound.bracketed hi hitem).alive hclosed hc
      refine ⟨result.nodes ++ (Value.list before).nodes, ?_, ?_⟩
      · intro m hm
        exact (List.mem_append.mp hm).elim (fun hm => hitems m (hvalue m hm)) (hitems m)
      · intro spelling hspelling outcome w' hheld hwrite
        have hread : spelling.eval lang c (w₁.hold (Value.allNodes values)) =
            (.done (.list before), w₁.hold (Value.allNodes values)) := by
          rcases hspelling with rfl | rfl
          · rw [Expr.eval_pointed hi (hfound.eval rfl), hitem]
            rfl
          · exact receiver
        rw [← World.hold_hold, ← World.hold_hold] at hwrite
        have hargs : (w'.hold (Value.allNodes values)).held =
            (w₁.hold (Value.allNodes values)).held := congrArg (Value.allNodes values ++ ·) hheld
        have hstore := Action.holding_of_hold hwrite
          (congrArg ((Value.list before).nodes ++ ·) hargs)
        rw [on, Expr.eval_send]
        refine (Action.bind_done operands).trans (Action.holding_of_hold ?_ hheld)
        refine (Action.bind_done hread).trans (Action.holding_of_hold ?_ hargs)
        refine (Action.bind_done changes).trans ?_
        show (Action.holding result.nodes (Expr.writeBack lang c (.list items) spelling) >>=
          _) _ = _
        rw [Action.bind_apply, hstore]
        cases outcome <;> rfl

end Change

/-- The two spellings of an item read the same value of any list, and a statement does the same with
either of them unless it has something to store there. What it has to store is refused behind a
point, and nothing changes after the operands; between brackets it goes into the list that the path
leads to, if that has the position. -/
theorem Change.on_positions (lang : Language) (c : Context) (place : Expr) (i : Nat)
    (change : Change) (w : World) (hi : i < 0x8000000000000000)
    (hlist : change.OnList lang c place w) :
    (∀ v rows v', place.eval lang c v = (.done (.list rows), v') →
      (place.pointed i).eval lang c v = (.done (rows[i]?.getD .null), v') ∧
      (place.bracketed i).eval lang c v = (.done (rows[i]?.getD .null), v')) ∧
    ((∀ result item w₁ nodes,
        ¬ change.Stores lang c (place.bracketed i) w result item w₁ nodes) →
      (change.on (place.pointed i)).eval lang c w =
        (change.on (place.bracketed i)).eval lang c w) ∧
    (∀ result item w₁ nodes rows n key outer read path,
      change.Stores lang c (place.bracketed i) w result item w₁ nodes →
      Expr.Found c (w₁.hold nodes) place (.list rows) ((n, key) :: read) path →
      w₁.getRaw n key = some outer → (w₁.hold nodes).Closed → c.Alive (w₁.hold nodes) →
      (change.on (place.pointed i)).eval lang c w =
          (.failed (.script (.notAssignable (toString i ++ " of list"))), w₁) ∧
        (i < rows.length → (change.on (place.bracketed i)).eval lang c w =
          (.done result, w₁.set n key (Value.replaceAt (.list (rows.set i item)) path outer))) ∧
        (rows.length ≤ i → (change.on (place.bracketed i)).eval lang c w =
          (.failed (.script (.notAssignable ("index " ++ toString i))), w₁))) := by
  refine ⟨?_, on_pointed_eq_of_not_stores hi hlist, ?_⟩
  · intro v rows v' hread
    exact ⟨Expr.eval_pointed hi hread, Expr.eval_bracketed hi hread⟩
  · intro result item w₁ nodes rows n key outer read path hstores hfound houter hclosed hc
    obtain ⟨more, hmore, hon⟩ := hstores.exists_stored hi hfound hclosed hc
    have hread : place.eval lang c ((w₁.hold nodes).hold more) =
        (.done (.list rows), (w₁.hold nodes).hold more) := (hfound.hold hmore).eval rfl
    have hwrite : Expr.writeBack lang c item (place.bracketed i) ((w₁.hold nodes).hold more) = _ :=
      hfound.writeBack_bracketed houter hclosed hc hmore hi item
    refine ⟨?_, ?_, ?_⟩
    · exact hon _ (.inl rfl) _ w₁ rfl (Expr.writeBack_pointed hread item)
    · intro hlt
      rw [if_pos hlt] at hwrite
      exact hon _ (.inr rfl) _ (w₁.set n key _) rfl hwrite
    · intro hge
      rw [if_neg (Nat.not_lt.mpr hge)] at hwrite
      exact hon _ (.inr rfl) _ w₁ rfl hwrite

/-! ## The first of two lists -/

namespace Change

/-- The name of the lists on the node above. -/
def rowsPlace : Expr := .name "rows"

/-- The call that gets the second item of a list. -/
def getSecond : Change := .send "get" [.literal (.number (.ofNat 1))]

theorem found_rows : Expr.Found Context.nested World.nested rowsPlace
    (.list ([[Value.ofNat 1, Value.ofNat 2], [Value.ofNat 3]].map Value.list))
    [(⟨1⟩, "rows")] [] :=
  .name (by decide +kernel) rfl

theorem alive_nested : Context.nested.Alive World.nested := by
  unfold Context.Alive
  decide +kernel

variable {lang : Language}

theorem read_firstRow : (rowsPlace.bracketed 0).eval lang Context.nested World.nested =
    (.done (.list [.ofNat 1, .ofNat 2]), World.nested) :=
  Expr.eval_bracketed (by decide) (found_rows.eval rfl)

theorem stores_addNine : addNine.Stores lang Context.nested (rowsPlace.bracketed 0) World.nested
    (.bool true) (.list [.ofNat 1, .ofNat 2, .ofNat 9]) World.nested [] :=
  .send (evalAll_nine lang _ _) read_firstRow rfl

/-- Getting an item changes no list. -/
theorem not_stores_getSecond (result item : Value) (w₁ : World) (nodes : List NodeId) :
    ¬ getSecond.Stores lang Context.nested (rowsPlace.bracketed 0) World.nested result item w₁
      nodes := by
  rintro (_ | ⟨operands, receiver, changes⟩)
  have hvalues : Expr.evalAll lang Context.nested [.literal (.number (.ofNat 1))] World.nested =
      (.done [.ofNat 1], World.nested) := rfl
  have hcall : ∀ w, Context.callMethod lang (.list [.ofNat 1, .ofNat 2]) ⟨"get", [.ofNat 1]⟩ w =
      (.done (.ofNat 2, none), w) := fun _ => rfl
  cases hvalues.symm.trans operands
  cases read_firstRow.symm.trans receiver
  cases (hcall _).symm.trans changes

/-- Getting an item of the first list does the same with either spelling, and adding one to it is
refused behind a point. -/
theorem on_positions_nested :
    (getSecond.on (rowsPlace.pointed 0)).eval (.ofFuel 1) Context.nested World.nested =
        (getSecond.on (rowsPlace.bracketed 0)).eval (.ofFuel 1) Context.nested World.nested ∧
      (addNine.on (rowsPlace.pointed 0)).eval (.ofFuel 1) Context.nested World.nested =
        (.failed (.script (.notAssignable (toString 0 ++ " of list"))), World.nested) := by
  have hget : getSecond.OnList (.ofFuel 1) Context.nested rowsPlace World.nested := by
    intro values w₁ hvalues
    cases (Expr.evalAll_literal _ _).symm.trans hvalues
    exact ⟨_, _, found_rows.eval rfl⟩
  have hadd : addNine.OnList (.ofFuel 1) Context.nested rowsPlace World.nested := by
    intro values w₁ hvalues
    cases (evalAll_nine _ _ _).symm.trans hvalues
    exact ⟨_, _, found_rows.eval rfl⟩
  refine ⟨?_, ?_⟩
  · exact (on_positions _ _ rowsPlace 0 getSecond _ (by decide) hget).2.1 not_stores_getSecond
  · exact ((on_positions _ _ rowsPlace 0 addNine _ (by decide) hadd).2.2 _ _ _ _ _ _ _ _ _ _
      stores_addNine found_rows rfl World.closed_nested alive_nested).1

/-- What a call adds to the first list goes into the lists, and nothing can be added to the same
list behind a point. -/
theorem add_behind_point :
    Expr.parse "rows.0.add(9)" = .ok (addNine.on (rowsPlace.pointed 0)) ∧
      Expr.parse "rows[0].add(9)" = .ok (addNine.on (rowsPlace.bracketed 0)) ∧
      (addNine.on (rowsPlace.pointed 0)).eval (.ofFuel 1) Context.nested World.nested =
        (.failed (.script (.notAssignable (toString 0 ++ " of list"))), World.nested) ∧
      ∃ v, (addNine.on (rowsPlace.bracketed 0)).eval (.ofFuel 1) Context.nested World.nested =
          (.done (.bool true), v) ∧
        v.getRaw ⟨1⟩ "rows" =
          some (.list [.list [.ofNat 1, .ofNat 2, .ofNat 9], .list [.ofNat 3]]) := by
  have hrow : Expr.Found Context.nested World.nested (rowsPlace.bracketed 0)
      (.list [.ofNat 1, .ofNat 2]) [(⟨1⟩, "rows")] [0] :=
    found_rows.bracketed (by decide) rfl
  refine ⟨by cbv, by cbv, ?_, _,
    hrow.update (u := .add (.number (.ofNat 9))) rfl World.closed_nested alive_nested rfl, rfl⟩
  obtain ⟨more, hmore, hon⟩ :=
    stores_addNine.exists_stored (by decide) found_rows World.closed_nested alive_nested
  exact hon _ (.inl rfl) _ World.nested rfl
    (Expr.writeBack_pointed ((found_rows.hold hmore).eval rfl) _)

end Change

end ScriptTree
