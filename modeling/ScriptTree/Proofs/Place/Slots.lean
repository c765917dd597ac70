import Mathlib
import ScriptTree.Proofs.Place.Found

/-!
# Reading a place once

Reading a place leads to a slot: an entry of a node, or an item of a list that stands in a slot
itself (`Slot`). `Expr.locate` gives the value and the slot with one evaluation of each part of the
place (`Expr.fst_locate`). What is stored to a place goes another way: it walks the place again
(`Expr.relocate`) and stores to the slot that it comes to (`Expr.writeBack_eq`). So a change of what
stands at a place is the change with one evaluation of each part (`Change.once`) as long as the
second walk leads to the same slot and changes nothing (`Change.eval_on`), and is another one when a
key moves on in between (`Change.eval_moving`).
-/

set_option autoImplicit false

namespace ScriptTree

/-! ## More nodes -/

/-- The second world is the first with more nodes. -/
structure World.Gains (w w' : World) : Prop where
  size : w.cells.size ≤ w'.cells.size
  cell : ∀ m : NodeId, m.index < w.cells.size → w'.cell m = w.cell m
  engine : w'.engine = w.engine
  static : w'.static = w.static
  frames : w'.frames = w.frames
  loading : w'.loading = w.loading
  trace : w'.trace = w.trace
  files : w'.files = w.files
  expansions : w'.expansions = w.expansions
  held : w'.held = w.held

namespace World.Gains

variable {w w' : World}

theorem refl (w : World) : w.Gains w where
  size := Nat.le_refl _
  cell := fun _ _ => rfl
  engine := rfl
  static := rfl
  frames := rfl
  loading := rfl
  trace := rfl
  files := rfl
  expansions := rfl
  held := rfl

theorem trans {w'' : World} (h : w.Gains w') (h' : w'.Gains w'') : w.Gains w'' where
  size := Nat.le_trans h.size h'.size
  cell := fun m hm => (h'.cell m (Nat.lt_of_lt_of_le hm h.size)).trans (h.cell m hm)
  engine := h'.engine.trans h.engine
  static := h'.static.trans h.static
  frames := h'.frames.trans h.frames
  loading := h'.loading.trans h.loading
  trace := h'.trace.trans h.trace
  files := h'.files.trans h.files
  expansions := h'.expansions.trans h.expansions
  held := h'.held.trans h.held

theorem reheld (h : w.Gains w') {held held' : List NodeId} (hheld : held' = held) :
    (w.reheld held).Gains (w'.reheld held') :=
  { h with held := hheld }

theorem modifyCell (h : w.Gains w') (n : NodeId) (f : Cell → Cell) :
    (w.modifyCell n f).Gains (w'.modifyCell n f) where
  size := by
    show (w.cells.modify _ _).size ≤ (w'.cells.modify _ _).size
    rw [Array.size_modify, Array.size_modify]
    exact h.size
  cell := by
    intro m hm
    have hlt : m.index < w.cells.size := by
      rwa [show (w.modifyCell n f).cells.size = w.cells.size from Array.size_modify] at hm
    have hlt' := Nat.lt_of_lt_of_le hlt h.size
    by_cases hn : n = m
    · subst hn
      rw [cell_modifyCell_self w' f hlt', cell_modifyCell_self w f hlt, h.cell n hlt]
    · rw [cell_modifyCell_of_ne w' f hn, cell_modifyCell_of_ne w f hn, h.cell m hlt]
  engine := h.engine
  static := h.static
  frames := h.frames
  loading := h.loading
  trace := h.trace
  files := h.files
  expansions := h.expansions
  held := h.held

theorem adopt (h : w.Gains w') (n : NodeId) (key : String) (value : Value) :
    (w.adopt n key value).Gains (w'.adopt n key value) := by
  unfold World.adopt
  split
  · split
    · exact h
    · exact h.modifyCell _ _
  · exact h

end World.Gains

/-- Two runs end in the same way, and the second has at most made more nodes. -/
def SameEnd {α : Type} (r r' : Outcome α × World) : Prop := r'.1 = r.1 ∧ r.2.Gains r'.2

namespace SameEnd

variable {α β : Type} {p q : Action α} {next next' : α → Action β} {w w' : World}

theorem refl (r : Outcome α × World) : SameEnd r r := ⟨rfl, World.Gains.refl _⟩

/-- One step after another. -/
theorem bind (hfirst : SameEnd (p w) (q w'))
    (hnext : ∀ x w₁ w₂, p w = (.done x, w₁) → w₁.Gains w₂ → SameEnd (next x w₁) (next' x w₂)) :
    SameEnd ((p >>= next) w) ((q >>= next') w') := by
  obtain ⟨houtcome, hgains⟩ := hfirst
  rw [Action.bind_apply, Action.bind_apply]
  rcases hp : p w with ⟨x, w₁⟩
  rcases hq : q w' with ⟨y, w₂⟩
  rw [hp, hq] at houtcome hgains
  obtain rfl : y = x := houtcome
  cases y with
  | done x => exact hnext x w₁ w₂ hp hgains
  | failed cause => exact ⟨rfl, hgains⟩
  | exhausted => exact ⟨rfl, hgains⟩

/-- The runs are the same up to a step. -/
theorem bind_left (hnext : ∀ x w₁, p w = (.done x, w₁) → SameEnd (next x w₁) (next' x w₁)) :
    SameEnd ((p >>= next) w) ((p >>= next') w) := by
  rw [Action.bind_apply, Action.bind_apply]
  rcases hp : p w with ⟨x | cause | _, w₁⟩
  · exact hnext x w₁ hp
  · exact refl _
  · exact refl _

/-- The second run goes on from the end of its first step. -/
theorem after {r : Outcome β × World} {x : α} (hfirst : p w = (.done x, w'))
    (hnext : SameEnd r (next x w')) : SameEnd r ((p >>= next) w) := by
  rw [Action.bind_apply, hfirst]
  exact hnext

theorem holding {nodes : List NodeId} (h : SameEnd (p (w.hold nodes)) (q (w.hold nodes))) :
    SameEnd (Action.holding nodes p w) (Action.holding nodes q w) :=
  ⟨h.1, h.2.reheld rfl⟩

end SameEnd

/-! ## Slots -/

/-- Where a value was read from. -/
inductive Slot where
  /-- Nowhere: the value is the result of a computation. -/
  | temporary
  | entry (n : NodeId) (key : String)
  /-- An item of a list, with the slot of the list. -/
  | item (outer : Slot) (items : List Value) (i : Nat)
  /-- A part that cannot be stored to, in the words of the report. -/
  | refused (place : String)

namespace Slot

/-- Stores a value in a slot. The list around an item is a copy, so it is stored with it. -/
def store (c : Context) : Slot → Value → Action Unit
  | temporary, _ => pure ()
  | entry n key, value => do
      let _ ← c.store n key value
      pure ()
  | item outer items i, value => outer.store c (.list (items.set i value))
  | refused place, _ => Action.fault (.notAssignable place)

/-- The slot of a name that a node holds, if one does. -/
def held (name : String) : Option NodeId → Slot
  | some n => entry n name
  | none => temporary

/-- The slot of a member of a value. -/
def named (name : String) : Value → Slot
  | .node n => entry n name
  | other => refused (name ++ " of " ++ other.typeName)

/-- The slot of the part of a value under a key, with the slot of the value. -/
def under (w : World) (outer : Slot) (key : Value) : Value → Slot
  | .node n => entry n (w.text key)
  | .list items =>
      match key.index?.filter (· < items.length) with
      | some i => item outer items i
      | none => refused ("index " ++ w.text key)
  | other => refused ("[" ++ w.text key ++ "] of " ++ other.typeName)

/-- What is held makes no difference to storing. -/
theorem store_reheld (c : Context) (slot : Slot) (value : Value) (w : World)
    (held : List NodeId) :
    slot.store c value (w.reheld held) =
      ((slot.store c value w).1, (slot.store c value w).2.reheld held) := by
  induction slot generalizing value with
  | temporary => rfl
  | entry n key =>
      have hadopt : (w.reheld held).adopt n key value = (w.adopt n key value).reheld held := by
        unfold World.adopt
        split
        · split <;> rfl
        · rfl
      have hstore : c.store n key value (w.reheld held) =
          ((c.store n key value w).1, (c.store n key value w).2.reheld held) := by
        unfold Context.store
        split
        · rfl
        · show (Outcome.done _, ((w.reheld held).adopt n key value).set n key value) = _
          rw [hadopt]
          rfl
      rw [store, Action.bind_apply, Action.bind_apply, hstore]
      rcases c.store n key value w with ⟨_ | _ | _, w'⟩ <;> rfl
  | item outer items i ih => exact ih _
  | refused place => rfl

/-- Storing is the same while nodes are held. -/
theorem holding_store (c : Context) (slot : Slot) (value : Value) (nodes : List NodeId) :
    Action.holding nodes (slot.store c value) = slot.store c value := by
  funext w
  have hmore := store_reheld c slot value w (nodes ++ w.held)
  have hheld : slot.store c value w =
      ((slot.store c value w).1, (slot.store c value w).2.reheld w.held) :=
    store_reheld c slot value w w.held
  show ((slot.store c value (w.hold nodes)).1, (slot.store c value (w.hold nodes)).2.reheld w.held)
    = _
  rw [← World.reheld_append, hmore]
  exact hheld.symm

/-- More nodes make no difference to storing. -/
theorem store_gains (c : Context) (slot : Slot) (value : Value) {w w' : World}
    (h : w.Gains w') : SameEnd (slot.store c value w) (slot.store c value w') := by
  induction slot generalizing value with
  | temporary => exact ⟨rfl, h⟩
  | entry n key =>
      refine ⟨?_, ?_⟩
      · rw [store, Context.store]
        split <;> rfl
      · rw [store, Context.store]
        split
        · exact h.modifyCell _ _
        · exact (h.adopt n key value).modifyCell _ _
  | item outer items i ih => exact ih _
  | refused place => exact ⟨rfl, h⟩

end Slot

/-- What makes no difference of what is held may come after nodes are let go. -/
theorem Action.holding_bind {α β : Type} {next : α → Action β} (nodes : List NodeId)
    (p : Action α) (hnext : ∀ x (w : World) held,
      next x (w.reheld held) = ((next x w).1, (next x w).2.reheld held)) :
    Action.holding nodes (p >>= next) = Action.holding nodes p >>= next := by
  funext w
  show (((p >>= next) (w.hold nodes)).1, ((p >>= next) (w.hold nodes)).2.reheld w.held) = _
  have hp : Action.holding nodes p w =
      ((p (w.hold nodes)).1, (p (w.hold nodes)).2.reheld w.held) := rfl
  rw [Action.bind_apply, Action.bind_apply, hp]
  rcases p (w.hold nodes) with ⟨x | _ | _, w'⟩
  · exact (hnext x w' w.held).symm
  · rfl
  · rfl

namespace Expr

variable (lang : Language) (c : Context)

/-! ## One evaluation -/

/-- The value of a place and the slot that it is read from, with one evaluation of each part. -/
def locate : Expr → Action (Value × Slot)
  | .name s => do
      let holder ← Action.inspect (c.holder? · s)
      let value ← c.lookup lang s
      pure (value.getD .null, Slot.held s holder)
  | .member target s => do
      let target ← eval lang c target
      Action.holding target.nodes do
        let value ← target.member lang s
        pure (value, Slot.named s target)
  | .index target key => do
      let (target, outer) ← locate target
      Action.holding target.nodes do
        let key ← eval lang c key
        Action.holding key.nodes do
          let slot ← Action.inspect fun w => Slot.under w outer key target
          let value ← target.part lang key
          pure (value, slot)
  | e => (·, .temporary) <$> eval lang c e

theorem fst_locate (e : Expr) : Prod.fst <$> e.locate lang c = e.eval lang c := by
  induction e using locate.induct with
  | case1 s =>
      funext w
      rw [locate, eval, map_bind, Action.inspect_bind_apply, map_bind]
      rfl
  | case2 target s =>
      rw [locate, eval, map_bind]
      refine congrArg (eval lang c target >>= ·) (funext fun found => ?_)
      rw [← Action.holding_map, map_bind]
      exact congrArg (Action.holding found.nodes) (Action.bind_pure _)
  | case3 target key ih =>
      rw [locate, eval, ← ih, map_bind]
      refine Eq.trans ?_ (Action.bind_assoc _ _ _).symm
      refine congrArg (locate lang c target >>= ·) (funext fun found => ?_)
      refine Eq.trans ?_ (Action.pure_bind found.1 _).symm
      dsimp only
      rw [← Action.holding_map, map_bind]
      refine congrArg (Action.holding found.1.nodes) ?_
      refine congrArg (eval lang c key >>= ·) (funext fun k => ?_)
      rw [← Action.holding_map]
      refine congrArg (Action.holding k.nodes) (funext fun w => ?_)
      rw [map_bind, Action.inspect_bind_apply, map_bind]
      exact congrFun (Action.bind_pure _) w
  | case4 e hname hmember hindex =>
      rw [locate]
      · funext w
        rw [Functor.map_map]
        exact congrFun (Action.bind_pure _) w
      all_goals assumption

/-! ## The second walk -/

/-- The slot that a value goes to that is stored to a place. The key comes before the target here,
and a target that is a list is walked again for its own slot. -/
def relocate : Expr → Action Slot
  | .name s => Slot.held s <$> Action.inspect (c.holder? · s)
  | .member target s => Slot.named s <$> eval lang c target
  | .index target key => do
      let key ← eval lang c key
      let found ← Action.holding key.nodes (eval lang c target)
      Action.holding (key.nodes ++ found.nodes) do
        let outer ← match found with
          | .list items =>
              if (key.index?.filter (· < items.length)).isSome then relocate target
              else pure .temporary
          | _ => pure .temporary
        Action.inspect fun w => Slot.under w outer key found
  | _ => pure .temporary

/-- Storing to a place walks it again and stores to the slot at the end. -/
theorem writeBack_eq (place : Expr) (value : Value) :
    writeBack lang c value place =
      place.relocate lang c >>= fun slot => slot.store c value := by
  induction place using relocate.induct generalizing value with
  | case1 s =>
      funext w
      rw [writeBack, relocate, bind_map_left, Action.inspect_bind_apply, Action.inspect_bind_apply]
      cases c.holder? w s <;> rfl
  | case2 target s =>
      rw [writeBack, relocate, bind_map_left]
      refine congrArg (eval lang c target >>= ·) (funext fun found => ?_)
      have hstore : c.storeMember found s value = (Slot.named s found).store c value := by
        cases found <;> rfl
      rw [hstore, Slot.holding_store]
  | case3 target key ih =>
      rw [writeBack_index, relocate, bind_assoc]
      refine congrArg (eval lang c key >>= ·) (funext fun k => ?_)
      rw [bind_assoc]
      refine congrArg (Action.holding k.nodes (eval lang c target) >>= ·) (funext fun found => ?_)
      rw [← Action.holding_bind _ _ fun slot w held => slot.store_reheld c value w held]
      refine congrArg (Action.holding (k.nodes ++ found.nodes)) (funext fun w => ?_)
      rw [storeItem, Action.inspect_bind_apply]
      cases found with
      | list items =>
          cases hplace : k.index?.filter (· < items.length) with
          | none =>
              simp only [Slot.under, hplace]
              rfl
          | some i =>
              simp only [Slot.under, hplace, ih]
              exact (congrFun (bind_assoc _ _ _) w).symm
      | _ => rfl
  | case4 e hname hmember hindex =>
      cases e with
      | name s => exact (hname s rfl).elim
      | member target s => exact (hmember target s rfl).elim
      | index target key => exact (hindex target key rfl).elim
      | _ =>
          rw [writeBack]
          · rfl
          all_goals assumption

/-! ## Changes -/

/-- The slot of a place that a value is assigned to, with one evaluation of each part. The key comes
before the target here. -/
def aim : Expr → Action Slot
  | .index target key => do
      let key ← eval lang c key
      let (found, outer) ← Action.holding key.nodes (locate lang c target)
      Action.holding (key.nodes ++ found.nodes) (Action.inspect (Slot.under · outer key found))
  | place => place.relocate lang c

/-- Where the place is read as a list, the second walk leads to the slot that the list was read
from, with at most more nodes in the world. -/
def Rereads (place : Expr) (w : World) : Prop :=
  ∀ items slot w' held, place.locate lang c w = (.done (.list items, slot), w') →
    (∀ m, m ∈ held ↔ m ∈ (Value.list items).nodes ∨ m ∈ w'.held) →
    ∃ w'', place.relocate lang c (w'.reheld held) = (.done slot, w'') ∧
      (w'.reheld held).Gains w''

end Expr

/-- What a statement does with a place. -/
inductive Change where
  | assign (value : Expr)
  /-- A call of a method, which may change the list at the place. -/
  | send (method : String) (arguments : List Expr)

namespace Change

variable (lang : Language) (c : Context)

/-- The statement that makes the change at a place. -/
def on (place : Expr) : Change → Expr
  | assign value => .assign place value
  | send method arguments => .send place method arguments

/-- The change with one evaluation of each part of the place. -/
def once (place : Expr) : Change → Action Value
  | assign value => do
      let value ← value.eval lang c
      match place with
      | .name s =>
          if (c.binding s).isSome then Action.fault (.notAssignable s)
          else do
            let _ ← c.assign s value
            pure value
      | place =>
          if place.isPlace then do
            Action.holding value.nodes do
              let slot ← place.aim lang c
              slot.store c value
            pure value
          else Action.fault (.notAssignable place.report)
  | send method arguments => do
      let arguments ← Expr.evalAll lang c arguments
      Action.holding (Value.allNodes arguments) do
        let (target, slot) ← place.locate lang c
        Action.holding target.nodes do
          let (value, changed) ← Context.callMethod lang target ⟨method, arguments⟩
          match changed with
          | some items => do
              Action.holding value.nodes (slot.store c (.list items))
              pure value
          | none => pure value

/-- The second walk through the place leads where the first one did. An assignment to an item walks
the list of the item again, a call its receiver. -/
def Rereads (place : Expr) (w : World) : Change → Prop
  | assign value => ∀ target key, place = .index target key → ∀ v w₁ k w₂,
      value.eval lang c w = (.done v, w₁) → key.eval lang c (w₁.hold v.nodes) = (.done k, w₂) →
      target.Rereads lang c (w₂.hold k.nodes)
  | send _ arguments => ∀ values w₁, Expr.evalAll lang c arguments w = (.done values, w₁) →
      place.Rereads lang c (w₁.hold (Value.allNodes values))

end Change

section Changes

variable {lang : Language} {c : Context} {w : World}

/-- The value of a method that changes a list is an item of the list or holds no nodes. -/
theorem World.nodes_of_listMethod {before items : List Value} {call : Call} {value : Value}
    (h : w.listMethod before call = .ok (value, some items)) :
    ∀ m ∈ value.nodes, m ∈ (Value.list before).nodes := by
  have hunchanged : ∀ {x : Value}, unchanged x ≠ .ok (value, some items) := by
    intro x hx
    cases hx
  have hbound : ∀ {α : Type} {x : Except Failure α}
      {next : α → Except Failure (Value × Option (List Value))},
      (x >>= next) = .ok (value, some items) → ∃ y, next y = .ok (value, some items) := by
    rintro α (cause | y) next hf
    · cases hf
    · exact ⟨y, hf⟩
  unfold listMethod at h
  split at h
  case h_8 =>
    -- The method adds an item.
    obtain ⟨x, hx⟩ := hbound h
    cases hx
    exact List.forall_mem_nil _
  case h_9 =>
    -- It removes an item that equals a value.
    obtain ⟨x, hx⟩ := hbound h
    split at hx
    · cases hx
      exact List.forall_mem_nil _
    · exact (hunchanged hx).elim
  case h_10 =>
    -- It removes the item at a position and gives it.
    obtain ⟨i, hi⟩ := hbound h
    split at hi
    · rename_i x hx
      cases hi
      exact fun m hm => Value.mem_allNodes.mpr ⟨value, List.mem_of_getElem? hx, hm⟩
    · exact (hunchanged hi).elim
  case h_11 =>
    -- It clears the list.
    cases h
    exact List.forall_mem_nil _
  case h_4 | h_5 | h_6 =>
    obtain ⟨x, hx⟩ := hbound h
    exact (hunchanged hx).elim
  case h_1 | h_2 | h_3 | h_7 => exact (hunchanged h).elim
  case h_12 => cases h

/-- A method that changes a list leaves the world alone, and its value is an item of the list or
holds no nodes. -/
theorem Context.callMethod_eq_changed {target value : Value} {call : Call} {items : List Value}
    {w' : World} (h : Context.callMethod lang target call w = (.done (value, some items), w')) :
    w' = w ∧ ∃ before, target = .list before ∧ ∀ m ∈ value.nodes, m ∈ target.nodes := by
  cases target with
  | list before =>
      have hcalled : Action.ofExcept (w.listMethod before call) w =
          (.done (value, some items), w') := h
      cases hresult : w.listMethod before call with
      | error cause =>
          rw [hresult] at hcalled
          cases hcalled
      | ok result =>
          rw [hresult] at hcalled
          cases hcalled
          exact ⟨rfl, before, rfl, World.nodes_of_listMethod hresult⟩
  | node n =>
      obtain ⟨x, -, hx⟩ := Action.map_eq_done h
      cases hx
  | text s =>
      rw [callMethod, Action.inspect_bind_apply] at h
      obtain ⟨x, -, hx⟩ := Action.map_eq_done h
      cases hx
  | failure cause =>
      rw [callMethod, Action.inspect_bind_apply] at h
      cases hmember : w.failureMember? cause call.method with
      | some x =>
          rw [hmember] at h
          cases h
      | none =>
          rw [hmember] at h
          cases h
  | _ => cases h

/-- Storing to a place whose second walk comes to a slot. -/
theorem Expr.writeBack_of_relocate {place : Expr} {slot : Slot} {value : Value} {w'' : World}
    (h : place.relocate lang c w = (.done slot, w'')) (hgains : w.Gains w'') :
    SameEnd (slot.store c value w) (Expr.writeBack lang c value place w) := by
  rw [Expr.writeBack_eq]
  exact SameEnd.after h (slot.store_gains c value hgains)

/-- What a reading holds it lets go of again. -/
theorem Expr.locate_of_holding [lang.Orderly] {place : Expr} {nodes : List NodeId}
    {result : Value × Slot} {w₂ : World}
    (h : Action.holding nodes (place.locate lang c) w = (.done result, w₂)) :
    ∃ w', place.locate lang c (w.hold nodes) = (.done result, w') ∧
      w'.held = nodes ++ w.held ∧ w₂ = w'.reheld w.held := by
  obtain ⟨w', hlocate⟩ := Action.holding_eq_done h
  have heval : place.eval lang c (w.hold nodes) = (.done result.1, w') := by
    rw [← Expr.fst_locate]
    exact Action.map_done hlocate
  have hheld := (Action.Steady.held (a := place.eval lang c)) (w.hold nodes)
  rw [heval] at hheld
  refine ⟨w', hlocate, hheld, ?_⟩
  have hend : Action.holding nodes (place.locate lang c) w = (.done result, w'.reheld w.held) := by
    show ((place.locate lang c (w.hold nodes)).1,
      (place.locate lang c (w.hold nodes)).2.reheld w.held) = _
    rw [hlocate]
  exact (Prod.ext_iff.mp (h.symm.trans hend)).2

/-- The walk for an assignment comes to the slot of the place. -/
theorem Expr.relocate_of_rereads [lang.Orderly] {target key : Expr}
    (h : ∀ k w₁, key.eval lang c w = (.done k, w₁) → target.Rereads lang c (w₁.hold k.nodes)) :
    SameEnd ((Expr.index target key).aim lang c w) ((Expr.index target key).relocate lang c w) := by
  rw [aim, relocate]
  refine SameEnd.bind_left fun k w₁ hkey => ?_
  rw [← fst_locate, Action.holding_map, bind_map_left]
  refine SameEnd.bind_left fun ⟨found, outer⟩ w₂ hread => .holding ?_
  cases found with
  | list items =>
      cases hplace : k.index?.filter (· < items.length) with
      | none =>
          simp only [Slot.under, hplace]
          exact .refl _
      | some i =>
          simp only [Slot.under, hplace, Option.isSome_some, if_true]
          obtain ⟨w', hlocate, hheld, rfl⟩ := locate_of_holding hread
          have hmore : ∀ m, m ∈ k.nodes ++ (Value.list items).nodes ++ w₁.held ↔
              m ∈ (Value.list items).nodes ∨ m ∈ w'.held := by
            intro m
            rw [hheld]
            simp only [List.mem_append]
            tauto
          obtain ⟨w₃, hwalk, hgains⟩ := h k w₁ hkey _ _ _ _ hlocate hmore
          exact SameEnd.after hwalk ⟨rfl, hgains⟩
  | _ => exact .refl _

namespace Change

/-- A change of what stands at a place. Where the second walk through the place leads to the slot
that the first one has read, and changes nothing but for nodes that it may make, the statement does
what the change does with one evaluation of each part. -/
theorem eval_on [lang.Orderly] {place : Expr} {change : Change}
    (h : change.Rereads lang c place w) :
    SameEnd (change.once lang c place w) ((change.on place).eval lang c w) := by
  cases change with
  | assign value =>
      rw [on, Expr.eval_assign, once]
      refine SameEnd.bind_left fun v w₁ hvalue => ?_
      cases place with
      | member target s =>
          refine SameEnd.bind (.holding ?_) fun _ _ _ _ hgains => ⟨rfl, hgains⟩
          rw [Expr.writeBack_eq]
          exact .refl _
      | index target key =>
          refine SameEnd.bind (.holding ?_) fun _ _ _ _ hgains => ⟨rfl, hgains⟩
          rw [Expr.writeBack_eq]
          have haim := Expr.relocate_of_rereads fun k w₂ hkey =>
            h target key rfl v w₁ k w₂ hvalue hkey
          exact SameEnd.bind haim fun slot _ _ _ hgains => slot.store_gains c v hgains
      | _ => exact .refl _
  | send method arguments =>
      rw [on, Expr.eval_send, once]
      refine SameEnd.bind_left fun values w₁ harguments => .holding ?_
      rw [← Expr.fst_locate, bind_map_left]
      refine SameEnd.bind_left fun ⟨target, slot⟩ w₂ hread => .holding ?_
      refine SameEnd.bind_left fun ⟨value, changed⟩ w₃ hcalled => ?_
      cases changed with
      | none => exact .refl _
      | some items =>
          obtain ⟨rfl, before, rfl, hnodes⟩ := Context.callMethod_eq_changed hcalled
          refine SameEnd.bind (.holding ?_) fun _ _ _ _ hgains => ⟨rfl, hgains⟩
          have hheld : ∀ m, m ∈ value.nodes ++ ((Value.list before).nodes ++ w₂.held) ↔
              m ∈ (Value.list before).nodes ∨ m ∈ w₂.held := by
            intro m
            simp only [List.mem_append]
            exact ⟨fun hm => hm.elim (fun hm => .inl (hnodes m hm)) id, .inr⟩
          obtain ⟨w₄, hwalk, hgains⟩ := h values w₁ harguments _ _ _ _ hread hheld
          exact Expr.writeBack_of_relocate hwalk hgains

end Change

end Changes

/-! ## Keys that move on -/

/-- Three lists. -/
def Value.rows : List Value := [.list [.ofNat 1], .list [.ofNat 2], .list [.ofNat 3]]

/-- A node with the lists and a position, and a blank node for its frame. -/
def World.rows (i : Nat) : World :=
  let w := (((World.initial ⟨true, true, 0⟩ ⟨default, []⟩).create true).2.create false).2
  (w.put ⟨1⟩ "i" (.ofNat i)).put ⟨1⟩ "l" (.list Value.rows)

/-- The position has come to `n`, where the second list with nine added stands now. -/
def World.rowsWith (n : Nat) : World :=
  (World.rows n).put ⟨1⟩ "l" (.list (Value.rows.set n (.list [.ofNat 2, .ofNat 9])))

/-- The context of the node with the lists. -/
def Context.ofRows : Context := ⟨⟨1⟩, none, ⟨2⟩, ⟨0⟩⟩

namespace Expr

/-- The list under a key. -/
def row (key : Expr) : Expr := .index (.name "l") key

/-- A key that assigns the position one. -/
def fixedKey : Expr := .assign (.name "i") (.literal (.number (.ofNat 1)))

/-- A key that moves the position on by one. -/
def movingKey : Expr :=
  .assign (.name "i") (.binary .add (.name "i") (.literal (.number (.ofNat 1))))

variable {lang : Language} {key : Expr} {w : World} {i n : Nat} {held : List NodeId}

theorem locate_row (hkey : key.eval lang .ofRows (.rows i) = (.done (.ofNat 1), .rows 1)) :
    (row key).locate lang .ofRows (.rows i) =
      (.done (.list [.ofNat 2], .item (.entry ⟨1⟩ "l") Value.rows 1), .rows 1) := by
  have hplace : (Value.ofNat 1).index?.filter (· < Value.rows.length) = some 1 := rfl
  have htarget : (Expr.name "l").locate lang .ofRows (.rows i) =
      (.done (.list Value.rows, .entry ⟨1⟩ "l"), .rows i) := rfl
  rw [row, locate]
  refine (Action.bind_done htarget).trans (Action.holding_of_hold ?_ rfl)
  refine (Action.bind_done hkey).trans ?_
  simp only [Slot.under, hplace]
  rfl

theorem relocate_row
    (hkey : key.eval lang .ofRows w = (.done (.ofNat n), (World.rows n).reheld held))
    (hn : (Value.ofNat n).index?.filter (· < Value.rows.length) = some n) :
    (row key).relocate lang .ofRows w =
      (.done (.item (.entry ⟨1⟩ "l") Value.rows n), (World.rows n).reheld held) := by
  have hfound : Action.holding (Value.ofNat n).nodes ((Expr.name "l").eval lang .ofRows)
      ((World.rows n).reheld held) = (.done (.list Value.rows), (World.rows n).reheld held) := rfl
  rw [row, relocate]
  refine (Action.bind_done hkey).trans ((Action.bind_done hfound).trans ?_)
  simp only [Slot.under, hn, Option.isSome_some, if_true]
  rfl

end Expr

namespace Change

/-- The call that adds nine to a list. -/
def addNine : Change := .send "add" [.literal (.number (.ofNat 9))]

variable {lang : Language} {key : Expr} {i n : Nat}

theorem evalAll_nine (lang : Language) (c : Context) (w : World) :
    Expr.evalAll lang c [.literal (.number (.ofNat 9))] w = (.done [.ofNat 9], w) := rfl

theorem callMethod_nine (lang : Language) (w : World) :
    Context.callMethod lang (.list [.ofNat 2]) ⟨"add", [.ofNat 9]⟩ w =
      (.done (.bool true, some [.ofNat 2, .ofNat 9]), w) := rfl

theorem store_nine (n : Nat) :
    (Slot.item (.entry ⟨1⟩ "l") Value.rows n).store .ofRows (.list [.ofNat 2, .ofNat 9])
      (.rows n) = (.done (), .rowsWith n) := rfl

theorem once_row (hkey : key.eval lang .ofRows (.rows i) = (.done (.ofNat 1), .rows 1)) :
    addNine.once lang .ofRows (.row key) (.rows i) = (.done (.bool true), .rowsWith 1) := by
  have hstore := (congrFun (Slot.holding_store .ofRows _ _ []) _).trans (store_nine 1)
  rw [once.eq_def, addNine]
  refine (Action.bind_done (evalAll_nine lang _ _)).trans (Action.holding_of_hold ?_ rfl)
  refine (Action.bind_done (Expr.locate_row hkey)).trans (Action.holding_of_hold ?_ rfl)
  refine (Action.bind_done (callMethod_nine lang _)).trans ?_
  exact (Action.bind_done hstore).trans rfl

/-- The key is evaluated for the list, and again for the place where the list is stored. -/
theorem eval_row (hkey : key.eval lang .ofRows (.rows i) = (.done (.ofNat 1), .rows 1))
    (hagain : key.eval lang .ofRows (.rows 1) = (.done (.ofNat n), .rows n))
    (hn : (Value.ofNat n).index?.filter (· < Value.rows.length) = some n) :
    (addNine.on (.row key)).eval lang .ofRows (.rows i) = (.done (.bool true), .rowsWith n) := by
  have heval : (Expr.row key).eval lang .ofRows (.rows i) =
      (.done (.list [.ofNat 2]), .rows 1) := by
    rw [← Expr.fst_locate]
    exact Action.map_done (Expr.locate_row hkey)
  have hstore : Action.holding [] (Expr.writeBack lang .ofRows (.list [.ofNat 2, .ofNat 9])
      (.row key)) (.rows 1) = (.done (), .rowsWith n) := by
    rw [Expr.writeBack_eq]
    refine Action.holding_of_hold ?_ rfl
    exact (Action.bind_done (Expr.relocate_row hagain hn)).trans (store_nine n)
  rw [show addNine.on (.row key) =
    .send (.row key) "add" [.literal (.number (.ofNat 9))] from rfl, Expr.eval_send]
  refine (Action.bind_done (evalAll_nine lang _ _)).trans (Action.holding_of_hold ?_ rfl)
  refine (Action.bind_done heval).trans (Action.holding_of_hold ?_ rfl)
  refine (Action.bind_done (callMethod_nine lang _)).trans ?_
  exact (Action.bind_done hstore).trans rfl

/-- The position that the key assigns is the same again. -/
theorem eval_on_repeated :
    addNine.Rereads (.ofFuel 1) .ofRows (.row .fixedKey) (.rows 0) ∧
      SameEnd (addNine.once (.ofFuel 1) .ofRows (.row .fixedKey) (.rows 0))
        ((addNine.on (.row .fixedKey)).eval (.ofFuel 1) .ofRows (.rows 0)) := by
  have hrereads : addNine.Rereads (.ofFuel 1) .ofRows (.row .fixedKey) (.rows 0) := by
    intro values w₁ hvalues items slot w' held hread _
    cases (evalAll_nine _ _ _).symm.trans hvalues
    rw [show (World.rows 0).hold (Value.allNodes [.ofNat 9]) = .rows 0 from rfl,
      Expr.locate_row rfl] at hread
    cases hread
    exact ⟨_, Expr.relocate_row rfl rfl, .refl _⟩
  exact ⟨hrereads, eval_on hrereads⟩

/-- A key that moves on leads to another list when it is evaluated again. -/
theorem eval_moving :
    Expr.parse "l[i = i + 1].add(9)" = .ok (addNine.on (.row .movingKey)) ∧
      (addNine.once (.ofFuel 1) .ofRows (.row .movingKey) (.rows 0)).2.getRaw ⟨1⟩ "l" =
        some (.list [.list [.ofNat 1], .list [.ofNat 2, .ofNat 9], .list [.ofNat 3]]) ∧
      ((addNine.on (.row .movingKey)).eval (.ofFuel 1) .ofRows (.rows 0)).2.getRaw ⟨1⟩ "l" =
        some (.list [.list [.ofNat 1], .list [.ofNat 2], .list [.ofNat 2, .ofNat 9]]) := by
  have hfirst : Expr.movingKey.eval (.ofFuel 1) .ofRows (.rows 0) =
      (.done (.ofNat 1), .rows 1) := rfl
  have hagain : Expr.movingKey.eval (.ofFuel 1) .ofRows (.rows 1) =
      (.done (.ofNat 2), .rows 2) := rfl
  refine ⟨by cbv, ?_, ?_⟩
  · rw [once_row hfirst]
    rfl
  · rw [eval_row hfirst hagain rfl]
    rfl

end Change

end ScriptTree
