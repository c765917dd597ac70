import ScriptTree.Proofs.Load.Merge
import ScriptTree.Proofs.Place.Found
import ScriptTree.Proofs.World.Revised

/-!
# Changes of lists

A method that changes a list, and an assignment to one of its items, change it where the path to it
leads: the list is replaced in the entry that the path reads last, and nothing else changes
(`Expr.Path.replaces_list`). An entry that the path reads earlier too, or a node above that is let
go, may lead the path elsewhere afterwards (`cleared_elsewhere`).
-/

set_option autoImplicit false

namespace ScriptTree

namespace Expr

variable {lang : Language} {c : Context} {w w' : World} {e : Expr} {x y : Value}
  {read : List (NodeId × String)} {path : List Nat}

/-! ## Paths after a change -/

/-- A path that does not come through the entry that has changed leads where it led, if its name is
found in the same node. -/
theorem Found.revised {n : NodeId} {key : String} {old new : Value} (h : Found c w e x read path)
    (hw : w.Revised w' n key old new) (hread : (n, key) ∉ read)
    (hholder : c.holder? w' e.start = c.holder? w e.start) : Found c w' e x read path := by
  induction h with
  | reserved binding => exact .reserved binding
  | name holder entry =>
      have hne := List.ne_of_not_mem_cons hread
      exact .name (hholder.trans holder) ((hw.others _ _ hne.symm).trans entry)
  | member _ entry ih =>
      have hne := List.ne_of_not_mem_cons hread
      exact .member (ih (List.not_mem_of_not_mem_cons hread) hholder)
        ((hw.others _ _ hne.symm).trans entry)
  | entry _ entry ih =>
      have hne := List.ne_of_not_mem_cons hread
      exact .entry (ih (List.not_mem_of_not_mem_cons hread) hholder)
        ((hw.others _ _ hne.symm).trans entry)
  | item _ position item ih => exact .item (ih hread hholder) position item

/-- A path into the entry that has changed leads to what the new value has there. -/
theorem Found.revised_last {n : NodeId} {key : String} {old new : Value}
    (h : Found c w e x ((n, key) :: read) path) (hw : w.Revised w' n key old new)
    (hread : (n, key) ∉ read) (hholder : c.holder? w' e.start = c.holder? w e.start)
    (hnew : new.follow path = some y) : Found c w' e y ((n, key) :: read) path := by
  generalize hentries : (n, key) :: read = entries at h
  induction h generalizing y with
  | reserved => cases hentries
  | name holder entry =>
      cases hentries
      obtain rfl := Option.some.inj hnew
      exact .name (hholder.trans holder) hw.after
  | member found entry ih =>
      cases hentries
      obtain rfl := Option.some.inj hnew
      exact .member (found.revised hw hread hholder) hw.after
  | entry found entry ih =>
      cases hentries
      obtain rfl := Option.some.inj hnew
      exact .entry (found.revised hw hread hholder) hw.after
  | item found position item ih =>
      rw [Value.follow_concat] at hnew
      obtain ⟨z, hz, hitem⟩ := Option.bind_eq_some_iff.mp hnew
      obtain ⟨items, rfl, hy⟩ := Value.item?_eq_some hitem
      exact .item (ih hholder hz hentries) position hy

/-! ## Calls that change a list -/

/-- A change of a list. -/
inductive Update where
  /-- Adds a value at the end. -/
  | add (value : Literal)
  /-- Removes the first item that equals a value. -/
  | remove (value : Literal)
  /-- Removes the item at a position. -/
  | removeAt (position : Literal)
  | clear
  /-- Assigns to the item at a position. -/
  | assign (position value : Literal)

/-- The expression that changes the list at a place. -/
def Update.on (place : Expr) : Update → Expr
  | .add value => .send place "add" [.literal value]
  | .remove value => .send place "remove" [.literal value]
  | .removeAt position => .send place "removeAt" [.literal position]
  | .clear => .send place "clear" []
  | .assign position value => .assign (.index place (.literal position)) (.literal value)

/-- The result of a change and the list after it. A position is a natural number, and one that is
assigned to is below the length. -/
def Update.outcome (w : World) (items : List Value) : Update → Option (Value × List Value)
  | .add value => some (.bool true, items ++ [Value.ofLiteral value])
  | .remove value =>
      match items.findIdx? fun item => w.same item (Value.ofLiteral value) with
      | some i => some (.bool true, items.eraseIdx i)
      | none => some (.bool false, items)
  | .removeAt position =>
      (Value.ofLiteral position).index?.map fun i => (items[i]?.getD .null, items.eraseIdx i)
  | .clear => some (.null, [])
  | .assign position value =>
      ((Value.ofLiteral position).index?.filter (· < items.length)).map fun i =>
        (Value.ofLiteral value, items.set i (Value.ofLiteral value))

/-- A literal equals a value in one world if it does in any other. -/
theorem same_ofLiteral (w w' : World) (x : Value) (value : Literal) :
    w.same x (Value.ofLiteral value) = w'.same x (Value.ofLiteral value) := by
  cases value <;> cases x <;> simp [World.same, Value.ofLiteral, Value.same]

/-- The only argument of a call as a list position. -/
theorem index_argument (method : String) (x : Value) :
    Call.index ⟨method, [x]⟩ 0 = match x.index? with
      | some i => .ok i
      | none => Call.mismatch ⟨method, [x]⟩ 0 "index" x := rfl

/-- The method finds the same item where nodes are held as where it is called from. -/
theorem listMethod_remove (w : World) (nodes : List NodeId) (items : List Value)
    (value : Literal) :
    (w.hold nodes).listMethod items ⟨"remove", [Value.ofLiteral value]⟩ =
      match items.findIdx? fun item => w.same item (Value.ofLiteral value) with
      | some i => .ok (.bool true, some (items.eraseIdx i))
      | none => .ok (.bool false, none) := by
  have hsame : (w.hold nodes).position? items (Value.ofLiteral value) =
      items.findIdx? fun item => w.same item (Value.ofLiteral value) :=
    congrArg (fun p => items.findIdx? p) (funext fun item => same_ofLiteral _ w item value)
  rw [← hsame]
  rfl

theorem listMethod_removeAt (w : World) (items : List Value) {position : Value} {i : Nat}
    (hi : position.index? = some i) :
    w.listMethod items ⟨"removeAt", [position]⟩ = match items[i]? with
      | some z => .ok (z, some (items.eraseIdx i))
      | none => .ok (.null, none) := by
  show (Call.index ⟨"removeAt", [position]⟩ 0 >>= _) = _
  rw [index_argument, hi]
  dsimp only [bind, Except.bind]
  cases items[i]? <;> rfl

/-- A value that is a literal or an item of the list. -/
theorem nodes_subset_of_mem {items : List Value} {z : Value}
    (h : z ∈ items ∨ z.nodes = []) : z.nodes ⊆ (Value.list items).nodes := by
  rcases h with h | h
  · exact fun r hr => Value.mem_allNodes.mpr ⟨z, h, hr⟩
  · rw [h]
    exact List.nil_subset _

/-- A change puts no nodes into the list that were not in it, and its result is a literal or an
item. -/
theorem Update.nodes_subset {u : Update} {items items' : List Value} {result : Value}
    (hu : u.outcome w items = some (result, items')) :
    (Value.list items').nodes ⊆ (Value.list items).nodes ∧
      result.nodes ⊆ (Value.list items).nodes := by
  have hlist : ∀ {others : List Value}, (∀ z ∈ others, z ∈ items ∨ z.nodes = []) →
      (Value.list others).nodes ⊆ (Value.list items).nodes := by
    intro others h r hr
    obtain ⟨z, hz, hrz⟩ := Value.mem_allNodes.mp hr
    exact nodes_subset_of_mem (h z hz) hrz
  cases u with
  | add value =>
      cases hu
      refine ⟨hlist fun z hz => ?_, nodes_subset_of_mem (.inr rfl)⟩
      rcases List.mem_append.mp hz with hz | hz
      · exact .inl hz
      · obtain rfl := List.mem_singleton.mp hz
        exact .inr (Value.nodes_ofLiteral value)
  | remove value =>
      rw [outcome] at hu
      split at hu
      · cases hu
        exact ⟨hlist fun z hz => .inl (List.mem_of_mem_eraseIdx hz),
          nodes_subset_of_mem (.inr rfl)⟩
      · cases hu
        exact ⟨List.Subset.refl _, nodes_subset_of_mem (.inr rfl)⟩
  | removeAt position =>
      obtain ⟨i, -, heq⟩ := Option.map_eq_some_iff.mp hu
      cases heq
      refine ⟨hlist fun z hz => .inl (List.mem_of_mem_eraseIdx hz), nodes_subset_of_mem ?_⟩
      cases hi : items[i]? with
      | none => exact .inr rfl
      | some z => exact .inl (List.mem_of_getElem? hi)
  | clear =>
      cases hu
      exact ⟨List.nil_subset _, nodes_subset_of_mem (.inr rfl)⟩
  | assign position value =>
      obtain ⟨i, -, heq⟩ := Option.map_eq_some_iff.mp hu
      cases heq
      refine ⟨hlist fun z hz => ?_, nodes_subset_of_mem (.inr (Value.nodes_ofLiteral value))⟩
      rcases List.mem_or_eq_of_mem_set hz with hz | rfl
      · exact .inl hz
      · exact .inr (Value.nodes_ofLiteral value)

/-- A call of a method of the list at a path, with arguments that hold no nodes. -/
theorem Found.call {s : String} {values items : List Value} {arguments : List Expr}
    {outcome : Outcome Value} (h : Found c w e (.list items) read path)
    (harguments : evalAll lang c arguments w = (.done values, w))
    (hvalues : Value.allNodes values = [])
    (hcall : (Action.ofExcept ((w.hold (Value.list items).nodes).listMethod items ⟨s, values⟩) >>=
      storeChanged lang c e) (w.hold (Value.list items).nodes) =
        (outcome, w'.hold (Value.list items).nodes)) (hheld : w'.held = w.held) :
    (Expr.send e s arguments).eval lang c w = (outcome, w') := by
  rw [eval_send, Action.bind_apply, harguments]
  dsimp only
  rw [hvalues]
  refine Action.holding_of_hold ?_ hheld
  show (e.eval lang c >>= _) w = _
  rw [Action.bind_apply, h.eval rfl]
  refine Action.holding_of_hold ?_ hheld
  have hmethod : Context.callMethod lang (.list items) ⟨s, values⟩
      (w.hold (Value.list items).nodes) =
        Action.ofExcept ((w.hold (Value.list items).nodes).listMethod items ⟨s, values⟩)
          (w.hold (Value.list items).nodes) := by
    rw [Context.callMethod, Action.inspect_bind_apply]
    rfl
  rw [Action.bind_apply, hmethod, ← Action.bind_apply]
  exact hcall

/-- A call that changes the list at a path, or leaves it as it is. -/
theorem Found.send {n : NodeId} {key s : String} {outer result : Value} {values items : List Value}
    {arguments : List Expr} (changed : Option (List Value))
    (h : Found c w e (.list items) ((n, key) :: read) path) (houter : w.getRaw n key = some outer)
    (hclosed : w.Closed) (hc : c.Alive w)
    (harguments : evalAll lang c arguments w = (.done values, w))
    (hvalues : Value.allNodes values = [])
    (hcall : (w.hold (Value.list items).nodes).listMethod items ⟨s, values⟩ =
      .ok (result, changed))
    (hresult : ∀ m ∈ result.nodes, w.alive m = true) :
    (Expr.send e s arguments).eval lang c w =
      (.done result, w.set n key (Value.replaceAt (.list (changed.getD items)) path outer)) := by
  have hitems := h.alive hclosed hc
  refine h.call harguments hvalues ?_ rfl
  rw [hcall]
  show storeChanged lang c e (result, changed) _ = _
  cases changed with
  | none =>
      -- The list is where it was, so nothing is stored.
      obtain ⟨outer', houter', hfollow⟩ := h.follow
      obtain rfl : outer' = outer := Option.some.inj (houter'.symm.trans houter)
      rw [Option.getD_none, Value.replaceAt_of_follow hfollow, World.set_of_getRaw houter]
      rfl
  | some items' =>
      have hstore : Action.holding result.nodes (Expr.writeBack lang c (.list items') e)
          (w.hold (Value.list items).nodes) =
            (.done (), (w.set n key (Value.replaceAt (.list items') path outer)).hold
              (Value.list items).nodes) := by
        refine Action.holding_of_hold ?_ rfl
        rw [World.hold_hold, World.hold_hold]
        refine h.writeBack houter hclosed hc (fun m hm => ?_) items'
        exact (List.mem_append.mp hm).elim (hresult m) (hitems m)
      show (Action.holding result.nodes (Expr.writeBack lang c (.list items') e) >>= _) _ = _
      rw [Action.bind_apply, hstore]
      rfl

theorem evalAll_literal (value : Literal) (w : World) :
    evalAll lang c [.literal value] w = (.done [Value.ofLiteral value], w) := by
  have hrest : Action.holding (Value.ofLiteral value).nodes (evalAll lang c []) w =
      (.done [], w) := by
    rw [evalAll]
    rfl
  rw [evalAll, Action.bind_apply, eval_literal]
  dsimp only
  rw [Action.bind_apply, hrest]
  rfl

/-- An assignment to an item ends as the storing of the value does. -/
theorem eval_assign_index {position value : Literal} {outcome : Outcome Unit}
    (hstore : Expr.writeBack lang c (Value.ofLiteral value) (.index e (.literal position)) w =
      (outcome, w')) (hheld : w'.held = w.held) :
    (Expr.assign (.index e (.literal position)) (.literal value)).eval lang c w =
      (match outcome with
        | .done _ => .done (Value.ofLiteral value)
        | .failed cause => .failed cause
        | .exhausted => .exhausted, w') := by
  have hhold : Action.holding (Value.ofLiteral value).nodes
      (Expr.writeBack lang c (Value.ofLiteral value) (.index e (.literal position))) w =
        (outcome, w') := by
    rw [Value.nodes_ofLiteral]
    exact Action.holding_of_hold hstore hheld
  rw [eval_assign, Action.bind_apply, eval_literal]
  show (Action.holding _ _ >>= _) w = _
  rw [Action.bind_apply, hhold]
  cases outcome <;> rfl

/-- An assignment to an item of the list at a path. -/
theorem Found.assign {n : NodeId} {key : String} {outer : Value} {items : List Value}
    {position value : Literal} {i : Nat}
    (h : Found c w e (.list items) ((n, key) :: read) path) (houter : w.getRaw n key = some outer)
    (hclosed : w.Closed) (hc : c.Alive w) (hposition : (Value.ofLiteral position).index? = some i)
    (hi : i < items.length) :
    (Expr.assign (.index e (.literal position)) (.literal value)).eval lang c w =
      (.done (Value.ofLiteral value), w.set n key
        (Value.replaceAt (.list (items.set i (Value.ofLiteral value))) path outer)) := by
  have hstore : Expr.writeBack lang c (Value.ofLiteral value) (.index e (.literal position)) w =
      (.done (), w.set n key
        (Value.replaceAt (.list (items.set i (Value.ofLiteral value))) path outer)) := by
    refine writeBack_index_literal (h.eval rfl) ?_ rfl
    rw [storeItem, Action.inspect_bind_apply]
    dsimp only
    rw [hposition, Option.filter_some, decide_eq_true hi, if_pos rfl]
    exact h.writeBack houter hclosed hc (h.alive hclosed hc) _
  exact eval_assign_index hstore rfl

/-- A change that has no outcome fails and changes nothing. -/
theorem Found.refused {items : List Value} {u : Update} (h : Found c w e (.list items) read path)
    (hu : u.outcome w items = none) : ∃ cause, (u.on e).eval lang c w = (.failed cause, w) := by
  cases u with
  | add | clear => cases hu
  | remove value =>
      rw [Update.outcome] at hu
      split at hu <;> cases hu
  | removeAt position =>
      have hposition := Option.map_eq_none_iff.mp hu
      have hcall : ∃ cause, (w.hold (Value.list items).nodes).listMethod items
          ⟨"removeAt", [Value.ofLiteral position]⟩ = .error cause := by
        show ∃ cause, (Call.index ⟨"removeAt", [Value.ofLiteral position]⟩ 0 >>= _) = _
        rw [index_argument, hposition]
        exact ⟨_, rfl⟩
      obtain ⟨cause, hcall⟩ := hcall
      refine ⟨cause, h.call (evalAll_literal position w) (by simp [Value.allNodes]) ?_ rfl⟩
      rw [hcall]
      rfl
  | assign position value =>
      have hposition := Option.map_eq_none_iff.mp hu
      have hstore : Expr.writeBack lang c (Value.ofLiteral value) (.index e (.literal position)) w =
          (.failed (.script (.notAssignable ("index " ++ position.asKey))), w) := by
        refine writeBack_index_literal (h.eval rfl) ?_ rfl
        rw [storeItem, Action.inspect_bind_apply, World.text_ofLiteral]
        dsimp only
        rw [hposition]
        rfl
      exact ⟨_, eval_assign_index hstore rfl⟩

/-- A change of the list at a path has its result, and the changed list takes the place of the list
in the entry that the path reads last. -/
theorem Found.update {n : NodeId} {key : String} {outer result : Value} {items items' : List Value}
    {u : Update} (h : Found c w e (.list items) ((n, key) :: read) path)
    (houter : w.getRaw n key = some outer) (hclosed : w.Closed) (hc : c.Alive w)
    (hu : u.outcome w items = some (result, items')) :
    (u.on e).eval lang c w =
      (.done result, w.set n key (Value.replaceAt (.list items') path outer)) := by
  have hresult : ∀ m ∈ result.nodes, w.alive m = true :=
    fun m hm => h.alive hclosed hc m ((Update.nodes_subset hu).2 hm)
  have hvalues : ∀ value, Value.allNodes [Value.ofLiteral value] = [] := by simp [Value.allNodes]
  cases u with
  | add value =>
      cases hu
      exact Found.send (some _) h houter hclosed hc (evalAll_literal value w) (hvalues value) rfl
        hresult
  | remove value =>
      have hcall := listMethod_remove w (Value.list items).nodes items value
      rw [Update.outcome] at hu
      split at hu
      · rename_i i hi
        cases hu
        rw [hi] at hcall
        exact Found.send (some _) h houter hclosed hc (evalAll_literal value w) (hvalues value)
          hcall hresult
      · rename_i hnone
        cases hu
        rw [hnone] at hcall
        exact Found.send none h houter hclosed hc (evalAll_literal value w) (hvalues value)
          hcall hresult
  | removeAt position =>
      obtain ⟨i, hi, heq⟩ := Option.map_eq_some_iff.mp hu
      cases heq
      -- The method gives the changed list only when there is an item at the position.
      have hcall := listMethod_removeAt (w.hold (Value.list items).nodes) items hi
      cases hitem : items[i]? with
      | some z =>
          rw [hitem] at hcall hresult
          exact Found.send (some _) h houter hclosed hc (evalAll_literal position w)
            (hvalues position) hcall hresult
      | none =>
          -- A position past the end.
          rw [hitem] at hcall
          rw [List.eraseIdx_of_length_le (List.getElem?_eq_none_iff.mp hitem)]
          exact Found.send none h houter hclosed hc (evalAll_literal position w)
            (hvalues position) hcall (by simp [Value.nodes])
  | clear =>
      cases hu
      exact Found.send (some []) h houter hclosed hc rfl rfl rfl hresult
  | assign position value =>
      obtain ⟨i, hi, heq⟩ := Option.map_eq_some_iff.mp hu
      cases heq
      obtain ⟨hposition, hlt⟩ := Option.filter_eq_some_iff.mp hi
      exact h.assign houter hclosed hc hposition (of_decide_eq_true hlt)

/-! ## What a change leaves -/

/-- The names of a context are found in the same nodes when nothing above its node has another
parent. -/
theorem holder?_of_above (hsize : w'.cells.size = w.cells.size) (hkeys : ∀ m, w'.keys m = w.keys m)
    (habove : ∀ m, w.Above c.this m → w'.parent? m = w.parent? m) (s : String) :
    c.holder? w' s = c.holder? w s := by
  have hcontains : ∀ m, w'.containsKey m s = w.containsKey m s :=
    fun m => World.containsKey_of_keys (hkeys m) s
  have hsame : (fun m => w'.containsKey m s) = fun m => w.containsKey m s := funext hcontains
  rw [Context.holder?, Context.holder?, World.holder?, World.holder?,
    World.lineage_eq_of_above hsize habove, hcontains, hcontains, hsame]

/-- The list at a place is replaced where it was read from, at a path of positions in the lists of
one entry. -/
structure Replaced (lang : Language) (c : Context) (w w' : World) (place : Expr)
    (items items' : List Value) (n : NodeId) (key : String) (read : List (NodeId × String))
    (path : List Nat) (outer : Value) : Prop where
  found : Found c w place (.list items) ((n, key) :: read) path
  /-- Only this entry changes, and in it only the list at the path of positions. -/
  revised : w.Revised w' n key outer (Value.replaceAt (.list items') path outer)
  /-- A list that is left as it was leaves all as it was. -/
  unchanged : items' = items → w' = w
  /-- A node keeps its parent, unless that lies below a node that the list has no longer. -/
  parents : ∀ m, w'.parent? m = w.parent? m ∨
    w'.parent? m = none ∧ ∃ p, w.parent? m = some p ∧
      ∃ r ∈ (Value.list items).nodes, r ∉ (Value.list items').nodes ∧ w.Below r p
  /-- The name that the place starts with is found in the same node, unless a node above that of
  the context has lost its parent. -/
  holder : (∀ m, w.Above c.this m → w'.parent? m = w.parent? m) →
    c.holder? w' place.start = c.holder? w place.start
  /-- The place leads to the changed list, unless it comes through the entry on its way there. -/
  again : (n, key) ∉ read → c.holder? w' place.start = c.holder? w place.start →
    place.eval lang c w' = (.done (.list items'), w')

/-- A change of the list that a path leads to has its result and replaces the list where it was read
from; one that has no outcome fails and changes nothing. -/
theorem Path.replaces_list {place : Expr} {items : List Value} (u : Update)
    (hplace : Path lang c w place) (hread : place.eval lang c w = (.done (.list items), w'))
    (hclosed : w.Closed) (hc : c.Alive w) :
    (∀ result items', u.outcome w items = some (result, items') →
      ∃ n key read path outer v, (u.on place).eval lang c w = (.done result, v) ∧
        Replaced lang c w v place items items' n key read path outer) ∧
    (u.outcome w items = none → ∃ cause, (u.on place).eval lang c w = (.failed cause, w)) := by
  obtain ⟨entries, path, hfound⟩ := hplace.found hread rfl (by simp)
  refine ⟨fun result items' hu => ?_, hfound.refused⟩
  cases entries with
  | nil => exact absurd rfl (hfound.ne_list items)
  | cons entry read =>
      obtain ⟨n, key⟩ := entry
      obtain ⟨outer, houter, hfollow⟩ := hfound.follow
      have hrevised := @World.revised_set w n key outer (Value.replaceAt (.list items') path outer)
        houter
      have hnew := Value.follow_replaceAt (y := .list items') hfollow
      refine ⟨n, key, read, path, outer, _, hfound.update houter hclosed hc hu, ?_⟩
      constructor
      case found => exact hfound
      case revised => exact hrevised
      case unchanged =>
        rintro rfl
        rw [Value.replaceAt_of_follow hfollow, World.set_of_getRaw houter]
      case parents =>
        intro m
        -- The new value refers to nothing that the node did not refer to.
        have hold : ∀ r ∈ outer.nodes, r ∈ World.references (w.cell n) := fun r hr =>
          List.mem_flatMap.mpr ⟨(key, outer), Entries.mem_of_get?_eq_some houter, hr⟩
        have hnodes : ∀ r ∈ (Value.replaceAt (.list items') path outer).nodes,
            r ∈ World.references (w.cell n) := by
          intro r hr
          rcases Value.mem_nodes_of_replaceAt hr with hr | hr
          · exact hold r hr
          · exact hold r (Value.nodes_subset_of_follow hfollow ((Update.nodes_subset hu).1 hr))
        rcases World.parent?_set (World.lt_size_of_getRaw houter) hnodes m with
          hsame | ⟨hnone, p, hp, old, hvalue, r, hr, hgone, hbelow⟩
        · exact .inl hsame
        · -- What the value leaves out are nodes of the list.
          obtain rfl : old = outer := Option.some.inj (hvalue.symm.trans houter)
          refine .inr ⟨hnone, p, hp, r, ?_, ?_, hbelow⟩
          · exact (Value.mem_nodes_replaceAt hfollow hr).resolve_left hgone
          · exact fun hstays => hgone (Value.nodes_subset_of_follow hnew hstays)
      case holder => exact fun habove => holder?_of_above hrevised.size hrevised.keys habove _
      case again =>
        intro hnot hholder
        exact (hfound.revised_last hrevised hnot hholder hnew).eval rfl

end Expr

/-! ## Lists in lists, and a list around its own node -/

namespace World

/-- A node with lists in a list, a node under it and a frame. -/
def nested : World :=
  let w := ((World.initial ⟨true, true, 0⟩ ⟨.directory [], []⟩).create true).2
  let w := (w.create true).2.put ⟨1⟩ "kid" (.node ⟨2⟩)
  let rows := [[Value.ofNat 1, Value.ofNat 2], [Value.ofNat 3]].map Value.list
  ((w.create false).2.put ⟨1⟩ "rows" (.list rows)).hold [⟨2⟩, ⟨1⟩, ⟨3⟩]

theorem closed_nested : nested.Closed := by
  have hroot := (closed_initial ⟨true, true, 0⟩ ⟨.directory [], []⟩).create true
  have hkid := @Closed.put _ (hroot.create true) ⟨1⟩ (by decide) "kid" (.node ⟨2⟩) (by decide)
  have hrows := @Closed.put _ (hkid.create false) ⟨1⟩ (by decide) "rows"
    (.list ([[Value.ofNat 1, Value.ofNat 2], [Value.ofNat 3]].map Value.list)) (by decide)
  refine ⟨hrows.references, hrows.parents, ?_⟩
  decide

/-- A node with a list of itself and of a second node, a frame, and a list of a third node whose
parent is the second. -/
def looped : World :=
  let w := ((World.initial ⟨true, true, 0⟩ ⟨.directory [], []⟩).create true).2
  let w := ((w.create false).2.create true).2
  let w := (w.create true).2.put ⟨3⟩ "k" (.node ⟨4⟩)
  let w := w.put ⟨1⟩ "m" (.list [.node ⟨4⟩])
  (w.put ⟨1⟩ "l" (.list [.node ⟨1⟩, .node ⟨3⟩])).hold [⟨1⟩, ⟨2⟩]

theorem closed_looped : looped.Closed := by
  have hroot := (closed_initial ⟨true, true, 0⟩ ⟨.directory [], []⟩).create true
  have hnodes := ((hroot.create false).create true).create true
  have hkid := @Closed.put _ hnodes ⟨3⟩ (by decide) "k" (.node ⟨4⟩) (by decide)
  have hkept := @Closed.put _ hkid ⟨1⟩ (by decide) "m" (.list [.node ⟨4⟩]) (by decide)
  have hlist := @Closed.put _ hkept ⟨1⟩ (by decide) "l" (.list [.node ⟨1⟩, .node ⟨3⟩]) (by decide)
  refine ⟨hlist.references, hlist.parents, ?_⟩
  decide

end World

/-- What a statement sees on the node under the one with the lists. -/
def Context.nested : Context := ⟨⟨2⟩, some ⟨1⟩, ⟨3⟩, ⟨0⟩⟩

/-- What a statement sees on the node with a list of itself in it. -/
def Context.looped : Context := ⟨⟨1⟩, none, ⟨2⟩, ⟨0⟩⟩

namespace Expr

/-- The expression `rows[0]`. -/
def firstRow : Expr := .index (.name "rows") (.literal (.number (Number.ofNat 0)))

/-- The expression `l[0].l`. -/
def throughLoop : Expr := .member (.index (.name "l") (.literal (.number (Number.ofNat 0)))) "l"

/-- From the node under it, an item of the first list is removed. -/
theorem replaces_list_nested :
    ∃ n key read path outer v,
      (Update.on firstRow (.removeAt (.number (Number.ofNat 1)))).eval (.ofFuel 0) Context.nested
          World.nested = (.done (Value.ofNat 2), v) ∧
        Replaced (.ofFuel 0) Context.nested World.nested v firstRow
          [Value.ofNat 1, Value.ofNat 2] [Value.ofNat 1] n key read path outer := by
  have hrows : Found Context.nested World.nested (.name "rows")
      (.list ([[Value.ofNat 1, Value.ofNat 2], [Value.ofNat 3]].map Value.list))
      [(⟨1⟩, "rows")] [] := .name (by decide +kernel) rfl
  have hrow : Found Context.nested World.nested firstRow
      (.list [Value.ofNat 1, Value.ofNat 2]) [(⟨1⟩, "rows")] [0] := .item hrows rfl rfl
  have halive : Context.nested.Alive World.nested := by
    unfold Context.Alive
    decide +kernel
  exact (Path.replaces_list (.removeAt (.number (Number.ofNat 1)))
    (.item _ (.name "rows") (hrows.eval rfl)) (hrow.eval rfl) World.closed_nested halive).1 _ _ rfl

/-- A list is cleared that a path leads to through the list itself. Afterwards the path leads to
nothing, and a node has no parent whose parent was in the list only. -/
theorem cleared_elsewhere :
    Path (.ofFuel 0) Context.looped World.looped throughLoop ∧
      throughLoop.eval (.ofFuel 0) Context.looped World.looped =
        (.done (.list [.node ⟨1⟩, .node ⟨3⟩]), World.looped) ∧
      ∃ v, (Update.on throughLoop .clear).eval (.ofFuel 0) Context.looped World.looped =
          (.done .null, v) ∧
        throughLoop.eval (.ofFuel 0) Context.looped v = (.done .null, v) ∧
        World.looped.parent? ⟨4⟩ = some ⟨3⟩ ∧ v.parent? ⟨4⟩ = none := by
  have hlist : Found Context.looped World.looped (.name "l") (.list [.node ⟨1⟩, .node ⟨3⟩])
      [(⟨1⟩, "l")] [] := .name (by decide +kernel) rfl
  have hnode : Found Context.looped World.looped
      (.index (.name "l") (.literal (.number (Number.ofNat 0)))) (.node ⟨1⟩)
      [(⟨1⟩, "l")] [0] := .item hlist rfl rfl
  have hfound : Found Context.looped World.looped throughLoop (.list [.node ⟨1⟩, .node ⟨3⟩])
      [(⟨1⟩, "l"), (⟨1⟩, "l")] [] := .member hnode rfl
  have halive : Context.looped.Alive World.looped := by
    unfold Context.Alive
    decide +kernel
  -- The cleared list has no first item any more, and what is not there has no members.
  have hcleared : Found Context.looped (World.looped.set ⟨1⟩ "l" (.list [])) (.name "l") (.list [])
      [(⟨1⟩, "l")] [] := .name (by decide +kernel) rfl
  have hitem : (Expr.index (.name "l") (.literal (.number (Number.ofNat 0)))).eval (.ofFuel 0)
      Context.looped (World.looped.set ⟨1⟩ "l" (.list [])) =
        (.done .null, World.looped.set ⟨1⟩ "l" (.list [])) :=
    eval_index_literal (hcleared.eval rfl) rfl
  refine ⟨.member "l" (.item _ (.name "l") (hlist.eval rfl)) (hnode.eval rfl), hfound.eval rfl,
    World.looped.set ⟨1⟩ "l" (.list []),
    hfound.update (u := .clear) rfl World.closed_looped halive rfl, ?_, ?_, ?_⟩
  · rw [throughLoop, eval, Action.bind_apply, hitem]
    rfl
  · decide +kernel
  · decide +kernel

end Expr

end ScriptTree
