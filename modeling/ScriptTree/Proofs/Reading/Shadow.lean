import ScriptTree.Node.Read
import ScriptTree.Proofs.World.Below
import ScriptTree.Proofs.World.Twin
import ScriptTree.Value.Method
import ScriptTree.Value.Operator

/-!
# Readings and their shadows

A reading stores nothing. All that it leaves behind are blank nodes, which stood in for a frame or
for the static node of a context (`World.Untouched`), so a second reading starts in a world with
blank nodes more than the first had. `World.Shadow` relates the two on the way: their worlds are the
ones that they started in with blank nodes, and the nodes that they hold are the same up to the
numbers of blank ones. Such worlds agree on what a reading asks: on what is stored, on parents and
lineages, on texts and on equality.
-/

set_option autoImplicit false

namespace ScriptTree

/-! ## Values with other nodes -/

namespace Value

variable (f : NodeId → NodeId)

@[simp] theorem typeName_rename (x : Value) : (x.rename f).typeName = x.typeName := by
  cases x <;> rfl

@[simp] theorem isTruthy_rename (x : Value) : (x.rename f).isTruthy = x.isTruthy := by
  cases x <;> rfl

@[simp] theorem isText_rename (x : Value) : (x.rename f).isText = x.isText := by
  cases x <;> rfl

@[simp] theorem index?_rename (x : Value) : (x.rename f).index? = x.index? := by
  cases x <;> rfl

@[simp] theorem order?_rename (x y : Value) : order? (x.rename f) (y.rename f) = order? x y := by
  cases x <;> cases y <;> rfl

@[simp] theorem rename_ofNumber? (n : Option Number) : (ofNumber? n).rename f = ofNumber? n := by
  cases n <;> rfl

@[simp] theorem negate_rename (x : Value) :
    (x.rename f).negate = x.negate.map (Value.rename f) := by
  cases x with
  | number n => exact congrArg Except.ok (rename_ofNumber? f n.neg).symm
  | _ => rfl

theorem badOperands_rename (op : Expr.Operator) (x y : Value) :
    (badOperands op (x.rename f) (y.rename f) : Except Script.Fault Value) =
      (badOperands op x y).map (Value.rename f) := by
  simp [badOperands, Except.map]

theorem ordered_rename (op : Expr.Operator) (test : Ordering → Bool) (x y : Value) :
    ordered op test (x.rename f) (y.rename f) = (ordered op test x y).map (Value.rename f) := by
  rw [ordered, ordered, order?_rename]
  split
  · rfl
  · exact badOperands_rename f op x y

theorem arithmetic_rename (op : Expr.Operator) (compute : Number → Number → Option Number)
    (x y : Value) :
    arithmetic op compute (x.rename f) (y.rename f) =
      (arithmetic op compute x y).map (Value.rename f) := by
  cases x <;> cases y <;> first
    | exact badOperands_rename f op _ _
    | exact congrArg Except.ok (rename_ofNumber? f _).symm

theorem division_rename (op : Expr.Operator) (compute : Number → Number → Option Number)
    (x y : Value) :
    division op compute (x.rename f) (y.rename f) =
      (division op compute x y).map (Value.rename f) := by
  cases x with
  | number m =>
      cases y with
      | number n =>
          show (if n.isZero then _ else _) = Except.map _ (if n.isZero then _ else _)
          split
          · rfl
          · exact congrArg Except.ok (rename_ofNumber? f _).symm
      | _ => exact badOperands_rename f op _ _
  | _ => cases y <;> exact badOperands_rename f op _ _

theorem itemAt_rename (items : List Value) (position : Option Nat) :
    itemAt (renameAll f items) position = (itemAt items position).rename f := by
  cases position with
  | none => rfl
  | some i =>
      simp only [itemAt, renameAll_eq_map, Option.bind_some, List.getElem?_map]
      cases items[i]? <;> rfl

end Value

namespace World

/-- The second world is the first with blank nodes besides; the computation under way may hold other
nodes and be inside of more expansions. -/
structure Padded (w w' : World) : Prop where
  size : w.cells.size ≤ w'.cells.size
  cell : ∀ m, w'.cell m = w.cell m
  engine : w'.engine = w.engine
  static : w'.static = w.static
  frames : w'.frames = w.frames
  loading : w'.loading = w.loading
  trace : w'.trace = w.trace
  files : w'.files = w.files

/-- The second world is the first with blank nodes besides. -/
structure Untouched (w w' : World) : Prop extends Padded w w' where
  expansions : w'.expansions = w.expansions
  held : w'.held = w.held

/-- A reading from `v` has come to `a` and one from `w` to `b`, where `w` is `v` with blank nodes
besides. -/
structure Shadow (v w a b : World) : Prop where
  closed : v.Closed
  /-- No node is stored below itself. -/
  acyclic : ∀ n, ¬ v.Under n n
  base : v.Untouched w
  left : v.Padded a
  right : w.Padded b
  size : b.cells.size + v.cells.size = a.cells.size + w.cells.size
  expansions : b.expansions = a.expansions
  held : b.held = a.held.map (NodeId.moved v w)

variable {v w a b : World}

theorem Padded.refl (w : World) : w.Padded w where
  size := Nat.le_refl _
  cell := fun _ => rfl
  engine := rfl
  static := rfl
  frames := rfl
  loading := rfl
  trace := rfl
  files := rfl

theorem Untouched.refl (w : World) : w.Untouched w := ⟨Padded.refl w, rfl, rfl⟩

theorem Padded.trans (h : v.Padded w) (h' : w.Padded a) : v.Padded a where
  size := Nat.le_trans h.size h'.size
  cell := fun m => (h'.cell m).trans (h.cell m)
  engine := h'.engine.trans h.engine
  static := h'.static.trans h.static
  frames := h'.frames.trans h.frames
  loading := h'.loading.trans h.loading
  trace := h'.trace.trans h.trace
  files := h'.files.trans h.files

theorem Untouched.trans (h : v.Untouched w) (h' : w.Untouched a) : v.Untouched a :=
  ⟨h.toPadded.trans h'.toPadded, h'.expansions.trans h.expansions, h'.held.trans h.held⟩

/-- A blank node. -/
theorem Padded.create (h : v.Padded a) : v.Padded (a.create false).2 where
  size := by
    show v.cells.size ≤ (a.cells.push _).size
    rw [Array.size_push]
    exact Nat.le_succ_of_le h.size
  cell := by
    intro m
    rw [cell_create, ← h.cell m]
    split
    · rename_i hlast
      rw [cell_of_size_le (Nat.le_of_eq hlast.symm)]
      rfl
    · rfl
  engine := h.engine
  static := h.static
  frames := h.frames
  loading := h.loading
  trace := h.trace
  files := h.files

/-- The nodes of a value are nodes of the world. -/
def Settled (v : World) (x : Value) : Prop := ∀ r ∈ x.nodes, r.index < v.cells.size

/-- Where nodes refer to later ones only, none is stored below itself. -/
theorem acyclic_of_lt (h : ∀ x, ∀ y ∈ references (w.cell x), x.index < y.index) (n : NodeId) :
    ¬ w.Under n n := by
  have hlater : ∀ {x y}, w.Under x y → x.index < y.index := by
    intro x y hunder
    induction hunder with
    | single href => exact h _ _ href
    | tail _ href ih => exact Nat.lt_trans ih (h _ _ href)
  exact fun hunder => Nat.lt_irrefl _ (hlater hunder)

/-! ## Where the readings start -/

theorem Closed.moved_held (h : v.Closed) : v.held.map (NodeId.moved v w) = v.held := by
  have hsame : ∀ x ∈ v.held, x.moved v w = id x := by
    intro x hx
    refine NodeId.moved_of_lt (h.holders x (List.mem_cons_of_mem _ ?_))
    exact List.mem_append_right _ hx
  rw [List.map_congr_left hsame, List.map_id]

theorem Shadow.start (hclosed : v.Closed) (hacyclic : ∀ n, ¬ v.Under n n) (h : v.Untouched w) :
    Shadow v w v w where
  closed := hclosed
  acyclic := hacyclic
  base := h
  left := Padded.refl v
  right := Padded.refl w
  size := Nat.add_comm _ _
  expansions := h.expansions
  held := by rw [h.held, hclosed.moved_held]

namespace Shadow

/-- A blank node in both worlds. -/
theorem create (h : Shadow v w a b) :
    (b.create false).1 = (a.create false).1.moved v w ∧
      Shadow v w (a.create false).2 (b.create false).2 := by
  have hsize := h.size
  have hleft := h.left.size
  have hbase := h.base.size
  refine ⟨?_, { h with left := h.left.create, right := h.right.create, size := ?_ }⟩
  · show (⟨b.cells.size⟩ : NodeId) = NodeId.moved v w ⟨a.cells.size⟩
    have hcount : b.cells.size = a.cells.size + (w.cells.size - v.cells.size) := by omega
    rw [NodeId.moved_of_le (m := ⟨a.cells.size⟩) hleft, hcount]
  · show (b.cells.push _).size + _ = (a.cells.push _).size + _
    rw [Array.size_push, Array.size_push]
    omega

/-- Nodes that both hold besides. -/
theorem hold (h : Shadow v w a b) (nodes : List NodeId) :
    Shadow v w { a with held := nodes ++ a.held }
      { b with held := nodes.map (NodeId.moved v w) ++ b.held } :=
  { h with
    left := { h.left with }
    right := { h.right with }
    held := by
      show _ = (nodes ++ a.held).map (NodeId.moved v w)
      rw [List.map_append, h.held] }

/-- Back to what was held before. -/
theorem letGo {a' b' : World} (h : Shadow v w a b) (h' : Shadow v w a' b') :
    Shadow v w { a' with held := a.held } { b' with held := b.held } :=
  { h' with left := { h'.left with }, right := { h'.right with }, held := h.held }

/-- The number of expansions under way is the same in both. -/
theorem expand (h : Shadow v w a b) (f : Nat → Nat) :
    Shadow v w { a with expansions := f a.expansions } { b with expansions := f b.expansions } :=
  { h with
    left := { h.left with }
    right := { h.right with }
    expansions := congrArg f h.expansions }

/-! ## What both agree on -/

/-- A node and its counterpart are stored alike. -/
theorem cell (h : Shadow v w a b) (m : NodeId) : b.cell (m.moved v w) = a.cell m := by
  rw [h.right.cell, h.base.cell, h.left.cell]
  by_cases hm : m.index < v.cells.size
  · rw [NodeId.moved_of_lt hm]
  · -- Later nodes are blank in both.
    have hle := Nat.not_lt.mp hm
    have hmoved := NodeId.le_index_moved h.base.size hle
    rw [cell_of_size_le hle, cell_of_size_le (Nat.le_trans h.base.size hmoved)]

theorem settled_getRaw (h : Shadow v w a b) {m : NodeId} {key : String} {x : Value}
    (hx : a.getRaw m key = some x) : v.Settled x := by
  intro r hr
  rw [World.getRaw, h.left.cell] at hx
  refine h.closed.references m r (List.mem_flatMap.mpr ⟨(key, x), ?_, hr⟩)
  exact Entries.mem_of_get?_eq_some hx

theorem rename_of_settled {x : Value} (hx : v.Settled x) : x.rename (NodeId.moved v w) = x :=
  Value.rename_eq_self x fun r hr => NodeId.moved_of_lt (hx r hr)

theorem getRaw (h : Shadow v w a b) (m : NodeId) (key : String) :
    b.getRaw (m.moved v w) key = a.getRaw m key := by
  rw [World.getRaw, h.cell, World.getRaw]

theorem containsKey (h : Shadow v w a b) (m : NodeId) (key : String) :
    b.containsKey (m.moved v w) key = a.containsKey m key := by
  rw [World.containsKey, h.cell, World.containsKey]

theorem expandsOn (h : Shadow v w a b) (m : NodeId) :
    b.expandsOn (m.moved v w) = a.expandsOn m := by
  rw [World.expandsOn, World.expandsOn, h.cell, h.right.engine, h.base.engine, h.left.engine]

theorem static (h : Shadow v w a b) : b.static = a.static.moved v w := by
  have hstatic : v.static.moved v w = v.static :=
    NodeId.moved_of_lt (h.closed.holders _ List.mem_cons_self)
  rw [h.right.static, h.base.static, h.left.static, hstatic]

theorem frames (h : Shadow v w a b) : b.frames = a.frames.map (NodeId.moved v w) := by
  have hsame : ∀ x ∈ v.frames, x.moved v w = id x := by
    intro x hx
    refine NodeId.moved_of_lt (h.closed.holders x (List.mem_cons_of_mem _ ?_))
    exact List.mem_append_left _ hx
  rw [h.right.frames, h.base.frames, h.left.frames, List.map_congr_left hsame, List.map_id]

theorem holders (h : Shadow v w a b) : b.holders = a.holders.map (NodeId.moved v w) := by
  rw [World.holders, World.holders, h.static, h.frames, h.held, List.map_cons, List.map_append]

/-- What is referred to does not move. -/
theorem moved_of_mem_references (h : Shadow v w a b) {x y : NodeId}
    (hx : x ∈ references (a.cell y)) : x.moved v w = x := by
  rw [h.left.cell] at hx
  exact NodeId.moved_of_lt (h.closed.references y x hx)

theorem lt_size_iff (h : Shadow v w a b) (x : NodeId) :
    (x.moved v w).index < b.cells.size ↔ x.index < a.cells.size := by
  have hsize := h.size
  have hleft := h.left.size
  have hbase := h.base.size
  by_cases hx : x.index < v.cells.size
  · rw [NodeId.moved_of_lt hx]
    omega
  · rw [NodeId.index_moved_of_le (Nat.not_lt.mp hx)]
    omega

/-- A node that refers to a counterpart is the counterpart of one that refers to its original. -/
theorem exists_of_mem_references (h : Shadow v w a b) {x y : NodeId}
    (hmem : x.moved v w ∈ references (b.cell y)) :
    ∃ y', y'.moved v w = y ∧ x ∈ references (a.cell y') := by
  have hcell : b.cell y = v.cell y := by rw [h.right.cell, h.base.cell]
  rw [hcell] at hmem
  by_cases hy : y.index < v.cells.size
  · have hx : x.moved v w = x := by
      by_contra hne
      -- A node that moves is none of the first world, and nothing refers to it.
      have hlater : ¬ x.index < v.cells.size := fun hlt => hne (NodeId.moved_of_lt hlt)
      have hmoved := NodeId.le_index_moved h.base.size (Nat.not_lt.mp hlater)
      have hrange := h.closed.references y _ hmem
      have hbase := h.base.size
      omega
    rw [hx] at hmem
    exact ⟨y, NodeId.moved_of_lt hy, by rw [h.left.cell]; exact hmem⟩
  · rw [cell_of_size_le (Nat.not_lt.mp hy)] at hmem
    cases hmem

theorem alive (h : Shadow v w a b) (m : NodeId) : b.alive (m.moved v w) = a.alive m := by
  have hheld : ∀ x : NodeId, x.moved v w ∈ b.holders ↔ x ∈ a.holders := by
    intro x
    rw [h.holders]
    exact List.mem_map_of_injective (NodeId.moved_injective v w)
  rw [Bool.eq_iff_iff, alive_iff, alive_iff]
  -- Nodes that support each other have counterparts that do, and the other way round.
  constructor
  · rintro ⟨nodes, hm, hsupports⟩
    refine ⟨fun x => nodes (x.moved v w), hm, fun x hx => ?_⟩
    rcases hsupports _ hx with hholder | ⟨hrange, y, hy, hmem⟩
    · exact .inl ((hheld x).mp hholder)
    · obtain ⟨y', rfl, hback⟩ := h.exists_of_mem_references hmem
      exact .inr ⟨(h.lt_size_iff x).mp hrange, y', hy, hback⟩
  · rintro ⟨nodes, hm, hsupports⟩
    refine ⟨fun x => ∃ x', x'.moved v w = x ∧ nodes x', ⟨m, rfl, hm⟩, ?_⟩
    rintro _ ⟨x, rfl, hx⟩
    rcases hsupports x hx with hholder | ⟨hrange, y, hy, hmem⟩
    · exact .inl ((hheld x).mpr hholder)
    · refine .inr ⟨(h.lt_size_iff x).mpr hrange, y.moved v w, ⟨y, rfl, hy⟩, ?_⟩
      rw [h.cell, h.moved_of_mem_references hmem]
      exact hmem

theorem parent? (h : Shadow v w a b) (m : NodeId) :
    b.parent? (m.moved v w) = (a.parent? m).map (NodeId.moved v w) := by
  rw [World.parent?, World.parent?, h.cell]
  cases hp : (a.cell m).parent with
  | none => rfl
  | some p =>
      have hold : p.moved v w = p := by
        rw [h.left.cell] at hp
        exact NodeId.moved_of_lt (h.closed.parents m p hp)
      have halive := h.alive p
      rw [hold] at halive
      rw [Option.filter_some, Option.filter_some, halive]
      split
      · rw [Option.map_some, hold]
      · rfl

theorem lineage (h : Shadow v w a b) (m : NodeId) :
    b.lineage (m.moved v w) = (a.lineage m).map (NodeId.moved v w) := by
  by_cases hm : m.index < a.cells.size
  · have hsize := h.size
    have hbase := h.base.size
    refine lineage_rename (NodeId.moved_injective v w) h.parent? (fun x p hp => ?_) (by omega) hm
    have hlink : (a.cell x).parent = some p := (Option.filter_eq_some_iff.mp hp).1
    rw [h.left.cell] at hlink
    exact Nat.lt_of_lt_of_le (h.closed.parents x p hlink) h.left.size
  · -- There is no such node, and nothing is above it.
    have hnone : a.parent? m = none := by
      rw [World.parent?, cell_of_size_le (Nat.not_lt.mp hm)]
      rfl
    have hnone' : b.parent? (m.moved v w) = none := by rw [h.parent?, hnone]; rfl
    rw [lineage_of_parent?_eq_none hnone, lineage_of_parent?_eq_none hnone', List.map_singleton]

theorem path (h : Shadow v w a b) (m : NodeId) : b.path (m.moved v w) = a.path m :=
  path_rename (h.lineage m) fun m => by rw [h.cell]

/-- The nearest node that holds a key. -/
theorem holder? (h : Shadow v w a b) (n : NodeId) (key : String) :
    b.holder? (n.moved v w) key = (a.holder? n key).map (NodeId.moved v w) := by
  rw [World.holder?, h.lineage, List.find?_map, World.holder?]
  have hsame : (fun m => b.containsKey m key) ∘ NodeId.moved v w = fun m => a.containsKey m key :=
    funext fun m => h.containsKey m key
  rw [hsame]

/-! ### Texts -/

/-- Objects of nodes are the same with fuel for all nodes that are stored below each other. -/
theorem objectWithin (h : Shadow v w a b) (fuel fuel' : Nat) {above : List NodeId} (m : NodeId)
    (hnodup : above.Nodup) (habove : ∀ x ∈ above, x.index < v.cells.size ∧ v.Under x m)
    (hfuel : v.cells.size < above.length + fuel) (hfuel' : v.cells.size < above.length + fuel') :
    b.objectWithin fuel' (m.moved v w) = a.objectWithin fuel m := by
  have hcount : above.length ≤ v.cells.size :=
    length_le_size hnodup fun x hx => (habove x hx).1
  induction fuel generalizing fuel' above m with
  | zero => omega
  | succ fuel ih =>
      cases fuel' with
      | zero => omega
      | succ fuel' =>
          -- What lies below the node has one node more above it.
          have hobject : ∀ r ∈ references (a.cell m),
              b.objectWithin fuel' (r.moved v w) = a.objectWithin fuel r := by
            intro r hr
            rw [h.left.cell] at hr
            have hlt : m.index < v.cells.size := by
              by_contra hm
              rw [cell_of_size_le (Nat.not_lt.mp hm)] at hr
              cases hr
            have hmem : m ∉ above := fun hmem => h.acyclic m (habove m hmem).2
            have hnext : ∀ x ∈ m :: above, x.index < v.cells.size ∧ v.Under x r := by
              intro x hx
              rcases List.mem_cons.mp hx with rfl | hx
              · exact ⟨hlt, .single hr⟩
              · exact ⟨(habove x hx).1, (habove x hx).2.tail hr⟩
            have hlength : (m :: above).length = above.length + 1 := List.length_cons
            have hnodup' := List.nodup_cons.mpr ⟨hmem, hnodup⟩
            exact ih fuel' r hnodup' hnext (by omega) (by omega)
              (length_le_size hnodup' fun x hx => (hnext x hx).1)
          rw [World.objectWithin, World.objectWithin, h.cell]
          refine congrArg Json.object ?_
          rw [Entries.mapValues, Entries.mapValues]
          refine List.map_congr_left fun p hp => congrArg (Prod.mk p.1) ?_
          have hnodes : ∀ r ∈ p.2.nodes, r ∈ references (a.cell m) :=
            fun r hr => List.mem_flatMap.mpr ⟨p, hp, hr⟩
          have hself : p.2.rename (NodeId.moved v w) = p.2 :=
            Value.rename_eq_self p.2 fun r hr => h.moved_of_mem_references (hnodes r hr)
          have hsame := Value.json_rename (reader_rendering b a _ _) p.2 _ _
            (fun r _ => h.path r) (fun r hr => hobject r (hnodes r hr))
            (fun r hr => hobject r (hnodes r hr))
          rwa [hself] at hsame

theorem object (h : Shadow v w a b) (m : NodeId) : b.object (m.moved v w) = a.object m := by
  have hsize := h.size
  have hleft := h.left.size
  have hbase := h.base.size
  refine h.objectWithin _ _ m List.nodup_nil (by simp) ?_ ?_
  · rw [List.length_nil]
    omega
  · rw [List.length_nil]
    omega

theorem text (h : Shadow v w a b) (x : Value) : b.text (x.rename (NodeId.moved v w)) = a.text x :=
  Value.show_rename (reader_rendering b a _ _) x (fun r _ => h.path r) fun r _ => h.object r

theorem message (h : Shadow v w a b) (cause : Failure) :
    b.message (cause.rename (NodeId.moved v w)) = a.message cause :=
  Failure.message_rename (reader_rendering b a _ _) cause (fun r _ => h.path r)
    fun r _ => h.object r

theorem same (h : Shadow v w a b) (x y : Value) :
    b.same (x.rename (NodeId.moved v w)) (y.rename (NodeId.moved v w)) = a.same x y := by
  have hobject : ∀ m, b.view.object (m.moved v w) = a.view.object m := by
    intro m
    simp only [view, rendering]
    exact h.object m
  exact Value.same_rename (NodeId.moved_injective v w) (reader_rendering b a _ _)
    (fun m => h.path m) hobject x y

theorem binary (h : Shadow v w a b) (op : Expr.Operator) (x y : Value) :
    b.binary op (x.rename (NodeId.moved v w)) (y.rename (NodeId.moved v w)) =
      (a.binary op x y).map (Value.rename (NodeId.moved v w)) := by
  cases op with
  | eq => exact congrArg (fun same => Except.ok (Value.bool same)) (h.same x y)
  | ne => exact congrArg (fun same => Except.ok (Value.bool !same)) (h.same x y)
  | lt | le | gt | ge => exact Value.ordered_rename _ _ _ x y
  | add =>
      rw [World.binary, World.binary, Value.isText_rename, Value.isText_rename, h.text, h.text]
      split
      · rfl
      · exact Value.arithmetic_rename _ _ _ x y
  | sub | mul => exact Value.arithmetic_rename _ _ _ x y
  | div | mod => exact Value.division_rename _ _ _ x y

theorem failureMember? (h : Shadow v w a b) (cause : Failure) (name : String) :
    b.failureMember? (cause.rename (NodeId.moved v w)) name =
      (a.failureMember? cause name).map (Value.rename (NodeId.moved v w)) := by
  unfold World.failureMember?
  split
  · rw [h.message]
    rfl
  · cases cause <;> rfl
  · cases cause <;> rfl
  · rfl

end Shadow

/-- Blank nodes are no parents, and keep none alive. -/
theorem Untouched.parent?_eq (h : v.Untouched w) (hclosed : v.Closed)
    (hacyclic : ∀ n, ¬ v.Under n n) (m : NodeId) : w.parent? m = v.parent? m := by
  have hparent := (Shadow.start hclosed hacyclic h).parent? m
  by_cases hm : m.index < v.cells.size
  · rw [NodeId.moved_of_lt hm] at hparent
    rw [hparent]
    cases hp : v.parent? m with
    | none => rfl
    | some p =>
        have hlink : (v.cell m).parent = some p := (Option.filter_eq_some_iff.mp hp).1
        rw [Option.map_some, NodeId.moved_of_lt (hclosed.parents m p hlink)]
  · rw [World.parent?, World.parent?, h.cell, cell_of_size_le (Nat.not_lt.mp hm)]
    rfl

end World

end ScriptTree
