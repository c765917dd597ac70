import ScriptTree.Proofs.Place.Slots
import ScriptTree.Proofs.Reading.Indifferent
import ScriptTree.Proofs.Steps.Evaluation
import ScriptTree.Proofs.World.Forest

/-!
# Places that are read again

An expression that calls nothing and assigns nothing has the same value when it is evaluated again,
as long as nothing but blank nodes have come to the world and nothing but living nodes are held
besides (`Expr.eval_nearby`). So a place whose parts are such expressions is reread: the second walk
leads to the slot that the first one has read (`Change.rereads_of_isReading`).
-/

set_option autoImplicit false

namespace ScriptTree

theorem World.Padded.gains {w w' : World} (h : w.Padded w')
    (hexpansions : w'.expansions = w.expansions) (hheld : w'.held = w.held) : w.Gains w' where
  size := h.size
  cell := fun m _ => h.cell m
  engine := h.engine
  static := h.static
  frames := h.frames
  loading := h.loading
  trace := h.trace
  files := h.files
  expansions := hexpansions
  held := hheld

/-- The nodes of the value are alive. -/
def Value.Living (v : World) (x : Value) : Prop := ∀ m ∈ x.nodes, v.alive m = true

theorem Value.Living.rename {v w : World} {x : Value} (hx : x.Living v) (hclosed : v.Closed) :
    x.rename (NodeId.moved v w) = x :=
  x.rename_eq_self fun m hm => NodeId.moved_of_lt (World.lt_size_of_alive hclosed (hx m hm))

/-- A world that differs from `v` in blank nodes, and in nodes that are held besides and are alive
in `v`. -/
structure World.Nearby (v a : World) : Prop where
  padded : v.Padded a
  expansions : a.expansions = v.expansions
  kept : ∀ x ∈ v.held, x ∈ a.held
  living : ∀ x ∈ a.held, v.alive x = true

namespace World.Nearby

variable {v a a' : World} {nodes held : List NodeId}

theorem refl (v : World) : v.Nearby v where
  padded := Padded.refl v
  expansions := rfl
  kept := fun _ hx => hx
  living := fun _ hx =>
    alive_of_mem_holders (List.mem_cons_of_mem _ (List.mem_append_right _ hx))

theorem hold (h : v.Nearby a) (hnodes : ∀ m ∈ nodes, v.alive m = true) :
    v.Nearby (a.hold nodes) where
  padded := { h.padded with }
  expansions := h.expansions
  kept := fun x hx => List.mem_append_right _ (h.kept x hx)
  living := fun x hx => (List.mem_append.mp hx).elim (hnodes x) (h.living x)

/-- Nodes are let go. -/
theorem reheld (h : v.Nearby a) (h' : v.Nearby a') : v.Nearby (a'.reheld a.held) where
  padded := { h'.padded with }
  expansions := h'.expansions
  kept := h.kept
  living := h.living

theorem untouched (h : v.Nearby a) : v.Untouched (a.reheld v.held) where
  toPadded := { h.padded with }
  expansions := h.expansions
  held := rfl

theorem tolerates (h : v.Nearby a) (hclosed : v.Closed) :
    v.Tolerates (a.reheld v.held) a.held where
  closed := hclosed
  padded := { h.padded with }
  kept := fun _ hx => hx
  fewer := h.kept
  more := fun x hx => .inr (.inl (h.living x hx))

variable (h : v.Nearby a)
include h

theorem getRaw (n : NodeId) (key : String) : a.getRaw n key = v.getRaw n key := by
  rw [World.getRaw, h.padded.cell, World.getRaw]

theorem containsKey (n : NodeId) (key : String) : a.containsKey n key = v.containsKey n key := by
  rw [World.containsKey, h.padded.cell, World.containsKey]

variable (hclosed : v.Closed) (hacyclic : ∀ n, ¬ v.Under n n)
include hclosed hacyclic

/-- The nearest node that holds a key is the same. -/
theorem holder? {n : NodeId} (hn : v.alive n = true) (key : String) :
    a.holder? n key = v.holder? n key := by
  have hshadow := (Shadow.start hclosed hacyclic h.untouched).holder? n key
  rw [NodeId.moved_of_lt (lt_size_of_alive hclosed hn)] at hshadow
  have hsame : a.holder? n key = (a.reheld v.held).holder? n key :=
    (h.tolerates hclosed).holder? n key
  rw [hsame, hshadow]
  cases hfound : v.holder? n key with
  | none => rfl
  | some m =>
      have hm := alive_of_mem_lineage (List.mem_of_find?_eq_some hfound) hn
      rw [Option.map_some, NodeId.moved_of_lt (lt_size_of_alive hclosed hm)]

/-- The text of a value of living nodes is the same. -/
theorem text {x : Value} (hx : x.Living v) : a.text x = v.text x := by
  have hshadow := (Shadow.start hclosed hacyclic h.untouched).text x
  rw [hx.rename hclosed] at hshadow
  have hsame : a.text x = (a.reheld v.held).text x := (h.tolerates hclosed).text x
  rw [hsame, hshadow]

/-- The parts of a failure are the same. -/
theorem failureMember? {cause : Failure} (hcause : (Value.failure cause).Living v)
    (name : String) : a.failureMember? cause name = v.failureMember? cause name := by
  have hshadow := (Shadow.start hclosed hacyclic h.untouched).failureMember? cause name
  have hself := hcause.rename (w := a.reheld v.held) hclosed
  rw [Value.rename, Value.failure.injEq] at hself
  rw [hself] at hshadow
  have hsame : a.failureMember? cause name = (a.reheld v.held).failureMember? cause name :=
    (h.tolerates hclosed).failureMember? cause name
  rw [hsame, hshadow]
  cases hpart : v.failureMember? cause name with
  | none => rfl
  | some x =>
      have hx : x.Living v := fun m hm => hcause m (Value.nodes_of_failureMember? hpart m hm)
      rw [Option.map_some, hx.rename hclosed]

theorem binary (op : Expr.Operator) {x y : Value} (hx : x.Living v) (hy : y.Living v) :
    a.binary op x y = v.binary op x y := by
  have hshadow := (Shadow.start hclosed hacyclic h.untouched).binary op x y
  rw [hx.rename hclosed, hy.rename hclosed] at hshadow
  have hsame : a.binary op x y = (a.reheld v.held).binary op x y :=
    (h.tolerates hclosed).binary op x y
  rw [hsame, hshadow]
  cases hresult : v.binary op x y with
  | error fault => rfl
  | ok z =>
      have hz : z.Living v := fun m hm => by
        rw [Value.nodes_of_binary hresult] at hm
        cases hm
      exact congrArg Except.ok (hz.rename hclosed)

/-- So is the node that a name is read from. -/
theorem holder?_eq {c : Context} (hc : c.Alive v) (s : String) :
    c.holder? a s = c.holder? v s := by
  rw [Context.holder?, Context.holder?, h.containsKey, h.containsKey,
    h.holder? hclosed hacyclic (hc _ List.mem_cons_self)]

end World.Nearby

/-- The action has one outcome in all worlds nearby, a value as `Q` says if it is done, and leaves
nothing behind but blank nodes. -/
def Action.Certain {α : Type} (v : World) (Q : α → Prop) (p : Action α) : Prop :=
  ∃ outcome, (∀ x, outcome = .done x → Q x) ∧
    ∀ a, v.Nearby a → (p a).1 = outcome ∧ v.Nearby (p a).2 ∧ a.Gains (p a).2

/-- In all worlds nearby the action is done with the value. -/
def Action.Gives {α : Type} (v : World) (p : Action α) (x : α) : Prop :=
  ∀ a, v.Nearby a → ∃ a', p a = (.done x, a') ∧ v.Nearby a' ∧ a.Gains a'

namespace Action

variable {α β : Type} {v : World} {Q : α → Prop} {R : β → Prop} {p : Action α}
  {next : α → Action β} {x : α}

theorem Certain.pure (hx : Q x) : Certain v Q (Pure.pure x) :=
  ⟨.done x, fun _ h => Outcome.done.inj h ▸ hx, fun a ha => ⟨rfl, ha, .refl a⟩⟩

theorem Certain.fail (cause : Failure) : Certain v Q (Action.fail cause) :=
  ⟨.failed cause, nofun, fun a ha => ⟨rfl, ha, .refl a⟩⟩

/-- What is seen is the same in all worlds nearby. -/
theorem Certain.inspect {f : World → α} (hf : ∀ a, v.Nearby a → f a = x) (hx : Q x) :
    Certain v Q (Action.inspect f) :=
  ⟨.done x, fun _ h => Outcome.done.inj h ▸ hx,
    fun a ha => ⟨congrArg Outcome.done (hf a ha), ha, .refl a⟩⟩

theorem Certain.bind (hp : Certain v Q p) (hnext : ∀ x, Q x → Certain v R (next x)) :
    Certain v R (p >>= next) := by
  obtain ⟨outcome, hvalue, hrun⟩ := hp
  cases outcome with
  | done x =>
      obtain ⟨outcome', hvalue', hrun'⟩ := hnext x (hvalue x rfl)
      refine ⟨outcome', hvalue', fun a ha => ?_⟩
      obtain ⟨hdone, hnearby, hgains⟩ := hrun a ha
      have hfirst : (p >>= next) a = next x (p a).2 := bind_done (Prod.ext hdone rfl)
      obtain ⟨hdone', hnearby', hgains'⟩ := hrun' _ hnearby
      rw [hfirst]
      exact ⟨hdone', hnearby', hgains.trans hgains'⟩
  | failed cause =>
      refine ⟨.failed cause, nofun, fun a ha => ?_⟩
      obtain ⟨hfailed, hend⟩ := hrun a ha
      rw [bind_apply, show p a = (.failed cause, (p a).2) from Prod.ext hfailed rfl]
      exact ⟨rfl, hend⟩
  | exhausted =>
      refine ⟨.exhausted, nofun, fun a ha => ?_⟩
      obtain ⟨hexhausted, hend⟩ := hrun a ha
      rw [bind_apply, show p a = (.exhausted, (p a).2) from Prod.ext hexhausted rfl]
      exact ⟨rfl, hend⟩

theorem Certain.map {f : α → β} (hp : Certain v Q p) (hf : ∀ x, Q x → R (f x)) :
    Certain v R (f <$> p) :=
  hp.bind fun x hx => Certain.pure (hf x hx)

theorem Certain.holding {nodes : List NodeId} (hnodes : ∀ m ∈ nodes, v.alive m = true)
    (hp : Certain v Q p) : Certain v Q (Action.holding nodes p) := by
  obtain ⟨outcome, hvalue, hrun⟩ := hp
  refine ⟨outcome, hvalue, fun a ha => ?_⟩
  obtain ⟨hdone, hnearby, hgains⟩ := hrun _ (ha.hold hnodes)
  exact ⟨hdone, ha.reheld hnearby, hgains.reheld rfl⟩

theorem Certain.ofFaulty {result : Except Script.Fault α}
    (hvalue : ∀ x, result = .ok x → Q x) : Certain v Q (Action.ofFaulty result) := by
  cases result with
  | ok x => exact Certain.pure (hvalue x rfl)
  | error fault => exact Certain.fail _

/-- What it is done with in one world nearby, it is done with in all. -/
theorem Certain.gives (hp : Certain v Q p) {a a' : World} (ha : v.Nearby a)
    (h : p a = (.done x, a')) : Q x ∧ v.Nearby a' ∧ Gives v p x := by
  obtain ⟨outcome, hvalue, hrun⟩ := hp
  obtain ⟨hdone, hnearby, -⟩ := hrun a ha
  rw [h] at hdone hnearby
  obtain rfl : .done x = outcome := hdone
  refine ⟨hvalue x rfl, hnearby, fun b hb => ?_⟩
  obtain ⟨hdone', hend⟩ := hrun b hb
  exact ⟨(p b).2, Prod.ext hdone' rfl, hend⟩

theorem Gives.pure (x : α) : Gives v (Pure.pure x) x := fun a ha => ⟨a, rfl, ha, .refl a⟩

theorem Gives.inspect {f : World → α} (hf : ∀ a, v.Nearby a → f a = x) :
    Gives v (Action.inspect f) x :=
  fun a ha => ⟨a, Prod.ext (congrArg Outcome.done (hf a ha)) rfl, ha, .refl a⟩

theorem Gives.bind {y : β} (hp : Gives v p x) (hnext : Gives v (next x) y) :
    Gives v (p >>= next) y := by
  intro a ha
  obtain ⟨b, hfirst, hb, hgains⟩ := hp a ha
  obtain ⟨d, hsecond, hd, hgains'⟩ := hnext b hb
  exact ⟨d, (bind_done hfirst).trans hsecond, hd, hgains.trans hgains'⟩

theorem Gives.holding {nodes : List NodeId} (hnodes : ∀ m ∈ nodes, v.alive m = true)
    (hp : Gives v p x) : Gives v (Action.holding nodes p) x := by
  intro a ha
  obtain ⟨b, hdone, hb, hgains⟩ := hp _ (ha.hold hnodes)
  refine ⟨b.reheld a.held, ?_, ha.reheld hb, hgains.reheld rfl⟩
  show ((p (a.hold nodes)).1, (p (a.hold nodes)).2.reheld a.held) = _
  rw [hdone]

end Action

/-- All that is stored is calm, no node is stored below itself, and the fuel covers the expansions
that may still be started. -/
structure World.Quiet (v : World) (fuel : Nat) : Prop where
  closed : v.Closed
  acyclic : ∀ n, ¬ v.Under n n
  calm : v.Calm
  positive : 0 < fuel
  enough : Template.depthLimit < v.expansions + fuel

/-! ## Readings -/

section Readings

open ScriptTree.Action (Certain)

variable {v : World} {lang : Language}

theorem Value.living_getD {found : Option Value} (h : ∀ x ∈ found, x.Living v) :
    (found.getD .null).Living v := by
  cases found with
  | none => exact nofun
  | some x => exact h x rfl

theorem Value.living_itemAt {items : List Value} (h : (Value.list items).Living v)
    (position : Option Nat) : (itemAt items position).Living v := by
  refine living_getD fun x hx m hm => h m (Value.mem_allNodes.mpr ⟨x, ?_, hm⟩)
  obtain ⟨i, -, hi⟩ := Option.bind_eq_some_iff.mp hx
  exact List.mem_of_getElem? hi

theorem Value.living_of_nodes {x : Value} (h : x.nodes = []) : x.Living v := by
  intro m hm
  rw [h] at hm
  cases hm

/-- What a living node holds is living. -/
theorem NodeId.get_living (hclosed : v.Closed) {w' : World} {n : NodeId} (hn : v.alive n = true)
    {key : String} {found : Option Value} (h : n.get lang key v = (.done found, w')) :
    ∀ x ∈ found, x.Living v := by
  rcases NodeId.get_eq_done h with ⟨-, rfl⟩ | ⟨y, rfl, hstored⟩
  · exact nofun
  · rintro x ⟨⟩
    cases hx : y.isText with
    | true =>
        cases y with
        | text s => exact nofun
        | _ => cases hx
    | false => exact World.alive_of_getRaw hclosed (hstored hx) hn

variable {fuel : Nat} (hv : v.Quiet fuel)
include hv

theorem NodeId.get_certain {n : NodeId} (hn : v.alive n = true) (key : String) :
    Certain v (fun found => ∀ x ∈ found, x.Living v) (n.get (.ofFuel fuel) key) := by
  refine ⟨(n.get (.ofFuel fuel) key v).1, fun found hfound => ?_, fun a ha => ?_⟩
  · exact NodeId.get_living hv.closed hn (Prod.ext hfound rfl)
  · have hshadows := NodeId.get_shadows (w := a.reheld v.held)
      (Language.shadows_ofFuel hv.calm hv.positive hv.positive hv.enough hv.enough) hv.calm n key
    rw [NodeId.moved_of_lt (World.lt_size_of_alive hv.closed hn)] at hshadows
    obtain ⟨-, -, hrun⟩ := NodeId.get_indifferent (Language.indifferent_ofFuel hv.calm fuel)
      hv.calm n key _ _ (ha.tolerates hv.closed)
    rcases hshadows v _ (World.Shadow.start hv.closed hv.acyclic ha.untouched) rfl with
      ⟨x, y, v', b, hfirst, hsecond, hafter, hsame, -⟩ | ⟨_, _, _, hfails, _, _, _⟩
    · obtain rfl : y = x := hsame
      have hthere : n.get (.ofFuel fuel) key a = (.done y, b.reheld a.held) := by
        have hsame : (a.reheld v.held).reheld a.held = a := rfl
        rw [hsame] at hrun
        rw [hrun, hsecond]
      have hexpansions : b.expansions = v.expansions :=
        hafter.shadow.expansions.trans hafter.expansions
      have hpadded : a.Padded (b.reheld a.held) := { hafter.shadow.right with }
      rw [hthere, hfirst]
      refine ⟨rfl, ⟨ha.padded.trans hpadded, hexpansions, ha.kept, ha.living⟩, ?_⟩
      exact hpadded.gains (hexpansions.trans ha.expansions.symm) rfl
    · exact hfails.elim

theorem Context.lookup_certain {c : Context} (hc : c.Alive v) (s : String) :
    Certain v (fun found => ∀ x ∈ found, x.Living v) (c.lookup (.ofFuel fuel) s) := by
  have hthis := hc _ List.mem_cons_self
  have hframe := hc _ (List.mem_cons_of_mem _ List.mem_cons_self)
  have hstatic := hc _ (List.mem_cons_of_mem _ (List.mem_cons_of_mem _ List.mem_cons_self))
  have hraw : ∀ {n}, v.alive n = true → ∀ x ∈ v.getRaw n s, x.Living v :=
    fun hn x hx => World.alive_of_getRaw hv.closed hx hn
  rw [lookup]
  split
  · rename_i value hbinding
    refine Certain.pure ?_
    rintro x ⟨⟩
    exact hc.of_binding hbinding
  · refine Certain.bind (Q := fun found => ∀ x ∈ found, x.Living v)
      (Certain.inspect (fun a ha => ha.getRaw c.frame s) (hraw hframe)) ?_
    rintro (_ | value) hvalue
    · refine Certain.bind (Q := fun found => ∀ x ∈ found, x.Living v) ?_ ?_
      · rw [NodeId.resolve]
        refine Certain.bind (Certain.inspect (Q := fun holder => ∀ n ∈ holder, v.alive n = true)
          (fun a ha => ha.holder? hv.closed hv.acyclic hthis s) ?_) ?_
        · exact fun n hn => World.alive_of_mem_lineage (List.mem_of_find?_eq_some hn) hthis
        · rintro (_ | holder) hholder
          · exact Certain.pure (by rintro x ⟨⟩)
          · refine Certain.holding (fun m hm => ?_) (NodeId.get_certain hv (hholder _ rfl) s)
            rw [List.mem_singleton.mp hm]
            exact hholder _ rfl
      · rintro (_ | value) hvalue
        · exact Certain.inspect (fun a ha => ha.getRaw c.static s) (hraw hstatic)
        · exact Certain.pure hvalue
    · exact Certain.pure hvalue

theorem Value.member_certain {target : Value} (ht : target.Living v) (s : String) :
    Certain v (Value.Living v) (target.member (.ofFuel fuel) s) := by
  cases target with
  | node n =>
      exact (NodeId.get_certain hv (ht n List.mem_cons_self) s).map
        fun found => living_getD
  | list items =>
      refine Certain.pure ?_
      split
      · exact nofun
      · exact living_itemAt ht _
  | text t =>
      refine Certain.pure ?_
      split <;> exact nofun
  | failure cause =>
      refine Certain.inspect (x := (v.failureMember? cause s).getD .null) (fun a ha => ?_) ?_
      · rw [ha.failureMember? hv.closed hv.acyclic ht]
      · exact living_getD fun x hx m hm => ht m (nodes_of_failureMember? hx m hm)
  | _ => exact Certain.pure nofun

theorem Value.part_certain {target key : Value} (ht : target.Living v) (hkey : key.Living v) :
    Certain v (Value.Living v) (target.part (.ofFuel fuel) key) := by
  cases target with
  | node n =>
      refine Certain.bind (Certain.inspect (Q := fun _ => True)
        (fun a ha => ha.text hv.closed hv.acyclic hkey) trivial) fun name _ => ?_
      exact (NodeId.get_certain hv (ht n List.mem_cons_self) _).map
        fun found => living_getD
  | list items => exact Certain.pure (living_itemAt ht _)
  | text t =>
      refine Certain.pure ?_
      split <;> exact nofun
  | _ => exact Certain.pure nofun

end Readings

section Expressions

open ScriptTree.Action (Certain)

variable {v : World} {fuel : Nat} {c : Context}

mutual

theorem Expr.eval_certain (hv : v.Quiet fuel) (hc : c.Alive v) :
    ∀ e : Expr, e.isReading = true → Certain v (Value.Living v) (e.eval (.ofFuel fuel) c)
  | .literal value, _ => by
      rw [Expr.eval]
      exact Certain.pure (Value.living_of_nodes (Value.nodes_ofLiteral value))
  | .list items, h => by
      rw [Expr.eval]
      exact (Expr.evalAll_certain hv hc items h).map fun _ hx => hx
  | .name s, _ => by
      rw [Expr.eval]
      exact (Context.lookup_certain hv hc s).map fun _ => Value.living_getD
  | .member target s, h => by
      rw [Expr.eval]
      refine (Expr.eval_certain hv hc target h).bind fun t ht => ?_
      exact (Value.member_certain hv ht s).holding ht
  | .index target key, h => by
      obtain ⟨htarget, hkey⟩ := Bool.and_eq_true_iff.mp h
      rw [Expr.eval]
      refine (Expr.eval_certain hv hc target htarget).bind fun t ht => Certain.holding ht ?_
      refine (Expr.eval_certain hv hc key hkey).bind fun k hk => ?_
      exact (Value.part_certain hv ht hk).holding hk
  | .neg operand, h => by
      rw [Expr.eval]
      refine (Expr.eval_certain hv hc operand h).bind fun x _ => ?_
      exact Certain.ofFaulty fun y hy => Value.living_of_nodes (Value.nodes_of_negate hy)
  | .not operand, h => by
      rw [Expr.eval]
      exact (Expr.eval_certain hv hc operand h).bind fun x _ => Certain.pure nofun
  | .binary op left right, h => by
      obtain ⟨hleft, hright⟩ := Bool.and_eq_true_iff.mp h
      rw [Expr.eval]
      refine (Expr.eval_certain hv hc left hleft).bind fun l hl => Certain.holding hl ?_
      refine (Expr.eval_certain hv hc right hright).bind fun r hr => Certain.holding hr ?_
      refine Certain.bind (Q := fun result => ∀ x, result = .ok x → x.Living v)
        (Certain.inspect (fun a ha => ha.binary hv.closed hv.acyclic op hl hr) fun x hx => ?_) ?_
      · exact Value.living_of_nodes (Value.nodes_of_binary hx)
      · exact fun result hresult => Certain.ofFaulty hresult
  | .and left right, h => by
      obtain ⟨hleft, hright⟩ := Bool.and_eq_true_iff.mp h
      rw [Expr.eval]
      refine (Expr.eval_certain hv hc left hleft).bind fun l _ => ?_
      split
      · exact (Expr.eval_certain hv hc right hright).bind fun r _ => Certain.pure nofun
      · exact Certain.pure nofun
  | .or left right, h => by
      obtain ⟨hleft, hright⟩ := Bool.and_eq_true_iff.mp h
      rw [Expr.eval]
      refine (Expr.eval_certain hv hc left hleft).bind fun l _ => ?_
      split
      · exact Certain.pure nofun
      · exact (Expr.eval_certain hv hc right hright).bind fun r _ => Certain.pure nofun
  | .choice test yes no, h => by
      obtain ⟨h, hno⟩ := Bool.and_eq_true_iff.mp h
      obtain ⟨htest, hyes⟩ := Bool.and_eq_true_iff.mp h
      rw [Expr.eval]
      refine (Expr.eval_certain hv hc test htest).bind fun t _ => ?_
      split
      · exact Expr.eval_certain hv hc yes hyes
      · exact Expr.eval_certain hv hc no hno
  | .call _ _, h | .send _ _ _, h | .assign _ _, h => by cases h

theorem Expr.evalAll_certain (hv : v.Quiet fuel) (hc : c.Alive v) :
    ∀ es : List Expr, Expr.allReading es = true →
      Certain v (fun xs => (Value.list xs).Living v) (Expr.evalAll (.ofFuel fuel) c es)
  | [], _ => by
      rw [Expr.evalAll]
      exact Certain.pure nofun
  | e :: rest, h => by
      obtain ⟨he, hrest⟩ := Bool.and_eq_true_iff.mp h
      rw [Expr.evalAll]
      refine (Expr.eval_certain hv hc e he).bind fun x hx => ?_
      refine ((Expr.evalAll_certain hv hc rest hrest).holding hx).bind fun xs hxs => ?_
      exact Certain.pure fun m hm => (List.mem_append.mp hm).elim (hx m) (hxs m)

end

/-! ## Places -/

theorem Slot.under_congr {v a : World} (outer : Slot) {key target : Value}
    (h : a.text key = v.text key) : under a outer key target = under v outer key target := by
  cases target <;> simp only [under, h]

variable {a a' : World} {place : Expr} {x : Value} {slot : Slot}

/-- The slot of a part of a value other than an item does not depend on the slot of the value. -/
theorem Slot.under_of_no_item {w : World} {outer : Slot} {key target : Value}
    (h : ∀ items, target = .list items → (key.index?.filter (· < items.length)).isSome = false) :
    under w outer key target = under w .temporary key target := by
  cases target with
  | list items =>
      have hnone := Option.not_isSome_iff_eq_none.mp (Bool.eq_false_iff.mp (h items rfl))
      simp only [under, hnone]
  | _ => rfl

namespace Expr

/-- The second walk through a place leads to the slot that the first one has read. -/
theorem relocate_gives (hv : v.Quiet fuel) (hc : c.Alive v) (hplace : place.isReading = true)
    (ha : v.Nearby a) (h : place.locate (.ofFuel fuel) c a = (.done (x, slot), a')) :
    (place.relocate (.ofFuel fuel) c).Gives v slot := by
  induction place using locate.induct generalizing x slot a a' with
  | case1 s =>
      rw [locate, Action.inspect_bind_apply] at h
      obtain ⟨found, b, -, hpure⟩ := Action.bind_eq_done h
      cases hpure
      rw [relocate, ha.holder?_eq hv.closed hv.acyclic hc]
      exact (Action.Gives.inspect fun b hb => hb.holder?_eq hv.closed hv.acyclic hc s).bind
        (.pure _)
  | case2 target s =>
      rw [locate] at h
      obtain ⟨t, b, htarget, hmember⟩ := Action.bind_eq_done h
      obtain ⟨_, hmember⟩ := Action.holding_eq_done hmember
      obtain ⟨_, _, -, hpure⟩ := Action.bind_eq_done hmember
      cases hpure
      obtain ⟨-, -, hgives⟩ := (eval_certain hv hc target hplace).gives ha htarget
      rw [relocate]
      exact hgives.bind (.pure _)
  | case3 target key ih =>
      obtain ⟨htarget, hkey⟩ := Bool.and_eq_true_iff.mp hplace
      rw [locate] at h
      obtain ⟨⟨t, outer⟩, b, hlocate, hrest⟩ := Action.bind_eq_done h
      obtain ⟨_, hrest⟩ := Action.holding_eq_done hrest
      obtain ⟨k, d, hkeyed, hrest⟩ := Action.bind_eq_done hrest
      obtain ⟨_, hrest⟩ := Action.holding_eq_done hrest
      rw [Action.inspect_bind_apply] at hrest
      obtain ⟨_, _, -, hpure⟩ := Action.bind_eq_done hrest
      cases hpure
      have hevaluated : target.eval (.ofFuel fuel) c a = (.done t, b) := by
        rw [← fst_locate]
        exact Action.map_done hlocate
      obtain ⟨ht, hb, htgives⟩ := (eval_certain hv hc target htarget).gives ha hevaluated
      obtain ⟨hk, hd, hkgives⟩ := (eval_certain hv hc key hkey).gives (hb.hold ht) hkeyed
      have hboth : ∀ m ∈ k.nodes ++ t.nodes, v.alive m = true := fun m hm =>
        (List.mem_append.mp hm).elim (hk m) (ht m)
      have hunder : ∀ {b}, v.Nearby b → ∀ outer, Slot.under b outer k t = Slot.under v outer k t :=
        fun hb outer => Slot.under_congr outer (hb.text hv.closed hv.acyclic hk)
      rw [hunder (hd.hold hk), relocate]
      refine hkgives.bind ((htgives.holding hk).bind (.holding hboth ?_))
      -- Only a list is walked again, and only for an item that it has.
      have htemporary : (∀ items, t = .list items →
          (k.index?.filter (· < items.length)).isSome = false) →
          Action.Gives v (pure Slot.temporary >>= fun outer =>
            Action.inspect fun w => Slot.under w outer k t) (Slot.under v outer k t) :=
        fun hnone => (Action.Gives.pure _).bind (.inspect fun b hb => by
          rw [hunder hb, ← Slot.under_of_no_item hnone])
      cases t with
      | list items =>
          dsimp only
          split
          · exact (ih htarget ha hlocate).bind (.inspect fun b hb => hunder hb outer)
          · rename_i hnone
            refine htemporary fun others hothers => ?_
            cases hothers
            exact Bool.eq_false_iff.mpr hnone
      | _ => exact htemporary (by rintro _ ⟨⟩)
  | case4 e hname hmember hindex =>
      rw [locate] at h
      · obtain ⟨_, -, hpair⟩ := Action.map_eq_done h
        cases hpair
        rw [relocate]
        · exact .pure _
        all_goals assumption
      all_goals assumption

/-- A place whose parts call nothing and assign nothing is reread. -/
theorem rereads_of_isReading (hv : v.Quiet fuel) (hc : c.Alive v)
    (hplace : place.isReading = true) (ha : v.Nearby a) : place.Rereads (.ofFuel fuel) c a := by
  intro items slot w' held hread hheld
  have hevaluated : place.eval (.ofFuel fuel) c a = (.done (.list items), w') := by
    rw [← fst_locate]
    exact Action.map_done hread
  obtain ⟨hitems, hw', -⟩ := (eval_certain hv hc place hplace).gives ha hevaluated
  have hmore : v.Nearby (w'.reheld held) := by
    refine ⟨{ hw'.padded with }, hw'.expansions, fun m hm => ?_, fun m hm => ?_⟩
    · exact (hheld m).mpr (.inr (hw'.kept m hm))
    · exact ((hheld m).mp hm).elim (hitems m) (hw'.living m)
  obtain ⟨w'', hwalk, -, hgains⟩ := relocate_gives hv hc hplace ha hread _ hmore
  exact ⟨w'', hwalk, hgains⟩

end Expr

/-- The new value and the arguments call nothing and assign nothing either. -/
def Change.isReading : Change → Bool
  | assign value => value.isReading
  | send _ arguments => Expr.allReading arguments

/-- A change of a place is as it should be when nothing in the place, in the new value or in the
arguments calls or assigns anything and all that is stored is calm. -/
theorem Change.rereads_of_isReading (hv : v.Quiet fuel) (hc : c.Alive v)
    (hplace : place.isReading = true) {change : Change} (hchange : change.isReading = true) :
    change.Rereads (.ofFuel fuel) c place v := by
  cases change with
  | assign value =>
      rintro target key rfl x w₁ k w₂ hvalue hkeyed
      obtain ⟨htarget, hkey⟩ := Bool.and_eq_true_iff.mp hplace
      obtain ⟨hx, hw₁, -⟩ := (Expr.eval_certain hv hc value hchange).gives (.refl v) hvalue
      obtain ⟨hk, hw₂, -⟩ := (Expr.eval_certain hv hc key hkey).gives (hw₁.hold hx) hkeyed
      exact Expr.rereads_of_isReading hv hc htarget (hw₂.hold hk)
  | send method arguments =>
      intro values w₁ hvalues
      obtain ⟨hx, hw₁, -⟩ :=
        (Expr.evalAll_certain hv hc arguments hchange).gives (.refl v) hvalues
      exact Expr.rereads_of_isReading hv hc hplace (hw₁.hold hx)

end Expressions

end ScriptTree
