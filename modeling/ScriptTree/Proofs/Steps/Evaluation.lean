import ScriptTree.Proofs.Steps.Confinement

/-!
# Expressions and templates that only bind

The values of methods and operators refer to nodes of their operands only, and a context stores in
its own frame without adopting. So an expression whose stores all bind in the frame of its context
stays confined (`Expr.eval_stays`), and so do templates and scripts. Evaluation inside evaluation
takes fuel: by induction on it, templates and scripts stay confined at any depth
(`Language.staysWithin`).
-/

set_option autoImplicit false

namespace ScriptTree

open World (Meets)

variable {v a : World} {sites : List NodeId} {fuel : Nat} {c : Context}

/-! ## Values of methods -/

namespace Action

variable {α β : Type} {Q : α → Prop}

/-- A result that is read first. -/
theorem stays_ofExcept_bind (ha : v.Confined sites a) {result : Except Failure β}
    {next : β → Except Failure α} (hcause : ∀ f, result = .error f → v.Meets f.nodes)
    (hnext : ∀ x, result = .ok x → (ofExcept (next x)).Stays v sites a Q) :
    (ofExcept (result >>= next)).Stays v sites a Q := by
  cases result with
  | ok x => exact hnext x rfl
  | error f => exact stays_fail ha (hcause f rfl)

theorem stays_ofFaulty (ha : v.Confined sites a) {result : Except Script.Fault α}
    (hvalue : ∀ x, result = .ok x → Q x) : (ofFaulty result).Stays v sites a Q := by
  cases result with
  | ok x => exact stays_pure ha (hvalue x rfl)
  | error fault => exact stays_fail ha .nil

end Action

namespace Value

theorem nodes_ofNumber? (n : Option Number) : (ofNumber? n).nodes = [] := by
  cases n <;> rfl

theorem nodes_of_negate {x y : Value} (h : x.negate = .ok y) : y.nodes = [] := by
  unfold negate at h
  split at h
  · rw [← Except.ok.inj h, nodes_ofNumber?]
  · cases h

theorem nodes_of_ordered {op : Expr.Operator} {test : Ordering → Bool} {l r x : Value}
    (h : ordered op test l r = .ok x) : x.nodes = [] := by
  unfold ordered at h
  split at h
  · rcases Except.ok.inj h with rfl
    rfl
  · cases h

theorem nodes_of_arithmetic {op : Expr.Operator} {compute : Number → Number → Option Number}
    {l r x : Value} (h : arithmetic op compute l r = .ok x) : x.nodes = [] := by
  unfold arithmetic at h
  split at h
  · rw [← Except.ok.inj h, nodes_ofNumber?]
  · cases h

theorem nodes_of_division {op : Expr.Operator} {compute : Number → Number → Option Number}
    {l r x : Value} (h : division op compute l r = .ok x) : x.nodes = [] := by
  unfold division at h
  split at h
  · split at h
    · cases h
    · rw [← Except.ok.inj h, nodes_ofNumber?]
  · cases h

/-- An operator makes truth values, texts and numbers. -/
theorem nodes_of_binary {w : World} {op : Expr.Operator} {l r x : Value}
    (h : w.binary op l r = .ok x) : x.nodes = [] := by
  cases op
  case eq | ne =>
    rcases Except.ok.inj h with rfl
    rfl
  case lt | le | gt | ge => exact nodes_of_ordered h
  case add =>
    rw [World.binary] at h
    split at h
    · rcases Except.ok.inj h with rfl
      rfl
    · exact nodes_of_arithmetic h
  case sub | mul => exact nodes_of_arithmetic h
  case div | mod => exact nodes_of_division h

theorem meets_allNodes {items : List Value} :
    v.Meets (allNodes items) ↔ ∀ x ∈ items, v.Meets x.nodes := by
  constructor
  · exact fun h x hx r hr => h r (mem_allNodes.mpr ⟨x, hx, hr⟩)
  · intro h r hr
    obtain ⟨x, hx, hin⟩ := mem_allNodes.mp hr
    exact h x hx r hin

theorem meets_getElem? {items : List Value} (h : v.Meets (allNodes items)) (i : Nat) :
    v.Meets (items[i]?.getD .null).nodes := by
  cases hx : items[i]? with
  | none => exact .nil
  | some x => exact meets_allNodes.mp h x (List.mem_of_getElem? hx)

theorem meets_itemAt {items : List Value} (h : v.Meets (allNodes items)) (i : Option Nat) :
    v.Meets (itemAt items i).nodes := by
  cases i with
  | none => exact .nil
  | some i => exact meets_getElem? h i

theorem nodes_of_failureMember? {w : World} {cause : Failure} {name : String} {x : Value}
    (h : w.failureMember? cause name = some x) : ∀ r ∈ x.nodes, r ∈ cause.nodes := by
  unfold World.failureMember? at h
  split at h
  · rcases Option.some.inj h with rfl
    exact fun _ hr => (List.not_mem_nil hr).elim
  · rcases Option.some.inj h with rfl
    exact fun _ hr => (List.not_mem_nil hr).elim
  · rcases Option.some.inj h with rfl
    intro r hr
    cases cause with
    | evaluation statement inner => exact hr
    | _ => exact (List.not_mem_nil hr).elim
  · cases h

end Value

namespace Call

theorem nodes_of_index_error {call : Call} {i : Nat} {f : Failure} (h : call.index i = .error f) :
    v.Meets f.nodes := by
  rw [index] at h
  cases hvalue : call.value i with
  | error g =>
      rw [hvalue] at h
      rcases Except.error.inj h with rfl
      exact nodes_of_value_error hvalue
  | ok x =>
      rw [hvalue] at h
      dsimp only [bind, Except.bind] at h
      split at h
      · cases h
      · rcases Except.error.inj h with rfl
        exact .nil

theorem nodes_of_shown_error {w : World} {call : Call} {i : Nat} {f : Failure}
    (h : w.shown call i = .error f) : v.Meets f.nodes := by
  rw [World.shown] at h
  cases hvalue : call.value i with
  | error g =>
      rw [hvalue] at h
      rcases Except.error.inj h with rfl
      exact nodes_of_value_error hvalue
  | ok x =>
      rw [hvalue] at h
      cases h

end Call

namespace World

variable {call : Call}

/-- A method of a text makes no references. -/
theorem textMethod_stays (ha : v.Confined sites a) (w : World) (s : List Char) :
    (Action.ofExcept (w.textMethod s call)).Stays v sites a fun x => v.Meets x.nodes := by
  have hshown : ∀ {i : Nat} (f : Failure), w.shown call i = .error f → v.Meets f.nodes :=
    fun _ hf => Call.nodes_of_shown_error hf
  have hindex : ∀ {i : Nat} (f : Failure), call.index i = .error f → v.Meets f.nodes :=
    fun _ hf => Call.nodes_of_index_error hf
  have hplain : ∀ {x : Value}, x.nodes = [] →
      (Action.ofExcept (.ok x)).Stays v sites a fun x => v.Meets x.nodes :=
    fun hx => Action.stays_pure ha (hx ▸ Meets.nil)
  have hpieces : ∀ pieces : List (List Char),
      (Value.list (pieces.map fun piece => .text (String.ofList piece))).nodes = [] := by
    intro pieces
    refine List.eq_nil_iff_forall_not_mem.mpr fun r hr => ?_
    obtain ⟨x, hx, hin⟩ := Value.mem_allNodes.mp hr
    obtain ⟨piece, -, rfl⟩ := List.mem_map.mp hx
    cases hin
  unfold textMethod
  split
  case h_7 | h_8 | h_9 | h_10 =>
    exact Action.stays_ofExcept_bind ha hshown fun t _ => hplain rfl
  case h_11 =>
    refine Action.stays_ofExcept_bind ha hshown fun t _ => hplain ?_
    split <;> rfl
  case h_12 =>
    refine Action.stays_ofExcept_bind ha hshown fun target _ => ?_
    exact Action.stays_ofExcept_bind ha hshown fun replacement _ => hplain rfl
  case h_13 => exact Action.stays_ofExcept_bind ha hshown fun t _ => hplain (hpieces _)
  case h_14 =>
    refine Action.stays_ofExcept_bind ha hindex fun start _ => ?_
    split
    · exact hplain rfl
    · exact Action.stays_ofExcept_bind ha hindex fun stop _ => hplain rfl
  case h_15 => exact Action.stays_fail ha .nil
  all_goals exact hplain rfl

/-- A method of a list gives items of the list and arguments, and so does the changed list. -/
theorem listMethod_stays (ha : v.Confined sites a) (w : World) {items : List Value}
    (hitems : v.Meets (Value.allNodes items)) (hcall : v.Meets (Value.allNodes call.arguments)) :
    (Action.ofExcept (w.listMethod items call)).Stays v sites a fun result =>
      v.Meets result.1.nodes ∧ ∀ changed ∈ result.2, v.Meets (Value.allNodes changed) := by
  have hvalue : ∀ {i : Nat} (f : Failure), call.value i = .error f → v.Meets f.nodes :=
    fun _ hf => Call.nodes_of_value_error hf
  have hindex : ∀ {i : Nat} (f : Failure), call.index i = .error f → v.Meets f.nodes :=
    fun _ hf => Call.nodes_of_index_error hf
  have hsame : ∀ {x : Value}, v.Meets x.nodes →
      (Action.ofExcept (unchanged x)).Stays v sites a fun result =>
        v.Meets result.1.nodes ∧ ∀ changed ∈ result.2, v.Meets (Value.allNodes changed) :=
    fun hx => Action.stays_pure ha ⟨hx, fun _ hchanged => by cases hchanged⟩
  have hchanges : ∀ {x : Value} {changed : List Value}, v.Meets x.nodes →
      v.Meets (Value.allNodes changed) →
      (Action.ofExcept (.ok (x, some changed))).Stays v sites a fun result =>
        v.Meets result.1.nodes ∧ ∀ changed ∈ result.2, v.Meets (Value.allNodes changed) :=
    fun hx hchanged => Action.stays_pure ha ⟨hx, fun _ heq => Option.some.inj heq ▸ hchanged⟩
  have herased : ∀ i, v.Meets (Value.allNodes (items.eraseIdx i)) := fun i =>
    Value.meets_allNodes.mpr fun x hx =>
      Value.meets_allNodes.mp hitems x (List.mem_of_mem_eraseIdx hx)
  unfold listMethod
  split
  case h_1 | h_2 | h_3 => exact hsame .nil
  case h_4 => exact Action.stays_ofExcept_bind ha hvalue fun x _ => hsame .nil
  case h_5 =>
    exact Action.stays_ofExcept_bind ha hindex fun i _ => hsame (Value.meets_getElem? hitems i)
  case h_6 =>
    refine Action.stays_ofExcept_bind ha hvalue fun x _ => hsame ?_
    split <;> exact .nil
  case h_7 => exact hsame .nil
  case h_8 =>
    refine Action.stays_ofExcept_bind ha hvalue fun x hx => hchanges .nil ?_
    refine Value.meets_allNodes.mpr fun y hy => ?_
    rcases List.mem_append.mp hy with hy | hy
    · exact Value.meets_allNodes.mp hitems y hy
    · rw [List.mem_singleton.mp hy]
      exact Call.meets_value hcall hx
  case h_9 =>
    refine Action.stays_ofExcept_bind ha hvalue fun x _ => ?_
    split
    · exact hchanges .nil (herased _)
    · exact hsame .nil
  case h_10 =>
    refine Action.stays_ofExcept_bind ha hindex fun i _ => ?_
    split
    · rename_i x hx
      exact hchanges (Value.meets_allNodes.mp hitems x (List.mem_of_getElem? hx)) (herased i)
    · exact hsame .nil
  case h_11 => exact hchanges .nil .nil
  case h_12 => exact Action.stays_fail ha .nil

end World

/-! ## Contexts -/

section Contexts

variable (hl : StaysWithin v sites fuel) (ha : v.Confined sites a)
include hl ha

theorem Context.lookup_stays (hc : c.Fits v sites) {s : String}
    (h : ∀ holder, c.binding s = none → a.getRaw c.frame s = none →
      a.holder? c.this s = some holder →
      Moment.OnlyBinds ⟨fuel, .entry holder s, a.hold [holder]⟩) :
    (c.lookup (.ofFuel fuel) s).Stays v sites a fun found => ∀ x ∈ found, v.Meets x.nodes := by
  have hthis : v.Met c.this := hc.nodes _ List.mem_cons_self
  have hframe : v.Met c.frame := hc.nodes _ (List.mem_cons_of_mem _ List.mem_cons_self)
  have hstatic : v.Met c.static :=
    hc.nodes _ (List.mem_cons_of_mem _ (List.mem_cons_of_mem _ List.mem_cons_self))
  have hparent : ∀ m, c.parent = some m → v.Met m := fun m hm =>
    hc.nodes _ (List.mem_cons_of_mem _ (List.mem_cons_of_mem _ (List.mem_cons_of_mem _
      (Option.mem_toList.mpr hm))))
  rw [lookup]
  split
  · rename_i value hbinding
    refine Action.stays_pure ha fun x hx => ?_
    rcases Option.some.inj hx with rfl
    unfold binding at hbinding
    split at hbinding
    · exact Option.some.inj hbinding ▸ .singleton hthis
    split at hbinding
    · exact Option.some.inj hbinding ▸ .of_ofNode? hparent
    split at hbinding
    · exact Option.some.inj hbinding ▸ .singleton hframe
    split at hbinding
    · exact Option.some.inj hbinding ▸ .singleton hstatic
    · cases hbinding
  rename_i hfree
  refine Action.stays_see ?_
  split
  · rename_i value hbound
    exact Action.stays_pure ha fun x hx => Option.some.inj hx ▸ ha.met_of_getRaw hframe hbound
  rename_i hunbound
  have hresolved : (c.this.resolve (.ofFuel fuel) s).Stays v sites a
      fun found => ∀ x ∈ found, v.Meets x.nodes := by
    rw [NodeId.resolve]
    refine Action.stays_see ?_
    split
    · rename_i holder hheld
      have hholder := ha.met_of_holder? hl.alive hthis hheld
      exact Action.stays_holding ha (NodeId.get_stays hl (ha.hold (Meets.singleton hholder)) hholder
        (h holder hfree hunbound hheld))
    · exact Action.stays_pure ha fun _ hx => by cases hx
  refine hresolved.bind fun found b _ hb _ hfound => ?_
  split
  · exact Action.stays_pure hb hfound
  · exact Action.stays_inspect hb fun x hx => hb.met_of_getRaw hstatic hx

theorem Value.member_stays {target : Value} (htarget : v.Meets target.nodes) {s : String}
    (h : ∀ n, target = .node n → Moment.OnlyBinds ⟨fuel, .entry n s, a⟩) :
    (target.member (.ofFuel fuel) s).Stays v sites a fun x => v.Meets x.nodes := by
  unfold member
  split
  · rename_i n
    exact NodeId.getD_stays hl ha (htarget n List.mem_cons_self) (h n rfl)
  · refine Action.stays_pure ha ?_
    split
    · exact .nil
    · exact meets_itemAt htarget _
  · refine Action.stays_pure ha ?_
    split <;> exact .nil
  · rename_i cause
    refine Action.stays_inspect ha ?_
    cases hpart : a.failureMember? cause s with
    | none => exact .nil
    | some x => exact fun r hr => htarget r (nodes_of_failureMember? hpart r hr)
  · exact Action.stays_pure ha .nil

theorem Value.part_stays {target key : Value} (htarget : v.Meets target.nodes)
    (h : ∀ n, target = .node n → Moment.OnlyBinds ⟨fuel, .entry n (a.text key), a⟩) :
    (target.part (.ofFuel fuel) key).Stays v sites a fun x => v.Meets x.nodes := by
  unfold part
  split
  · rename_i n
    exact Action.stays_see (NodeId.getD_stays hl ha (htarget n List.mem_cons_self) (h n rfl))
  · exact Action.stays_pure ha (meets_itemAt htarget _)
  · refine Action.stays_pure ha ?_
    split <;> exact .nil
  · exact Action.stays_pure ha .nil

theorem Context.callBare_stays (hc : c.Fits v sites) {call : Call}
    (hcall : v.Meets (Value.allNodes call.arguments))
    (h : call.method ≠ "return" ∧ call.method ≠ "raise" →
      Moment.OnlyBinds ⟨fuel, .operation c.this call, a⟩) :
    (c.callBare (.ofFuel fuel) call).Stays v sites a fun x => v.Meets x.nodes := by
  unfold callBare
  split
  · refine Action.stays_fail ha ?_
    rw [Failure.nodes]
    exact Call.meets_first hcall
  · exact Action.stays_see (Action.stays_fail ha .nil)
  · rename_i hreturn hraise
    exact NodeId.invoke_stays hl ha (hc.nodes _ List.mem_cons_self) hcall (h ⟨hreturn, hraise⟩)

theorem Context.callMethod_stays {receiver : Value} (hreceiver : v.Meets receiver.nodes)
    {call : Call} (hcall : v.Meets (Value.allNodes call.arguments))
    (h : ∀ n, receiver = .node n → Moment.OnlyBinds ⟨fuel, .operation n call, a⟩) :
    (callMethod (.ofFuel fuel) receiver call).Stays v sites a fun result =>
      v.Meets result.1.nodes ∧ ∀ items ∈ result.2, v.Meets (Value.allNodes items) := by
  have hkeeps : ∀ x : Value, v.Meets x.nodes → v.Meets (x, (none : Option (List Value))).1.nodes ∧
      ∀ items ∈ (none : Option (List Value)), v.Meets (Value.allNodes items) :=
    fun _ hx => ⟨hx, fun _ hitems => by cases hitems⟩
  unfold callMethod
  split
  · rename_i n
    exact (NodeId.invoke_stays hl ha (hreceiver n List.mem_cons_self) hcall (h n rfl)).map _ hkeeps
  · exact Action.stays_see ((World.textMethod_stays ha _ _).map _ hkeeps)
  · exact Action.stays_see (World.listMethod_stays ha _ hreceiver hcall)
  · rename_i cause
    refine Action.stays_see ?_
    split
    · rename_i x hpart
      refine Action.stays_pure ha (hkeeps x fun r hr => ?_)
      exact hreceiver r (Value.nodes_of_failureMember? hpart r hr)
    · exact Action.stays_fail ha .nil
  · exact Action.stays_fail ha .nil

omit hl in
/-- The frame of a context only binds. -/
theorem Context.store_stays (hc : c.Fits v sites) {n : NodeId} (hn : n = c.frame) (key : String)
    {value : Value} (hvalue : v.Meets value.nodes) :
    (c.store n key value).Stays v sites a fun _ => True := by
  subst hn
  rw [store, if_pos rfl]
  exact Action.stays_of_done rfl (ha.set hc.frame hvalue) rfl trivial

end Contexts

/-! ## Expressions -/

namespace Expr

mutual

theorem eval_stays (hl : StaysWithin v sites fuel) (hc : c.Fits v sites) :
    ∀ (e : Expr) {a : World}, v.Confined sites a → Moment.OnlyBinds ⟨fuel, .expression c e, a⟩ →
      (e.eval (.ofFuel fuel) c).Stays v sites a fun x => v.Meets x.nodes
  | .literal value, _, ha, _ => by
      rw [eval]
      refine Action.stays_pure ha ?_
      cases value <;> exact .nil
  | .list items, a, ha, h => by
      rw [eval]
      refine (evalAll_stays hl hc items ha fun e' w' part => ?_).map _ fun _ hx => hx
      exact h.part (.part (.item items a e' w' part))
  | .name s, _, ha, h => by
      rw [eval]
      have hlookup := Context.lookup_stays hl ha hc (s := s) fun holder hfree hunbound hheld =>
        h.part (.name hfree hunbound hheld)
      refine hlookup.map _ fun found hfound => ?_
      cases found with
      | none => exact .nil
      | some x => exact hfound x rfl
  | .member target s, a, ha, h => by
      rw [eval]
      have htarget := eval_stays hl hc target ha (h.part (.part (.member target s a)))
      refine htarget.bind fun t w₁ hfound hw₁ _ ht => Action.stays_holding hw₁ ?_
      refine Value.member_stays hl (hw₁.hold ht) ht ?_
      rintro n rfl
      exact h.part (.member hfound)
  | .index target key, a, ha, h => by
      rw [eval]
      have htarget := eval_stays hl hc target ha (h.part (.part (.indexed target key a)))
      refine htarget.bind fun t w₁ hfound hw₁ _ ht => Action.stays_holding hw₁ ?_
      have hkey := eval_stays hl hc key (hw₁.hold ht)
        (h.part (.part (.key target key a t w₁ hfound)))
      refine hkey.bind fun k w₂ hdone hw₂ _ hk => Action.stays_holding hw₂ ?_
      refine Value.part_stays hl (hw₂.hold hk) ht ?_
      rintro n rfl
      exact h.part (.index hfound hdone)
  | .call s arguments, a, ha, h => by
      rw [eval]
      have harguments := evalAll_stays hl hc arguments ha fun e' w' part =>
        h.part (.part (.argument s arguments a e' w' part))
      refine harguments.bind fun values w₁ hdone hw₁ _ hvalues => Action.stays_holding hw₁ ?_
      exact Context.callBare_stays hl (hw₁.hold hvalues) hc hvalues fun hoperation =>
        h.part (.called hoperation hdone)
  | .send receiver s arguments, a, ha, h => by
      rw [eval_send]
      have harguments := evalAll_stays hl hc arguments ha fun e' w' part =>
        h.part (.part (.sent receiver s arguments a e' w' part))
      refine harguments.bind fun values w₁ hdone hw₁ _ hvalues => Action.stays_holding hw₁ ?_
      have hreceiver := eval_stays hl hc receiver (hw₁.hold hvalues)
        (h.part (.part (.receiver receiver s arguments a values w₁ hdone)))
      refine hreceiver.bind fun t w₂ hfound hw₂ _ ht => Action.stays_holding hw₂ ?_
      refine (Context.callMethod_stays hl (hw₂.hold ht) ht hvalues ?_).bind ?_
      · rintro n rfl
        exact h.part (.sent hdone hfound)
      · rintro ⟨value, changed⟩ w₃ hcalled hw₃ _ ⟨hvalue, hchanged⟩
        cases changed with
        | none => exact Action.stays_pure hw₃ hvalue
        | some items =>
            have hback := writeBack_stays hl hc receiver (.list items) (hw₃.hold hvalue)
              (hchanged items rfl)
              (fun e' w' part => h.part (.part (.changed receiver s arguments a values w₁ t w₂
                value items w₃ e' w' hdone hfound hcalled part)))
              fun n hstored => (Option.some.inj
                (h.binds (.changed hdone hfound hcalled hstored)).1).symm
            exact (Action.stays_holding hw₃ hback).bind_pure fun _ _ => hvalue
  | .neg operand, a, ha, h => by
      rw [eval]
      refine (eval_stays hl hc operand ha (h.part (.part (.neg operand a)))).bind
        fun x w₁ _ hw₁ _ _ => Action.stays_ofFaulty hw₁ fun y hy => ?_
      rw [Value.nodes_of_negate hy]
      exact .nil
  | .not operand, a, ha, h => by
      rw [eval]
      exact (eval_stays hl hc operand ha (h.part (.part (.not operand a)))).bind
        fun _ w₁ _ hw₁ _ _ => Action.stays_pure hw₁ .nil
  | .binary op left right, a, ha, h => by
      rw [eval]
      have hleft := eval_stays hl hc left ha (h.part (.part (.left op left right a)))
      refine hleft.bind fun l w₁ hdone hw₁ _ hl' => Action.stays_holding hw₁ ?_
      have hright := eval_stays hl hc right (hw₁.hold hl')
        (h.part (.part (.right op left right a l w₁ hdone)))
      refine hright.bind fun r w₂ _ hw₂ _ hr => Action.stays_holding hw₂ (Action.stays_see ?_)
      refine Action.stays_ofFaulty (hw₂.hold hr) fun y hy => ?_
      rw [Value.nodes_of_binary hy]
      exact .nil
  | .and left right, a, ha, h => by
      rw [eval]
      refine (eval_stays hl hc left ha (h.part (.part (.andLeft left right a)))).bind
        fun l w₁ hdone hw₁ _ _ => ?_
      split
      · rename_i htruth
        exact (eval_stays hl hc right hw₁
          (h.part (.part (.andRight left right a l w₁ hdone htruth)))).bind_pure fun _ _ => .nil
      · exact Action.stays_pure hw₁ .nil
  | .or left right, a, ha, h => by
      rw [eval]
      refine (eval_stays hl hc left ha (h.part (.part (.orLeft left right a)))).bind
        fun l w₁ hdone hw₁ _ _ => ?_
      split
      · exact Action.stays_pure hw₁ .nil
      · rename_i htruth
        exact (eval_stays hl hc right hw₁ (h.part (.part
          (.orRight left right a l w₁ hdone (eq_false_of_ne_true htruth))))).bind_pure
            fun _ _ => .nil
  | .choice test yes no, a, ha, h => by
      rw [eval]
      refine (eval_stays hl hc test ha (h.part (.part (.test test yes no a)))).bind
        fun t w₁ hdone hw₁ _ _ => ?_
      split
      · rename_i htruth
        exact eval_stays hl hc yes hw₁ (h.part (.part (.yes test yes no a t w₁ hdone htruth)))
      · rename_i htruth
        exact eval_stays hl hc no hw₁
          (h.part (.part (.no test yes no a t w₁ hdone (eq_false_of_ne_true htruth))))
  | .assign place value, a, ha, h => by
      rw [eval_assign]
      refine (eval_stays hl hc value ha (h.part (.part (.assigned place value a)))).bind
        fun x w₁ hdone hw₁ _ hx => ?_
      unfold storeAssigned
      split
      · split
        · exact Action.stays_fail hw₁ .nil
        · rename_i s hfree
          -- A bare name is put into the node itself, and that is no binding.
          have hbinds := h.binds (.name (Option.not_isSome_iff_eq_none.mp hfree) hdone)
          exact absurd rfl hbinds.route_ne.1
      · rename_i hcompound
        split
        · have hback := writeBack_stays hl hc place x (hw₁.hold hx) hx
            (fun e' w' part => h.part (.part (.stored place value a x w₁ e' w' hdone part)))
            fun n hstored => (Option.some.inj
              (h.binds (.assigned hcompound hdone hstored)).1).symm
          exact (Action.stays_holding hw₁ hback).bind_pure fun _ _ => hx
        · exact Action.stays_fail hw₁ .nil

theorem evalAll_stays (hl : StaysWithin v sites fuel) (hc : c.Fits v sites) :
    ∀ (es : List Expr) {a : World}, v.Confined sites a →
      (∀ e' w', ItemPart (.ofFuel fuel) c es a e' w' →
        Moment.OnlyBinds ⟨fuel, .expression c e', w'⟩) →
      (evalAll (.ofFuel fuel) c es).Stays v sites a fun xs => v.Meets (Value.allNodes xs)
  | [], _, ha, _ => by
      rw [evalAll]
      exact Action.stays_pure ha .nil
  | e :: rest, a, ha, h => by
      rw [evalAll]
      refine (eval_stays hl hc e ha (h e a (.head e rest a))).bind fun x w₁ hdone hw₁ _ hx => ?_
      have hrest := evalAll_stays hl hc rest (hw₁.hold hx) fun e' w' part =>
        h e' w' (.tail e rest a x w₁ e' w' hdone part)
      exact (Action.stays_holding hw₁ hrest).bind_pure fun _ hxs => hx.append hxs

theorem writeBack_stays (hl : StaysWithin v sites fuel) (hc : c.Fits v sites) :
    ∀ (place : Expr) (value : Value) {a : World}, v.Confined sites a → v.Meets value.nodes →
      (∀ e' w', PlacePart (.ofFuel fuel) c value place a e' w' →
        Moment.OnlyBinds ⟨fuel, .expression c e', w'⟩) →
      (∀ n, StoresIn (.ofFuel fuel) c value place a n → n = c.frame) →
      (writeBack (.ofFuel fuel) c value place).Stays v sites a fun _ => True
  | .name s, value, a, ha, hvalue, _, hstores => by
      rw [writeBack]
      refine Action.stays_see ?_
      split
      · rename_i holder hheld
        exact (Context.store_stays ha hc (hstores holder (.name hheld)) s hvalue).bind_pure
          fun _ _ => trivial
      · exact Action.stays_pure ha trivial
  | .member target s, value, a, ha, hvalue, h, hstores => by
      rw [writeBack]
      refine (eval_stays hl hc target ha (h target a (.target value target s a))).bind
        fun t w₁ hfound hw₁ _ ht => Action.stays_holding hw₁ ?_
      unfold Context.storeMember
      split
      · rename_i n
        exact (Context.store_stays (hw₁.hold ht) hc (hstores n (.member hfound)) s hvalue).bind_pure
          fun _ _ => trivial
      · exact Action.stays_fail (hw₁.hold ht) .nil
  | .index target key, value, a, ha, hvalue, h, hstores => by
      rw [writeBack_index]
      refine (eval_stays hl hc key ha (h key a (.key value target key a))).bind
        fun k w₁ hdone hw₁ _ hk => ?_
      have htarget := eval_stays hl hc target (hw₁.hold hk)
        (h target _ (.keyed value target key a k w₁ hdone))
      refine (Action.stays_holding hw₁ htarget).bind fun t w₂ hheld hw₂ _ ht => ?_
      obtain ⟨w', hfound, rfl⟩ := Action.exists_of_holding_eq_done hheld
      have hboth := hw₂.hold (hk.append ht)
      refine Action.stays_holding hw₂ ?_
      rw [storeItem]
      refine Action.stays_see ?_
      split
      · rename_i n
        exact (Context.store_stays hboth hc (hstores n (.index hdone hfound)) _ hvalue).bind_pure
          fun _ _ => trivial
      · rename_i items
        split
        · rename_i i hplace
          have hset : v.Meets (Value.list (items.set i value)).nodes := by
            refine Value.meets_allNodes.mpr fun x hx => ?_
            rcases List.mem_or_eq_of_mem_set hx with hx | rfl
            · exact Value.meets_allNodes.mp ht x hx
            · exact hvalue
          exact writeBack_stays hl hc target (.list (items.set i value)) hboth hset
            (fun e' w' part => h e' w'
              (.listed value target key a k w₁ items _ i e' w' hdone hfound hplace part))
            fun n hstored => hstores n (.item hdone hfound hplace hstored)
        · exact Action.stays_fail hboth .nil
      · exact Action.stays_fail hboth .nil
  | .literal _, _, _, ha, _, _, _ | .list _, _, _, ha, _, _, _ | .call _ _, _, _, ha, _, _, _
  | .send _ _ _, _, _, ha, _, _, _ | .neg _, _, _, ha, _, _, _ | .not _, _, _, ha, _, _, _
  | .binary _ _ _, _, _, ha, _, _, _ | .and _ _, _, _, ha, _, _, _ | .or _ _, _, _, ha, _, _, _
  | .choice _ _ _, _, _, ha, _, _, _ | .assign _ _, _, _, ha, _, _, _ =>
      Action.stays_pure ha trivial

end

end Expr

/-! ## Templates and scripts -/

section Templates

variable (hl : StaysWithin v sites fuel) (hc : c.Fits v sites)
include hl hc

theorem Template.render_stays (ha : v.Confined sites a) {body : List Char}
    (h : ∀ e, Expr.parse (String.ofList (Text.trim body)) = .ok e →
      Moment.OnlyBinds ⟨fuel, .expression c e, a⟩) :
    (render (.ofFuel fuel) c body).Stays v sites a fun _ => True := by
  unfold render
  split
  · exact Action.stays_pure ha trivial
  · rename_i e hparsed
    have heval := (Expr.eval_stays hl hc e ha (h e hparsed)).attempt
    refine heval.bind fun result b _ hb _ hresult => ?_
    split
    · exact Action.stays_pure hb trivial
    · exact Action.stays_pure hb trivial
    · exact Action.stays_holding hb (Action.stays_inspect (hb.hold (hresult.1 _ rfl)) trivial)

/-- The pieces of a template, one after another. -/
theorem Template.renderAll_stays (pieces : List Piece) : ∀ {a : World}, v.Confined sites a →
    (∀ before body after filled e b, pieces = before ++ .hole body :: after →
      renderAll (.ofFuel fuel) c before a = (.done filled, b) →
      Expr.parse (String.ofList (Text.trim body)) = .ok e →
      Moment.OnlyBinds ⟨fuel, .expression c e, b⟩) →
    (renderAll (.ofFuel fuel) c pieces).Stays v sites a fun _ => True := by
  induction pieces with
  | nil => exact fun ha _ => Action.stays_pure ha trivial
  | cons piece rest ih =>
      intro a ha h
      cases piece with
      | plain s =>
          rw [renderAll]
          refine (ih ha fun before body after filled e b hrest hbefore hparsed => ?_).bind_pure
            fun _ _ => trivial
          refine h (.plain s :: before) body after (s ++ filled) e b
            (by rw [hrest, List.cons_append]) ?_ hparsed
          rw [renderAll, Action.bind_apply, hbefore]
          rfl
      | hole shown =>
          rw [renderAll]
          have hfirst := render_stays hl hc ha fun e hparsed =>
            h [] shown rest [] e a rfl rfl hparsed
          refine hfirst.bind fun first w₁ hrun hw₁ _ _ => ?_
          refine (ih hw₁ fun before body after filled e b hrest hbefore hparsed => ?_).bind_pure
            fun _ _ => trivial
          refine h (.hole shown :: before) body after (first ++ filled) e b
            (by rw [hrest, List.cons_append]) ?_ hparsed
          rw [renderAll, Action.bind_apply, hrun]
          show (renderAll _ _ before >>= _) w₁ = _
          rw [Action.bind_apply, hbefore]
          rfl

/-- A statement of a script. -/
theorem Language.evaluateStatement_stays (ha : v.Confined sites a)
    {statement : String} (h : ∀ e, Expr.parse statement = .ok e →
      Moment.OnlyBinds ⟨fuel, .expression c e, a⟩) :
    (evaluateStatement (.ofFuel fuel) c statement).Stays v sites a fun x => v.Meets x.nodes := by
  unfold evaluateStatement
  split
  · rename_i e hparsed
    exact Expr.eval_stays hl hc e ha (h e hparsed)
  · exact Action.stays_fail ha .nil

end Templates

/-- The statements of a script, one after another. -/
theorem Language.evaluateAll_stays {lang : Language} (statements : List String) :
    ∀ {a : World} {last : Value}, v.Confined sites a → v.Meets last.nodes →
    (∀ before s after value b, statements = before ++ s :: after →
      lang.evaluateAll c before last a = (.done value, b) → v.Confined sites (b.hold value.nodes) →
      (lang.evaluate c s).Stays v sites (b.hold value.nodes) fun x => v.Meets x.nodes) →
    (lang.evaluateAll c statements last).Stays v sites a fun x => v.Meets x.nodes := by
  induction statements with
  | nil => exact fun ha hlast _ => Action.stays_pure ha hlast
  | cons statement rest ih =>
      intro a last ha hlast h
      rw [evaluateAll]
      have hfirst := h [] statement rest last a rfl rfl (ha.hold hlast)
      have hworded := hfirst.mapFailure (g := .evaluation statement) fun _ => rfl
      refine (Action.stays_holding ha hworded).bind
        fun value b hrun hb _ hvalue => ih hb hvalue fun before s after x c hrest hbefore hc => ?_
      refine h (statement :: before) s after x c (by rw [hrest, List.cons_append]) ?_ hc
      rw [evaluateAll, Action.bind_apply, hrun]
      exact hbefore

/-- At any depth of evaluation, templates and scripts whose stores bind in the local frame stay
confined. -/
theorem Language.staysWithin (halive : ∀ s ∈ sites, v.alive s = true) (fuel : Nat) :
    StaysWithin v sites fuel := by
  induction fuel with
  | zero =>
      refine ⟨halive, fun n text a ha hn _ => ?_, fun n text a ha hn _ => ?_⟩
      · rw [NodeId.expand]
        refine Action.stays_see ?_
        split
        · exact NodeId.within_stays ha halive hn fun c b _ hb hc =>
            Action.stays_exhaust (hb.hold hc.nodes)
        · exact Action.stays_pure ha trivial
      · rw [NodeId.eval]
        refine Action.stays_see ?_
        split
        · exact NodeId.within_stays ha halive hn fun c b _ hb hc =>
            Language.evaluateAll_stays _ (hb.hold hc.nodes) .nil
              fun _ _ _ _ _ _ _ hheld => Action.stays_exhaust hheld
        · exact Action.stays_fail ha .nil
  | succ fuel ih =>
      refine ⟨halive, fun n text a ha hn h => ?_, fun n text a ha hn h => ?_⟩
      · rw [NodeId.expand]
        refine Action.stays_see ?_
        split
        · rename_i hexpands
          refine NodeId.within_stays ha halive hn fun c b hcontext hb hc => ?_
          have hheld := hb.hold hc.nodes
          show (Template.expand (.ofFuel fuel) c text).Stays _ _ _ _
          dsimp only [Template.expand]
          split
          · exact Action.stays_pure hheld trivial
          refine Action.stays_see ?_
          split
          · exact Action.stays_pure hheld trivial
          rename_i hdepth
          refine Action.stays_expansion ((Template.renderAll_stays ih hc _ ?_ ?_).map _
            fun _ _ => trivial)
          · exact hheld.of_cells rfl hheld.holders hheld.framed
          · intro before body after filled e b' hpieces hbefore hparsed
            refine h.part (.hole hexpands hcontext ?_ hpieces hbefore hparsed)
            exact Nat.lt_of_not_le fun hle => hdepth (decide_eq_true hle)
        · exact Action.stays_pure ha trivial
      · rw [NodeId.eval]
        refine Action.stays_see ?_
        split
        · rename_i hevaluates
          refine NodeId.within_stays ha halive hn fun c b hcontext hb hc => ?_
          refine Language.evaluateAll_stays _ (hb.hold hc.nodes) .nil ?_
          intro before s after value b' hstatements hbefore hheld
          exact Language.evaluateStatement_stays ih hc hheld fun e hparsed =>
            h.part (.scripted hevaluates hcontext hstatements hbefore hparsed)
        · exact Action.stays_fail ha .nil

end ScriptTree
