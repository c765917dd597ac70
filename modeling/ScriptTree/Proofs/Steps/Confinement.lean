import ScriptTree.Proofs.Run.Stays
import ScriptTree.Proofs.Steps.Moments

/-!
# Sequences and operations that only bind

When all stores of a run bind in the local frame, the run stays confined. That is shown here for
reading entries, for sequences of steps, for branches, loops and handlers and for the operations of
nodes, given that it holds of the templates and the scripts inside them (`StaysWithin`).
-/

set_option autoImplicit false

namespace ScriptTree

/-- Expansions and scripts with that much fuel stay confined when all of their stores bind in the
local frame. -/
structure StaysWithin (v : World) (sites : List NodeId) (fuel : Nat) : Prop where
  alive : ∀ s ∈ sites, v.alive s = true
  expand : ∀ (n : NodeId) (text : String) (a : World), v.Confined sites a → v.Met n →
    Moment.OnlyBinds ⟨fuel, .expansion n text, a⟩ →
    (n.expand (.ofFuel fuel) text).Stays v sites a fun _ => True
  eval : ∀ (n : NodeId) (text : String) (a : World), v.Confined sites a → v.Met n →
    Moment.OnlyBinds ⟨fuel, .script n text, a⟩ →
    (n.eval (.ofFuel fuel) text).Stays v sites a fun value => v.Meets value.nodes

/-- The nodes of the context may be met, and its frame is open to stores. -/
structure Context.Fits (v : World) (sites : List NodeId) (c : Context) : Prop where
  nodes : v.Meets c.nodes
  frame : v.Open sites c.frame

variable {v a : World} {sites : List NodeId} {fuel : Nat}

namespace World

theorem Meets.nil : v.Meets [] := fun _ hx => (List.not_mem_nil hx).elim

theorem Meets.singleton {n : NodeId} (hn : v.Met n) : v.Meets [n] := fun x hx => by
  rwa [List.mem_singleton.mp hx]

theorem Meets.append {nodes others : List NodeId} (h : v.Meets nodes) (h' : v.Meets others) :
    v.Meets (nodes ++ others) := fun x hx => (List.mem_append.mp hx).elim (h x) (h' x)

theorem Meets.of_ofNode? {n : Option NodeId} (h : ∀ m, n = some m → v.Met m) :
    v.Meets (Value.ofNode? n).nodes := by
  cases n with
  | none => exact Meets.nil
  | some m => exact Meets.singleton (h m rfl)

end World

open World (Meets)

/-- The value of an early return refers to the nodes that its failure refers to. -/
theorem Failure.nodes_of_returned? {f : Failure} {value : Value} (h : f.returned? = some value) :
    value.nodes = f.nodes := by
  unfold returned? at h
  split at h
  · rw [Option.some.inj h, nodes]
  · rw [Option.some.inj h, nodes, nodes]
  · cases h

theorem Failure.nodes_collapse (f : Failure) : f.collapse.nodes = f.nodes := by
  unfold collapse
  split
  · split
    · rw [nodes]
    · rfl
  · rfl

namespace Call

/-- Only the value of an early return makes a failure refer to nodes, so reading an argument does
not. -/
theorem nodes_of_value_error {c : Call} {i : Nat} {f : Failure} (h : c.value i = .error f) :
    v.Meets f.nodes := by
  unfold value at h
  split at h
  · cases h
  · rcases Except.error.inj h with rfl
    exact .nil

theorem nodes_of_text_error {c : Call} {i : Nat} {f : Failure} (h : c.text i = .error f) :
    v.Meets f.nodes := by
  rw [text] at h
  cases hvalue : c.value i with
  | error g =>
      rw [hvalue] at h
      rcases Except.error.inj h with rfl
      exact nodes_of_value_error hvalue
  | ok x =>
      rw [hvalue] at h
      cases x with
      | text s => cases h
      | _ =>
          rcases Except.error.inj h with rfl
          exact .nil

theorem nodes_of_count_error {c : Call} {i : Nat} {f : Failure} (h : c.count i = .error f) :
    v.Meets f.nodes := by
  rw [count] at h
  cases hvalue : c.value i with
  | error g =>
      rw [hvalue] at h
      rcases Except.error.inj h with rfl
      exact nodes_of_value_error hvalue
  | ok x =>
      rw [hvalue] at h
      dsimp only [bind, Except.bind] at h
      split at h
      · cases h
      · rcases Except.error.inj h with rfl
        exact .nil

theorem meets_value {c : Call} (hc : v.Meets (Value.allNodes c.arguments)) {i : Nat} {x : Value}
    (h : c.value i = .ok x) : v.Meets x.nodes := by
  unfold value at h
  split at h
  · rename_i y hy
    rcases Except.ok.inj h with rfl
    exact fun r hr => hc r (Value.mem_allNodes.mpr ⟨y, List.mem_of_getElem? hy, hr⟩)
  · cases h

theorem meets_first {c : Call} (hc : v.Meets (Value.allNodes c.arguments)) :
    v.Meets c.first.nodes := by
  rw [first]
  cases harguments : c.arguments with
  | nil => exact .nil
  | cons x rest => exact fun r hr => hc r (by rw [harguments]; exact List.mem_append_left _ hr)

theorem meets_entries {c : Call} (ha : v.Confined sites a)
    (hc : v.Meets (Value.allNodes c.arguments)) (i : Nat) :
    ∀ p ∈ c.entries a i, v.Meets p.2.nodes := by
  intro p hp
  unfold entries at hp
  split at hp
  · rename_i m hm
    have hmet : v.Met m := hc m
      (Value.mem_allNodes.mpr ⟨.node m, List.mem_of_getElem? hm, List.mem_cons_self⟩)
    exact fun r hr => ha.referred m hmet r (List.mem_flatMap.mpr ⟨p, hp, hr⟩)
  · cases hp

end Call

/-! ## Contexts and entries -/

theorem Context.create_stays (ha : v.Confined sites a) (halive : ∀ s ∈ sites, v.alive s = true)
    {n : NodeId} (hn : v.Met n) : (Context.create n).Stays v sites a (Context.Fits v sites) := by
  have hfits : ∀ {frame static : NodeId}, v.Open sites frame → v.Met frame → v.Met static →
      Context.Fits v sites ⟨n, a.parent? n, frame, static⟩ := by
    intro frame static hopen hframe hstatic
    refine ⟨fun x hx => ?_, hopen⟩
    rcases List.mem_cons.mp hx with rfl | hx
    · exact hn
    rcases List.mem_cons.mp hx with rfl | hx
    · exact hframe
    rcases List.mem_cons.mp hx with rfl | hx
    · exact hstatic
    · exact ha.met_of_parent? halive (Option.mem_toList.mp hx)
  -- Whether a frame is missing, and then whether the node is one of the engine.
  cases hf : a.frames with
  | cons frame rest =>
      have hopen : v.Open sites frame := ha.framed frame (by rw [hf]; rfl)
      have hframe : v.Met frame :=
        ha.holders frame (List.mem_cons_of_mem _ (List.mem_append_left _ (hf ▸ List.mem_cons_self)))
      by_cases hengined : (a.cell n).engined = true
      · refine Action.stays_of_done (x := ⟨n, a.parent? n, frame, a.static⟩) (b := a) ?_ ha rfl
          (hfits hopen hframe (ha.holders _ List.mem_cons_self))
        simp [Context.create, hf, hengined]
      · refine Action.stays_of_done (x := ⟨n, a.parent? n, frame, (a.create false).1⟩)
          (b := (a.create false).2) ?_ (ha.create false) rfl
          (hfits hopen hframe (ha.met_create false))
        simp [Context.create, hf, hengined]
  | nil =>
      have ha₁ := ha.create false
      have hopen := ha.open_create false
      by_cases hengined : ((a.create false).2.cell n).engined = true
      · refine Action.stays_of_done (x := ⟨n, a.parent? n, (a.create false).1, a.static⟩)
          (b := (a.create false).2) ?_ ha₁ rfl
          (hfits hopen (ha.met_create false) (ha.holders _ List.mem_cons_self))
        simp [Context.create, hf, hengined]
        rfl
      · refine Action.stays_of_done
          (x := ⟨n, a.parent? n, (a.create false).1, ((a.create false).2.create false).1⟩)
          (b := ((a.create false).2.create false).2) ?_ (ha₁.create false) rfl
          (hfits hopen (ha.met_create false) (ha₁.met_create false))
        simp [Context.create, hf, hengined]

namespace NodeId

variable {n : NodeId}

theorem within_stays {α : Type} {Q : α → Prop} {p : Context → Action α} (ha : v.Confined sites a)
    (halive : ∀ s ∈ sites, v.alive s = true) (hn : v.Met n)
    (hp : ∀ c b, Context.create n a = (.done c, b) → v.Confined sites b → c.Fits v sites →
      (p c).Stays v sites (b.hold c.nodes) Q) : (n.within p).Stays v sites a Q :=
  (Context.create_stays ha halive hn).bind fun c b hrun hb _ hc =>
    Action.stays_holding hb (hp c b hrun hb hc)

theorem notify_stays (ha : v.Confined sites a) (kind : TraceKind) (message : String) :
    (n.notify kind message).Stays v sites a fun _ => True := by
  refine Action.stays_of_done (x := ()) rfl ?_ ?_ trivial
  · show v.Confined sites (ite _ _ _)
    split
    · exact ha.of_cells rfl ha.holders ha.framed
    · exact ha
  · show (ite _ _ _ : World).frames = _
    split <;> rfl

section Entries

variable (hl : StaysWithin v sites fuel) (ha : v.Confined sites a) (hn : v.Met n)
include hl ha hn

/-- Reading an entry expands the template in it. -/
theorem get_stays {key : String} (h : Moment.OnlyBinds ⟨fuel, .entry n key, a⟩) :
    (n.get (.ofFuel fuel) key).Stays v sites a fun found => ∀ x ∈ found, v.Meets x.nodes := by
  rw [get]
  refine Action.stays_see ?_
  cases hfound : a.getRaw n key with
  | none => exact Action.stays_pure ha fun _ hx => by cases hx
  | some value =>
      have hmet : v.Meets value.nodes := ha.met_of_getRaw hn hfound
      have hread : (n.readValue (.ofFuel fuel) value).Stays v sites a
          fun x => v.Meets x.nodes := by
        unfold readValue
        split
        · rename_i text
          exact (hl.expand n text a ha hn (h.part (.template hfound))).map _ fun _ _ => .nil
        · exact Action.stays_pure ha hmet
      exact hread.map _ fun x hx y hy => Option.some.inj hy ▸ hx

theorem getD_stays {key : String} (h : Moment.OnlyBinds ⟨fuel, .entry n key, a⟩) :
    ((·.getD .null) <$> n.get (.ofFuel fuel) key).Stays v sites a fun x => v.Meets x.nodes := by
  refine (get_stays hl ha hn h).map _ fun found hfound => ?_
  cases found with
  | none => exact Meets.nil
  | some x => exact hfound x rfl

theorem delay_stays (h : Moment.OnlyBinds ⟨fuel, .entry n "$delay", a⟩) :
    (n.delay (.ofFuel fuel)).Stays v sites a fun _ => True := by
  rw [delay]
  refine (get_stays hl ha hn h).bind fun configured b _ hb _ _ => ?_
  exact Action.stays_see (Action.stays_pure hb trivial)

/-! ## Sequences of steps -/

theorem perform_stays {text : String} (h : Moment.OnlyBinds ⟨fuel, .statement n text, a⟩) :
    (n.perform (.ofFuel fuel) text).Stays v sites a fun x => v.Meets x.nodes := by
  rw [perform]
  refine (hl.expand n text a ha hn (h.part .expanded)).bind fun script b hrun hb _ _ => ?_
  exact hl.eval n script b hb hn (h.part (.evaluated hrun))

omit ha in
theorem performAll_stays {indent : String} (steps : List String) : ∀ {a : World} {last : Value},
    v.Confined sites a → v.Meets last.nodes →
    (∀ before s after value b, steps = before ++ s :: after →
      n.performAll (.ofFuel fuel) indent before last a = (.done value, b) →
      Moment.OnlyBinds ⟨fuel, .statement n s,
        (n.notify .stepStart (indent ++ " -> " ++ s) (b.hold value.nodes)).2⟩) →
    (n.performAll (.ofFuel fuel) indent steps last).Stays v sites a
      fun x => v.Meets x.nodes := by
  induction steps with
  | nil => exact fun ha hlast _ => Action.stays_pure ha hlast
  | cons step rest ih =>
      intro a last ha hlast h
      rw [performAll]
      refine Action.Stays.bind (Q := fun x => v.Meets x.nodes) (Action.stays_holding ha ?_) ?_
      · refine (notify_stays (ha.hold hlast) _ _).bind fun _ b hrun hb _ _ => ?_
        have hfirst := h [] step rest last a rfl rfl
        rw [hrun] at hfirst
        exact perform_stays hl hb hn hfirst
      · intro value b hrun hb _ hvalue
        refine ih hb hvalue fun before s after x c hrest hbefore => ?_
        refine h (step :: before) s after x c (by rw [hrest, List.cons_append]) ?_
        rw [performAll, Action.bind_apply, hrun]
        exact hbefore

omit hl ha hn in
theorem settleSteps_stays (ha : v.Confined sites a) {result : Except Failure Value}
    (hok : ∀ x, result = .ok x → v.Meets x.nodes)
    (herror : ∀ f, result = .error f → v.Meets f.nodes) :
    (settleSteps result).Stays v sites a fun x => v.Meets x.nodes := by
  unfold settleSteps
  split
  · exact Action.stays_pure ha (hok _ rfl)
  · rename_i cause
    split
    · rename_i value hreturned
      refine Action.stays_pure ha ?_
      rw [Failure.nodes_of_returned? hreturned]
      exact herror cause rfl
    · refine Action.stays_fail ha ?_
      rw [Failure.nodes_collapse]
      exact herror cause rfl

omit ha in
/-- The statements of a sequence run in its frame. -/
theorem opened_stays {text : String} {arguments : List (String × Value)}
    (hpushed : v.Confined sites (a.pushFrame arguments).2)
    (h : Moment.OnlyBinds ⟨fuel, .sequence n text arguments, a⟩) :
    (Action.attempt (n.performAll (.ofFuel fuel) (stepIndent arguments a)
      (Script.statements text) .null) >>= settleSteps).Stays v sites (n.opened arguments a)
        fun x => v.Meets x.nodes := by
  have hopened : v.Confined sites (n.opened arguments a) := (notify_stays hpushed _ _).world
  refine (performAll_stays hl hn _ hopened .nil ?_).attempt.bind fun result c _ hc _ hresult =>
    settleSteps_stays hc hresult.1 hresult.2
  intro before s after value b hstatements hbefore
  exact h.part (.step ⟨before, after, value, b, hstatements, hbefore, rfl⟩)

theorem steps_stays {text : String} {arguments : List (String × Value)}
    (harguments : ∀ p ∈ arguments, v.Meets p.2.nodes)
    (h : Moment.OnlyBinds ⟨fuel, .sequence n text arguments, a⟩) :
    (n.steps (.ofFuel fuel) text arguments).Stays v sites a fun x => v.Meets x.nodes := by
  have hpushed := ha.pushFrame harguments
  refine Action.stays_withFrame ha (Action.stays_see (Action.stays_see ?_))
  refine (notify_stays hpushed _ _).bind fun _ b hrun _ _ _ => ?_
  have hopened : n.opened arguments a = b := congrArg Prod.snd hrun
  exact hopened ▸ opened_stays hl hn hpushed h

theorem stepsOf_stays {value : Value}
    (h : Moment.OnlyBinds ⟨fuel, .sequence n (a.stepsText value) [], a⟩) :
    (n.stepsOf (.ofFuel fuel) value).Stays v sites a fun x => v.Meets x.nodes := by
  rw [stepsOf]
  exact Action.stays_see (steps_stays hl ha hn (fun _ hp => (List.not_mem_nil hp).elim) h)

theorem call_stays {key : String} {arguments : List (String × Value)}
    (harguments : ∀ p ∈ arguments, v.Meets p.2.nodes)
    (h : Moment.OnlyBinds ⟨fuel, .keyed n key arguments, a⟩) :
    (n.call (.ofFuel fuel) key arguments).Stays v sites a fun x => v.Meets x.nodes := by
  rw [call]
  refine Action.stays_see ?_
  split
  · rename_i value hfound
    exact Action.stays_see (steps_stays hl ha hn harguments (h.part (.stored hfound)))
  · exact Action.stays_fail ha .nil

/-! ## Branches, loops and handlers -/

theorem test_stays {text : String} (h : Moment.OnlyBinds ⟨fuel, .statement n text, a⟩) :
    (n.test (.ofFuel fuel) text).Stays v sites a fun _ => True := by
  rw [test]
  refine (perform_stays hl ha hn h).bind fun value b _ hb _ _ => ?_
  split
  · exact Action.stays_pure hb trivial
  · exact Action.stays_fail hb .nil

theorem run_stays {test : String} (item : LoopItem)
    (h : Moment.OnlyBinds ⟨fuel, .statement n (item.text test), a⟩) :
    (item.run (.ofFuel fuel) n test).Stays v sites a fun _ => True := by
  have hperformed := perform_stays hl ha hn h
  obtain ⟨hrun, events, hafter⟩ :=
    show item.run (.ofFuel fuel) n test a = _ ∧ _ from run_eq item a
  -- Nothing but a report comes behind the evaluation.
  have hworld := hperformed.world.of_cells (b := n.after (.ofFuel fuel) test item a)
    (by rw [hafter]) (by rw [hafter]; exact hperformed.world.holders)
    (by rw [hafter]; exact hperformed.world.framed)
  constructor
  · rw [hrun]
    exact hworld
  · rw [hrun, hafter]
    exact hperformed.frames
  · exact fun _ _ => trivial
  · intro f hf
    rw [hrun] at hf
    cases hverdict : n.verdict (.ofFuel fuel) test item a with
    | returns value =>
        obtain ⟨cause, hfailed, hreturned⟩ := verdict_eq_returns_iff.mp hverdict
        rw [hverdict] at hf
        rcases Outcome.failed.inj hf with rfl
        rw [Failure.nodes, Failure.nodes_of_returned? hreturned]
        exact hperformed.cause cause hfailed
    | _ =>
        rw [hverdict] at hf
        cases hf

omit ha in
theorem walk_stays {test : String} (items : List LoopItem) : ∀ {a : World}, v.Confined sites a →
    (∀ before item rest b, items = before ++ item :: rest →
      n.GoesThrough (.ofFuel fuel) test before a b →
      Moment.OnlyBinds ⟨fuel, .statement n (item.text test), b⟩) →
    (walk (.ofFuel fuel) n test items).Stays v sites a fun _ => True := by
  induction items with
  | nil => exact fun ha _ => Action.stays_pure ha trivial
  | cons item rest ih =>
      intro a ha h
      rw [walk]
      refine (run_stays hl ha hn item (h [] item rest a rfl (.nil a))).bind
        fun goesOn b hrun hb _ _ => ?_
      cases goesOn with
      | false => exact Action.stays_pure hb trivial
      | true =>
          rw [if_pos rfl]
          refine ih hb fun before later after c hrest hthrough => ?_
          rw [(run_eq item a).1] at hrun
          obtain ⟨hverdict, hafter⟩ := Prod.mk.inj hrun
          have hgoes : n.verdict (.ofFuel fuel) test item a = .goesOn := by
            cases hcase : n.verdict (.ofFuel fuel) test item a with
            | goesOn => rfl
            | _ =>
                rw [hcase] at hverdict
                cases hverdict
          refine h (item :: before) later after c (by rw [hrest, List.cons_append]) ?_
          exact .cons item before a c hgoes (hafter ▸ hthrough)

theorem whileDo_stays {test : String} {operations : List String} {limit : Nat}
    (h : ∀ item b, n.Reaches (.ofFuel fuel) test operations limit a item b →
      Moment.OnlyBinds ⟨fuel, .statement n (item.text test), b⟩) :
    (n.whileDo (.ofFuel fuel) test operations limit).Stays v sites a fun _ => True := by
  rw [whileDo, whileFrom_eq_walk]
  refine (walk_stays hl hn _ ha ?_).bind fun goesOn b _ hb _ _ => ?_
  · exact fun before item rest b hitems hthrough => h item b ⟨before, rest, hitems, hthrough⟩
  · split
    · exact Action.stays_fail hb .nil
    · exact Action.stays_pure hb trivial

theorem tryExcept_stays {operations handler : Value}
    (htried : Moment.OnlyBinds ⟨fuel, .sequence n (a.stepsText operations) [], a⟩)
    (hhandled : ∀ cause report b c, n.stepsOf (.ofFuel fuel) operations a = (.failed cause, b) →
      n.notify .exceptionHandled report b = (.done (), c) →
      Moment.OnlyBinds ⟨fuel, .sequence n (c.stepsText handler) [("exception", .failure cause)],
        c⟩) :
    (n.tryExcept (.ofFuel fuel) operations handler).Stays v sites a fun _ => True := by
  rw [tryExcept]
  refine (stepsOf_stays hl ha hn htried).attempt.bind fun result b hrun hb _ hresult => ?_
  cases result with
  | ok value => exact Action.stays_pure hb trivial
  | error cause =>
      have hfailed := Action.attempt_eq_error hrun
      refine Action.stays_see ((notify_stays hb _ _).bind fun _ c hnotify hc _ _ => ?_)
      refine Action.stays_see ?_
      refine (steps_stays hl hc hn ?_ (hhandled cause _ b c hfailed hnotify)).map _ fun _ _ =>
        trivial
      intro p hp
      rw [List.mem_singleton.mp hp]
      exact hresult.2 cause rfl

theorem ifThen_stays {test : String} {yes : Value}
    (htest : Moment.OnlyBinds ⟨fuel, .statement n test, a⟩)
    (hyes : ∀ b, n.test (.ofFuel fuel) test a = (.done true, b) →
      Moment.OnlyBinds ⟨fuel, .sequence n (b.stepsText yes) [], b⟩) :
    (n.ifThen (.ofFuel fuel) test yes).Stays v sites a fun _ => True := by
  rw [ifThen]
  refine (test_stays hl ha hn htest).bind fun holds b hrun hb _ _ => ?_
  cases holds with
  | false => exact Action.stays_pure hb trivial
  | true =>
      rw [if_pos rfl]
      exact (stepsOf_stays hl hb hn (hyes b hrun)).bind_pure fun _ _ => trivial

theorem ifThenElse_stays {test : String} {yes no : Value}
    (htest : Moment.OnlyBinds ⟨fuel, .statement n test, a⟩)
    (hyes : ∀ b, n.test (.ofFuel fuel) test a = (.done true, b) →
      Moment.OnlyBinds ⟨fuel, .sequence n (b.stepsText yes) [], b⟩)
    (hno : ∀ b, n.test (.ofFuel fuel) test a = (.done false, b) →
      Moment.OnlyBinds ⟨fuel, .sequence n (b.stepsText no) [], b⟩) :
    (n.ifThenElse (.ofFuel fuel) test yes no).Stays v sites a fun _ => True := by
  rw [ifThenElse]
  refine (test_stays hl ha hn htest).bind fun holds b hrun hb _ _ => ?_
  have hbranch : Moment.OnlyBinds
      ⟨fuel, .sequence n (b.stepsText (if holds then yes else no)) [], b⟩ := by
    cases holds with
    | false => exact hno b hrun
    | true => exact hyes b hrun
  exact (stepsOf_stays hl hb hn hbranch).bind_pure fun _ _ => trivial

theorem run_of_stays (h : Moment.OnlyBinds ⟨fuel, .keyed n (n.runsKey a) [], a⟩) :
    (n.run (.ofFuel fuel)).Stays v sites a fun x => v.Meets x.nodes :=
  (call_stays hl ha hn (fun _ hp => (List.not_mem_nil hp).elim) h).congr (run_eq_call _ n a)

theorem getItem_stays {path : String} (h : Moment.OnlyBinds ⟨fuel, .script n path, a⟩) :
    (n.getItem (.ofFuel fuel) path).Stays v sites a v.Met := by
  rw [getItem]
  refine (hl.eval n path a ha hn h).bind fun value b _ hb _ hvalue => ?_
  split
  · exact Action.stays_pure hb (hvalue _ List.mem_cons_self)
  · exact Action.stays_fail hb .nil

omit hl hn in
theorem remove_stays {key : String} (hn : v.Open sites n) (hmet : v.Met n) :
    (n.remove key).Stays v sites a fun old => ∀ x ∈ old, v.Meets x.nodes :=
  Action.stays_of_done rfl (ha.remove hn) rfl fun _ hx => ha.met_of_getRaw hmet hx

/-! ## Operations -/

/-- An operation stays confined. Those that put an entry or load a document are none of them, since
they make a store that goes elsewhere or adopts. -/
theorem invoke_stays {call : Call} (hcall : v.Meets (Value.allNodes call.arguments))
    (h : Moment.OnlyBinds ⟨fuel, .operation n call, a⟩) :
    (n.invoke (.ofFuel fuel) call).Stays v sites a fun x => v.Meets x.nodes := by
  have hself : v.Meets (Value.node n).nodes := .singleton hn
  have htext : ∀ {i : Nat} (f : Failure), call.text i = .error f → v.Meets f.nodes :=
    fun _ hf => Call.nodes_of_text_error hf
  have hvalue : ∀ {i : Nat} (f : Failure), call.value i = .error f → v.Meets f.nodes :=
    fun _ hf => Call.nodes_of_value_error hf
  have hcount : ∀ {i : Nat} (f : Failure), call.count i = .error f → v.Meets f.nodes :=
    fun _ hf => Call.nodes_of_count_error hf
  have hunit : ∀ {p : Action Unit}, p.Stays v sites a (fun _ => True) →
      (p >>= fun _ => pure (.node n)).Stays v sites a fun x : Value => v.Meets x.nodes :=
    fun hp => hp.bind_pure fun _ _ => hself
  rw [invoke]
  split <;> rename_i hmethod
  case h_1 =>
    refine Action.stays_lift ha htext fun test h₀ => ?_
    refine Action.stays_lift ha hvalue fun operations h₁ => ?_
    refine Action.stays_lift ha hcount fun limit h₂ => Action.stays_see (hunit ?_)
    exact whileDo_stays hl ha hn fun item b hreached =>
      h.part (.whileDo hmethod h₀ h₁ h₂ hreached)
  case h_2 =>
    refine Action.stays_lift ha hvalue fun operations h₁ => Action.stays_see ?_
    refine Action.stays_lift ha htext fun test h₀ => ?_
    refine Action.stays_lift ha hcount fun limit h₂ => hunit ?_
    exact whileDo_stays hl ha hn fun item b hreached =>
      h.part (.whileDoAll hmethod h₁ h₀ h₂ hreached)
  case h_3 =>
    refine Action.stays_lift ha htext fun test h₀ => ?_
    refine Action.stays_lift ha hvalue fun yes h₁ => hunit ?_
    exact ifThen_stays hl ha hn (h.part (.test (.inl hmethod) h₀ h₁)) fun b hholds =>
      h.part (.branch (.inl hmethod) h₀ h₁ hholds)
  case h_4 =>
    refine Action.stays_lift ha htext fun test h₀ => ?_
    refine Action.stays_lift ha hvalue fun yes h₁ => ?_
    refine Action.stays_lift ha hvalue fun no h₂ => hunit ?_
    exact ifThenElse_stays hl ha hn (h.part (.test (.inr ⟨hmethod, no, h₂⟩) h₀ h₁))
      (fun b hholds => h.part (.branch (.inr ⟨hmethod, no, h₂⟩) h₀ h₁ hholds))
      fun b hfails => h.part (.otherwise hmethod h₀ h₂ hfails)
  case h_5 =>
    refine Action.stays_lift ha hvalue fun operations h₀ => ?_
    refine Action.stays_lift ha hvalue fun handler h₁ => hunit ?_
    exact tryExcept_stays hl ha hn (h.part (.tried hmethod h₀ h₁))
      fun cause report b c hfailed hreported => h.part (.handled hmethod h₀ h₁ hfailed hreported)
  case h_6 =>
    refine Action.stays_lift ha htext fun script h₀ => Action.stays_see ?_
    exact steps_stays hl ha hn (Call.meets_entries ha hcall 1) (h.part (.steps hmethod h₀))
  case h_7 =>
    refine Action.stays_lift ha htext fun key h₀ => Action.stays_see ?_
    exact call_stays hl ha hn (Call.meets_entries ha hcall 1) (h.part (.keyed hmethod h₀))
  case h_8 => exact run_of_stays hl ha hn (h.part (.run hmethod))
  case h_9 =>
    refine Action.stays_lift ha htext fun path h₀ => ?_
    exact (getItem_stays hl ha hn (h.part (.script (.inl hmethod) h₀))).map _ fun _ hm =>
      .singleton hm
  case h_10 => exact Action.stays_inspect ha .nil
  case h_11 =>
    refine Action.stays_inspect ha ?_
    split <;> exact .nil
  case h_12 =>
    exact Action.stays_inspect ha (.of_ofNode? fun _ hm => ha.met_of_parent? hl.alive hm)
  case h_13 =>
    exact Action.stays_inspect ha
      (.singleton (ha.met_of_mem_lineage hl.alive hn (List.getLast_mem _)))
  case h_14 =>
    refine Action.stays_lift ha htext fun json h₀ => ?_
    exact absurd rfl (h.binds (.load (.inl hmethod) h₀)).route_ne.2
  case h_15 =>
    refine Action.stays_lift ha htext fun key h₀ => ?_
    exact absurd rfl (h.binds (.load (.inr (.inl hmethod)) h₀)).route_ne.2
  case h_16 =>
    refine Action.stays_lift ha htext fun document h₀ => ?_
    exact absurd rfl (h.binds (.load (.inr (.inr hmethod)) h₀)).route_ne.2
  case h_17 => exact Action.stays_inspect ha .nil
  case h_18 =>
    exact (delay_stays hl ha hn (h.part (.delay hmethod))).bind_pure fun _ _ => hself
  case h_19 =>
    refine Action.stays_lift ha htext fun key h₀ => ?_
    exact getD_stays hl ha hn (h.part (.get hmethod h₀))
  case h_20 =>
    refine Action.stays_lift ha htext fun key h₀ => ?_
    refine Action.stays_lift ha hvalue fun stored h₁ => ?_
    exact absurd rfl (h.binds (.put hmethod h₀ h₁)).route_ne.1
  case h_21 =>
    refine Action.stays_lift ha htext fun key h₀ => ?_
    refine Action.stays_lift ha hvalue fun stored h₁ => ?_
    by_cases hengined : (a.cell n).engined = true
    · exact absurd rfl (h.binds (.putStatic hmethod h₀ h₁ hengined)).route_ne.1
    · have hrun : n.putStatic key stored a = (.done none, a) := by
        rw [putStatic, Action.update, if_neg hengined]
      exact (Action.stays_of_done (Q := fun old => old = none) hrun ha rfl rfl).map _
        fun old hold => by rw [hold]; exact .nil
  case h_22 =>
    refine Action.stays_lift ha htext fun key h₀ => ?_
    exact (Action.stays_inspect (Q := fun _ => True) ha trivial).map _ fun _ _ => .nil
  case h_23 => exact Action.stays_inspect ha .nil
  case h_24 => exact Action.stays_inspect ha .nil
  case h_25 =>
    refine Action.stays_inspect ha fun r hr => ?_
    obtain ⟨x, hx, hin⟩ := Value.mem_allNodes.mp hr
    obtain ⟨key, -, rfl⟩ := List.mem_map.mp hx
    cases hin
  case h_26 =>
    refine Action.stays_lift ha htext fun key h₀ => ?_
    have hopen : v.Open sites n := ha.framed n (h.binds (.remove hmethod h₀)).1
    refine (remove_stays ha hopen hn).map _ fun old hold => ?_
    cases old with
    | none => exact .nil
    | some x => exact hold x rfl
  case h_27 =>
    refine Action.stays_lift ha htext fun template h₀ => ?_
    exact (hl.expand n template a ha hn (h.part (.expand hmethod h₀))).map _ fun _ _ => .nil
  case h_28 =>
    refine Action.stays_lift ha htext fun script h₀ => ?_
    exact hl.eval n script a ha hn (h.part (.script (.inr hmethod) h₀))
  case h_29 =>
    refine Action.stays_fail ha ?_
    rw [Failure.nodes]
    exact Call.meets_first hcall
  case h_30 => exact Action.stays_see (Action.stays_fail ha .nil)

end Entries

end NodeId

end ScriptTree
