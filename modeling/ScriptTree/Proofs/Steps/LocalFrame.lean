import ScriptTree.Proofs.Place.Update
import ScriptTree.Proofs.Steps.Evaluation
import ScriptTree.Proofs.Steps.Whole

/-!
# The local frame only binds

Whatever a run does, when all of its stores bind in the local frame, no node gets another name or
another link to a parent. A sequence of steps has a frame of its own, so nothing at all is stored in
the nodes that were there before it, and they have the parents and the paths that they had
(`Moment.OnlyBinds.keep_places`). The operation `put` does not bind: it adopts in the frame too, and
a node that is put there has no parent when the frame is dropped (`NodeId.steps_put_detaches`).
-/

set_option autoImplicit false

namespace ScriptTree

open World (Meets)

/-! ## Runs -/

namespace Activity

variable {fuel : Nat} {act : Activity} {w : World}

/-- The nodes that an activity may store in: those that it is given and the local frame. -/
def sites (act : Activity) (w : World) : List NodeId := act.nodes ++ w.frames.head?.toList

/-- The activity runs steps in a frame of its own. -/
def Framed : Activity → Prop
  | .sequence .. | .keyed .. => True
  | _ => False

/-- The nodes in an argument of a sequence are among those that it is given. -/
theorem mem_nodes_of_argument {n r : NodeId} {arguments : List (String × Value)}
    {p : String × Value} (hp : p ∈ arguments) (hr : r ∈ p.2.nodes) :
    r ∈ n :: arguments.flatMap fun p => p.2.nodes :=
  List.mem_cons_of_mem n (List.mem_flatMap.mpr ⟨p, hp, hr⟩)

theorem alive_of_mem_sites (halive : ∀ n ∈ act.nodes, w.alive n = true) :
    ∀ s ∈ act.sites w, w.alive s = true := by
  intro s hs
  rcases List.mem_append.mp hs with hs | hs
  · exact halive s hs
  · have hframe := List.mem_of_mem_head? (Option.mem_toList.mp hs)
    exact World.alive_of_mem_holders (List.mem_cons_of_mem _ (List.mem_append_left _ hframe))

/-- A run whose stores all bind in the local frame stays confined. -/
theorem leave_confined (hclosed : w.Closed) (halive : ∀ n ∈ act.nodes, w.alive n = true)
    (honly : Moment.OnlyBinds ⟨fuel, act, w⟩) :
    w.Confined (act.sites w) (act.leave (.ofFuel fuel) w) := by
  have hl := Language.staysWithin (alive_of_mem_sites halive) fuel
  have hw : w.Confined (act.sites w) w := .refl hclosed fun f hf =>
    List.mem_append_right _ (Option.mem_toList.mpr hf)
  have hmet : w.Meets act.nodes := fun n hn => .inl (halive n hn)
  cases act with
  | expression c e =>
      have hframe : c.frame ∈ c.nodes := List.mem_cons_of_mem _ List.mem_cons_self
      have hc : c.Fits w (sites (.expression c e) w) := ⟨hmet, .inl (List.mem_append_left _ hframe)⟩
      exact (Expr.eval_stays hl hc e hw honly).world
  | entry n key => exact (NodeId.get_stays hl hw (hmet n List.mem_cons_self) honly).world
  | expansion n text => exact (hl.expand n text w hw (hmet n List.mem_cons_self) honly).world
  | script n text => exact (hl.eval n text w hw (hmet n List.mem_cons_self) honly).world
  | statement n text => exact (NodeId.perform_stays hl hw (hmet n List.mem_cons_self) honly).world
  | sequence n text arguments =>
      have harguments : ∀ p ∈ arguments, w.Meets p.2.nodes := fun p hp r hr =>
        hmet r (mem_nodes_of_argument hp hr)
      exact (NodeId.steps_stays hl hw (hmet n List.mem_cons_self) harguments honly).world
  | keyed n key arguments =>
      have harguments : ∀ p ∈ arguments, w.Meets p.2.nodes := fun p hp r hr =>
        hmet r (mem_nodes_of_argument hp hr)
      exact (NodeId.call_stays hl hw (hmet n List.mem_cons_self) harguments honly).world
  | operation n call =>
      have hcall : w.Meets (Value.allNodes call.arguments) := fun r hr =>
        hmet r (List.mem_cons_of_mem n hr)
      exact (NodeId.invoke_stays hl hw (hmet n List.mem_cons_self) hcall honly).world

end Activity

namespace NodeId

variable {fuel : Nat} {n : NodeId} {w : World}

/-- Dropping the frame of a sequence changes no node. -/
theorem cells_steps (lang : Language) (n : NodeId) (text : String)
    (arguments : List (String × Value)) (w : World) :
    (n.steps lang text arguments w).2.cells =
      ((Action.attempt (n.performAll lang (stepIndent arguments w) (Script.statements text) .null)
        >>= settleSteps) (n.opened arguments w)).2.cells := by
  rw [steps_eq]
  generalize (_ >>= settleSteps) _ = result
  rfl

/-- A sequence of steps leaves the nodes that are there with the entries, the parents and the paths
that they have. -/
theorem steps_keep_nodes (hclosed : w.Closed) (hn : w.alive n = true) {text : String}
    {arguments : List (String × Value)}
    (harguments : ∀ p ∈ arguments, ∀ r ∈ p.2.nodes, w.alive r = true)
    (honly : Moment.OnlyBinds ⟨fuel, .sequence n text arguments, w⟩) (m : NodeId)
    (hm : m.index < w.cells.size) :
    ((n.steps (.ofFuel fuel) text arguments w).2.cell m).entries = (w.cell m).entries ∧
      (n.steps (.ofFuel fuel) text arguments w).2.parent? m = w.parent? m ∧
      (n.steps (.ofFuel fuel) text arguments w).2.path m = w.path m := by
  have hl : StaysWithin w [] fuel := Language.staysWithin (by simp) fuel
  have hpushed := World.confined_pushFrame hclosed fun p hp r hr => .inl (harguments p hp r hr)
  have hinside := (opened_stays hl (.inl hn) hpushed honly).world
  -- What is held is what was held before.
  have hcells := cells_steps (.ofFuel fuel) n text arguments w
  have hholders := ((orderly_steps (.ofFuel fuel) n text arguments).continues w).holders_eq
  refine ⟨?_, hinside.parent?_eq hclosed hcells hholders m,
    hinside.path_eq hclosed hcells hholders hm⟩
  rw [World.cell, hcells, ← World.cell]
  exact hinside.entries m fun hopen => hopen.elim List.not_mem_nil (Nat.not_le.mpr hm)

/-- A call runs the steps under a key, or it does nothing. -/
theorem call_runs (lang : Language) (n : NodeId) (key : String)
    (arguments : List (String × Value)) (w : World) :
    (∃ value, (w.getRaw n key).filter (fun value => !value.isNull) = some value ∧
      n.call lang key arguments w = n.steps lang (w.stepsText value) arguments w) ∨
      (n.call lang key arguments w).2 = w := by
  rw [call, Action.inspect_bind_apply]
  cases hfound : (w.getRaw n key).filter fun value => !value.isNull with
  | none => exact .inr rfl
  | some value => exact .inl ⟨value, rfl, Action.inspect_bind_apply _ _ w⟩

end NodeId

/-! ## Sequences without placeholders -/

section Plain

variable {P : Store → Prop}

/-- What the stores of a run are like: those that it makes itself, and those of its parts. -/
theorem Moment.Only.intro {m : Moment} (hstores : ∀ s, m.Stores s → P s)
    (hparts : ∀ m', m.Comes m' → m'.Only P) : m.Only P := by
  intro m' hlater s hs
  rcases Relation.ReflTransGen.cases_head hlater with rfl | ⟨m₁, hcomes, hrest⟩
  · exact hstores s hs
  · exact hparts m₁ hcomes m' hrest s hs

/-- A template with a placeholder has the start of one in its text. -/
theorem Template.containsText_of_pieces {s body : List Char} {before after : List Piece}
    (h : pieces s = before ++ .hole body :: after) : Text.containsText opening s = true := by
  refine (Text.containsText_iff _ _).mpr ⟨before.flatMap Piece.text,
    body ++ ['\x7d'] ++ after.flatMap Piece.text, ?_⟩
  rw [← flatMap_text_pieces s, h, List.flatMap_append, List.flatMap_cons, Piece.text, holeText]
  simp only [List.append_assoc]

/-- In a context that is created under a frame, that is the frame. -/
theorem Context.frame_of_create {n : NodeId} {c : Context} {w w₁ : World} {f : NodeId}
    {rest : List NodeId} (hframes : w.frames = f :: rest)
    (h : Context.create n w = (.done c, w₁)) : c.frame = f := by
  have hc := (Prod.mk.inj h).1
  rw [hframes] at hc
  exact (Outcome.done.inj hc) ▸ rfl

theorem Action.frames_of_run {α : Type} (p : Action α) [hp : p.Orderly] {w w₁ : World}
    {result : Outcome α} (h : p w = (result, w₁)) : w₁.frames = w.frames := by
  have hcontinues := hp.continues w
  rw [h] at hcontinues
  exact hcontinues.frames

namespace NodeId

variable {fuel : Nat} {n : NodeId} {w w₁ : World} {text s script : String}
  {arguments : List (String × Value)}

/-- The statements of a sequence begin with its frame on top. -/
theorem frames_of_comesTo (h : n.ComesTo (.ofFuel fuel) text arguments w s w₁) :
    w₁.frames = ⟨w.cells.size⟩ :: w.frames := by
  obtain ⟨before, after, last, b, -, hdone, rfl⟩ := h
  obtain ⟨hframes, -, hindent⟩ := continues_opened n arguments w
  have hcontinues := continues_performAll (.ofFuel fuel) n before .null (n.opened arguments w)
  rw [← hindent, hdone] at hcontinues
  obtain ⟨b', ⟨events, rfl⟩, hnotify⟩ := notify_eq n .stepStart
    (stepIndent arguments w ++ " -> " ++ s) (b.hold last.nodes)
  rw [hnotify]
  exact hcontinues.frames.trans hframes

/-- A text without placeholders is its own expansion, in every world. -/
theorem eq_of_expand_plain (hplain : Text.containsText Template.opening s.toList = false)
    (h : n.expand (.ofFuel (fuel + 1)) s w = (.done script, w₁)) : script = s := by
  rw [expand, Action.inspect_bind_apply] at h
  split at h
  · obtain ⟨c, w₂, -, hrest⟩ := Action.bind_eq_done h
    have hexpand : (Language.ofFuel (fuel + 1)).expand c s = pure s := by
      show Template.expand (.ofFuel fuel) c s = pure s
      simp [Template.expand, hplain]
    replace hrest : Action.holding c.nodes ((Language.ofFuel (fuel + 1)).expand c s) w₂ =
        (.done script, w₁) := hrest
    rw [hexpand] at hrest
    exact (Outcome.done.inj (Prod.mk.inj hrest).1).symm
  · exact (Outcome.done.inj (Prod.mk.inj h).1).symm

/-- The stores of a sequence of a text without placeholders are those of its statements, each in a
context whose frame is on top. -/
theorem only_steps (hplain : Text.containsText Template.opening text.toList = false)
    (h : ∀ s ∈ Script.statements text, ∀ e, Expr.parse s = .ok e → ∀ (c : Context) (b : World),
      b.frames.head? = some c.frame → Moment.Only P ⟨fuel, .expression c e, b⟩)
    (arguments : List (String × Value)) :
    Moment.Only P ⟨fuel + 1, .sequence n text arguments, w⟩ := by
  have hmiddle : ∀ {l before after : List String} {s : String}, l = before ++ s :: after →
      s ∈ l := fun heq => heq ▸ List.mem_append_right _ List.mem_cons_self
  refine .intro (fun _ hs => by cases hs) fun _ hcomes => ?_
  cases hcomes with
  | step hreached =>
      have hframes := frames_of_comesTo hreached
      obtain ⟨before, after, last, b, hstatements, -, -⟩ := hreached
      have hs := hmiddle hstatements
      have hshown := plain_of_mem_statements hplain hs
      refine .intro (fun _ hs => by cases hs) fun _ hcomes => ?_
      cases hcomes with
      | expanded =>
          refine .intro (fun _ hs => by cases hs) fun _ hcomes => ?_
          cases hcomes with
          | hole _ _ _ hpieces _ _ =>
              rw [Template.containsText_of_pieces hpieces] at hshown
              cases hshown
      | evaluated hexpanded =>
          rcases eq_of_expand_plain hshown hexpanded with rfl
          have hkept := Action.frames_of_run _ hexpanded
          refine .intro (fun _ hs => by cases hs) fun _ hcomes => ?_
          cases hcomes with
          | scripted _ hcontext hinner hdone hparsed =>
              have hframe := Context.frame_of_create (hkept.trans hframes) hcontext
              have hopened := (Action.frames_of_run _ hcontext).trans (hkept.trans hframes)
              have htop := (Action.frames_of_run _ hdone).trans hopened
              have hmem := hmiddle hinner
              rw [Script.statements_of_mem hs] at hmem
              split at hmem
              · cases hmem
              · rcases List.mem_singleton.mp hmem with rfl
                exact h _ hs _ hparsed _ _ (by rw [hframe]; exact congrArg List.head? htop)

/-- Putting an entry comes to nothing else. -/
theorem not_comes_put {values : List Value} {m : Moment} :
    ¬ Moment.Comes ⟨fuel, .operation n ⟨"put", values⟩, w⟩ m := by
  intro hcomes
  cases hcomes <;> simp_all

end NodeId

namespace Expr

variable {fuel : Nat} {c : Context} {w : World} {s key : String}

theorem eval_local (lang : Language) (c : Context) (w : World) :
    eval lang c (.name "$local") w = (.done (.node c.frame), w) := rfl

theorem only_literal {value : Literal} :
    Moment.Only P ⟨fuel, .expression c (.literal value), w⟩ := by
  refine .intro (fun _ hs => by cases hs) fun _ hcomes => ?_
  cases hcomes with
  | part hpart => cases hpart

/-- A reserved name is read without any store. -/
theorem only_reserved (h : c.binding s ≠ none) :
    Moment.Only P ⟨fuel, .expression c (.name s), w⟩ := by
  refine .intro (fun _ hs => by cases hs) fun _ hcomes => ?_
  cases hcomes with
  | part hpart => cases hpart
  | name hfree _ _ => exact absurd hfree h

/-- An assignment of a reserved name to a member of the local frame is a binding. -/
theorem onlyBinds_member (h : c.binding s ≠ none) : Moment.OnlyBinds
    ⟨fuel, .expression c (.assign (.member (.name "$local") key) (.name s)), w⟩ := by
  refine Moment.Only.intro (fun store hstores => ?_) fun _ hcomes => ?_
  · cases hstores with
    | assigned _ _ hstored =>
        cases hstored with
        | member hfound =>
            rw [eval_local] at hfound
            have hn := Value.node.inj (Outcome.done.inj (Prod.mk.inj hfound).1)
            exact ⟨congrArg some hn, .inl rfl⟩
  · cases hcomes with
    | part hpart =>
        cases hpart with
        | assigned => exact only_reserved h
        | stored =>
            rename_i hplace
            cases hplace with
            | target => exact only_reserved fun hnone => by cases hnone

/-- Putting a reserved name into the local frame by name is a store that goes there. -/
theorem onlyLocal_put (hframe : w.frames.head? = some c.frame) (h : c.binding s ≠ none) :
    Moment.Only Store.Local ⟨fuel,
      .expression c (.send (.name "$local") "put" [.literal (.text key), .name s]), w⟩ := by
  -- Only a list is stored again after a call, and the frame is no list.
  have hnode : ∀ {t value : Value} {items : List Value} {arguments : List Value}
      {w₁ w₂ w₃ : World}, eval (.ofFuel fuel) c (.name "$local") w₁ = (.done t, w₂) →
      ¬ Context.callMethod (.ofFuel fuel) t ⟨"put", arguments⟩ (w₂.hold t.nodes) =
        (.done (value, some items), w₃) := by
    intro t value items arguments w₁ w₂ w₃ hfound hcalled
    rw [eval_local] at hfound
    rcases Outcome.done.inj (Prod.mk.inj hfound).1 with rfl
    obtain ⟨x, -, heq⟩ := Action.map_eq_done hcalled
    cases heq
  refine .intro (fun store hstores => ?_) fun _ hcomes => ?_
  · cases hstores with
    | changed hdone hfound hcalled hstored => exact absurd hcalled (hnode hfound)
  · cases hcomes with
    | part hpart =>
        cases hpart with
        | sent =>
            rename_i hitem
            cases hitem with
            | head => exact only_literal
            | tail =>
                rename_i hitem
                cases hitem with
                | head => exact only_reserved h
                | tail =>
                    rename_i hitem
                    cases hitem
        | receiver => exact only_reserved fun hnone => by cases hnone
        | changed =>
            rename_i hfound hcalled _ _
            exact absurd hcalled (hnode hfound)
    | sent hdone hfound =>
        have hframes := Action.frames_of_run _ hdone
        rw [eval_local] at hfound
        obtain ⟨houtcome, rfl⟩ := Prod.mk.inj hfound
        rcases Value.node.inj (Outcome.done.inj houtcome) with rfl
        refine .intro (fun store hstores => ?_) fun _ hcomes => ?_
        · cases hstores with
          | put => exact (congrArg List.head? hframes).trans hframe
          | putStatic hmethod _ _ _ => simp at hmethod
          | remove hmethod _ => simp at hmethod
          | load hmethod _ => simp at hmethod
        · exact absurd hcomes NodeId.not_comes_put

end Expr

end Plain

/-! ## Places -/

/-- The local frame only binds. When all stores of a run bind in the frame of their moment, at any
depth of sequences, expansions and scripts and whatever is stored, then no node has another name
or another link to a parent afterwards. After a sequence of steps, the nodes that were there before
it have the entries, the parents and the paths that they had. -/
theorem Moment.OnlyBinds.keep_places {fuel : Nat} {act : Activity} {w : World} (hclosed : w.Closed)
    (halive : ∀ n ∈ act.nodes, w.alive n = true) (honly : Moment.OnlyBinds ⟨fuel, act, w⟩) :
    (∀ m, ((act.leave (.ofFuel fuel) w).cell m).name = (w.cell m).name ∧
      ((act.leave (.ofFuel fuel) w).cell m).parent = (w.cell m).parent) ∧
    (act.Framed → ∀ m, m.index < w.cells.size →
      ((act.leave (.ofFuel fuel) w).cell m).entries = (w.cell m).entries ∧
        (act.leave (.ofFuel fuel) w).parent? m = w.parent? m ∧
        (act.leave (.ofFuel fuel) w).path m = w.path m) := by
  refine ⟨(Activity.leave_confined hclosed halive honly).link, fun hframed m hm => ?_⟩
  cases act with
  | sequence n text arguments =>
      have harguments : ∀ p ∈ arguments, ∀ r ∈ p.2.nodes, w.alive r = true := fun p hp r hr =>
        halive r (Activity.mem_nodes_of_argument hp hr)
      exact NodeId.steps_keep_nodes hclosed (halive n List.mem_cons_self) harguments honly m hm
  | keyed n key arguments =>
      have harguments : ∀ p ∈ arguments, ∀ r ∈ p.2.nodes, w.alive r = true := fun p hp r hr =>
        halive r (Activity.mem_nodes_of_argument hp hr)
      rw [Activity.leave]
      rcases NodeId.call_runs (.ofFuel fuel) n key arguments w with ⟨value, hfound, hrun⟩ | hsame
      · rw [hrun]
        exact NodeId.steps_keep_nodes hclosed (halive n List.mem_cons_self) harguments
          (honly.part (.stored hfound)) m hm
      · rw [hsame]
        exact ⟨rfl, rfl, rfl⟩
  | _ => exact hframed.elim

/-- A node that is an argument of a sequence and is bound in its frame once more keeps its place. -/
theorem Moment.OnlyBinds.keep_places_nested :
    ((⟨2⟩ : NodeId).steps (.ofFuel 1) "$local.tmp = $self" [("seed", .node ⟨2⟩)]
        World.nested).1 = .done (.node ⟨2⟩) ∧
      ((⟨2⟩ : NodeId).steps (.ofFuel 1) "$local.tmp = $self" [("seed", .node ⟨2⟩)]
        World.nested).2.parent? ⟨2⟩ = some ⟨1⟩ ∧
      ((⟨2⟩ : NodeId).steps (.ofFuel 1) "$local.tmp = $self" [("seed", .node ⟨2⟩)]
        World.nested).2.path ⟨2⟩ = "kid" := by
  have hstatements : Script.statements "$local.tmp = $self" = ["$local.tmp = $self"] := by
    decide +kernel
  have hparsed : Expr.parse "$local.tmp = $self" =
      .ok (.assign (.member (.name "$local") "tmp") (.name "$self")) := by
    cbv
  have honly : Moment.OnlyBinds ⟨1, .sequence ⟨2⟩ "$local.tmp = $self" [("seed", .node ⟨2⟩)],
      World.nested⟩ := by
    refine NodeId.only_steps (by decide +kernel) (fun s hs e he c b _ => ?_) _
    rw [hstatements] at hs
    rw [List.mem_singleton.mp hs, hparsed] at he
    exact Except.ok.inj he ▸ Expr.onlyBinds_member fun hnone => by cases hnone
  have halive : ∀ n ∈ (Activity.sequence ⟨2⟩ "$local.tmp = $self" [("seed", .node ⟨2⟩)]).nodes,
      World.nested.alive n = true := by
    decide +kernel
  obtain ⟨-, hparent, hpath⟩ := (Moment.OnlyBinds.keep_places World.closed_nested halive honly).2
    trivial ⟨2⟩ (by decide)
  refine ⟨by cbv, hparent.trans ?_, hpath.trans ?_⟩
  · decide +kernel
  · decide +kernel

/-- All stores of a run may go to the local frame, and yet a node loses its parent: the operation
`put` adopts in the frame too, and the frame is dropped. The node above still refers to the one that
was put. -/
theorem NodeId.steps_put_detaches :
    Moment.Only Store.Local ⟨1, .sequence ⟨2⟩ "$local.put('x', $self)" [], World.nested⟩ ∧
      World.nested.parent? ⟨2⟩ = some ⟨1⟩ ∧ World.nested.path ⟨2⟩ = "kid" ∧
      ((⟨2⟩ : NodeId).steps (.ofFuel 1) "$local.put('x', $self)" [] World.nested).1 = .done .null ∧
      (⟨2⟩ : NodeId) ∈ World.references
        (((⟨2⟩ : NodeId).steps (.ofFuel 1) "$local.put('x', $self)" [] World.nested).2.cell ⟨1⟩) ∧
      ((⟨2⟩ : NodeId).steps (.ofFuel 1) "$local.put('x', $self)" [] World.nested).2.parent? ⟨2⟩ =
        none ∧
      ((⟨2⟩ : NodeId).steps (.ofFuel 1) "$local.put('x', $self)" [] World.nested).2.path ⟨2⟩ =
        "" := by
  refine ⟨NodeId.only_steps (by decide +kernel) (fun s hs e he c b hframe => ?_) _,
    by decide +kernel, by decide +kernel, by cbv, by decide +kernel, by decide +kernel,
    by decide +kernel⟩
  have hstatements : Script.statements "$local.put('x', $self)" = ["$local.put('x', $self)"] := by
    decide +kernel
  have hparsed : Expr.parse "$local.put('x', $self)" =
      .ok (.send (.name "$local") "put" [.literal (.text "x"), .name "$self"]) := by
    cbv
  rw [hstatements] at hs
  rw [List.mem_singleton.mp hs, hparsed] at he
  exact Except.ok.inj he ▸ Expr.onlyLocal_put hframe fun hnone => by cases hnone

end ScriptTree
