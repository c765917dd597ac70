import ScriptTree.Proofs.Reading.Runs

/-!
# Readings and what is held

Of what is held a reading asks only which nodes that keeps alive. So where all that is stored is
calm, it does the same in a world that holds more, when each node held more is blank or alive anyway
(`World.Tolerates`, `Action.Indifferent`). Finding by a path is such a reading
(`NodeId.findFrom_indifferent`).
-/

set_option autoImplicit false

namespace ScriptTree

/-- A reading from `v` has come to `a`, where it makes no difference to hold these nodes instead:
they are those held there and others that are blank or alive anyway. -/
structure World.Tolerates (v a : World) (held : List NodeId) : Prop where
  closed : v.Closed
  padded : v.Padded a
  /-- What is held where the reading starts stays held. -/
  kept : ∀ x ∈ v.held, x ∈ a.held
  fewer : ∀ x ∈ a.held, x ∈ held
  more : ∀ x ∈ held, x ∈ a.held ∨ v.alive x = true ∨ v.cells.size ≤ x.index

namespace World.Tolerates

variable {v a a' : World} {held : List NodeId}

/-- A reading that lets go of what it holds leads on. -/
theorem after (h : v.Tolerates a held) (hpadded : v.Padded a') (hheld : a'.held = a.held) :
    v.Tolerates a' held :=
  ⟨h.closed, hpadded, hheld ▸ h.kept, hheld ▸ h.fewer, hheld ▸ h.more⟩

/-- Nodes held in both. -/
theorem hold (h : v.Tolerates a held) (nodes : List NodeId) :
    v.Tolerates (a.reheld (nodes ++ a.held)) (nodes ++ held) where
  closed := h.closed
  padded := { h.padded with }
  kept := fun x hx => List.mem_append_right _ (h.kept x hx)
  fewer := fun x hx => (List.mem_append.mp hx).elim (List.mem_append_left _)
    fun hx => List.mem_append_right _ (h.fewer x hx)
  more := fun x hx => by
    rcases List.mem_append.mp hx with hx | hx
    · exact .inl (List.mem_append_left _ hx)
    · exact (h.more x hx).imp_left (List.mem_append_right _)

/-- The same nodes are alive. -/
theorem alive (h : v.Tolerates a held) {m : NodeId} (hm : m.index < v.cells.size) :
    (a.reheld held).alive m = a.alive m := by
  have hholders : ∀ {x}, x ∈ a.holders → x ∈ (a.reheld held).holders := by
    intro x hx
    simp only [holders, List.mem_cons, List.mem_append] at hx ⊢
    exact hx.imp_right fun hx => hx.imp_right (h.fewer x)
  have hstart : ∀ {x}, x ∈ v.holders → x ∈ a.holders := by
    intro x hx
    simp only [holders, h.padded.static, h.padded.frames, List.mem_cons, List.mem_append] at hx ⊢
    exact hx.imp_right fun hx => hx.imp_right (h.kept x)
  rw [Bool.eq_iff_iff, alive_iff, alive_iff]
  constructor
  · rintro ⟨nodes, hmem, hsupports⟩
    -- Besides those nodes, the ones that are alive where the reading starts; blank ones drop out.
    refine ⟨fun x => nodes x ∧ x.index < v.cells.size ∨ v.alive x = true, .inl ⟨hmem, hm⟩, ?_⟩
    have halive : ∀ x, v.alive x = true → x ∈ a.holders ∨
        x.index < a.cells.size ∧ ∃ y, (nodes y ∧ y.index < v.cells.size ∨ v.alive y = true) ∧
          x ∈ references (a.cell y) := by
      intro x hx
      obtain ⟨others, hother, hothers⟩ := alive_iff.mp hx
      refine (hothers x hother).imp hstart ?_
      rintro ⟨hlt, y, hy, hrefers⟩
      refine ⟨Nat.lt_of_lt_of_le hlt h.padded.size, y,
        .inr (alive_iff.mpr ⟨others, hy, hothers⟩), ?_⟩
      rw [h.padded.cell]
      exact hrefers
    rintro x (⟨hx, hlt⟩ | hx)
    · rcases hsupports x hx with hholder | ⟨hrange, y, hy, hrefers⟩
      · simp only [holders, List.mem_cons, List.mem_append] at hholder
        rcases hholder with hstatic | hframe | hheld
        · exact .inl (List.mem_cons.mpr (.inl hstatic))
        · exact .inl (List.mem_cons_of_mem _ (List.mem_append_left _ hframe))
        · rcases h.more x hheld with hheld | halready | hblank
          · exact .inl (List.mem_cons_of_mem _ (List.mem_append_right _ hheld))
          · exact halive x halready
          · omega
      · refine .inr ⟨hrange, y, .inl ⟨hy, ?_⟩, hrefers⟩
        by_contra hblank
        have hcell : (a.reheld held).cell y = v.cell y := h.padded.cell y
        rw [hcell, cell_of_size_le (Nat.not_lt.mp hblank)] at hrefers
        cases hrefers
    · exact halive x hx
  · rintro ⟨nodes, hmem, hsupports⟩
    exact ⟨nodes, hmem, fun x hx => (hsupports x hx).imp_left hholders⟩

theorem parent? (h : v.Tolerates a held) (m : NodeId) :
    (a.reheld held).parent? m = a.parent? m := by
  have hcell : (a.reheld held).cell m = a.cell m := rfl
  rw [World.parent?, World.parent?, hcell]
  cases hp : (a.cell m).parent with
  | none => rfl
  | some p =>
      rw [h.padded.cell] at hp
      rw [Option.filter_some, Option.filter_some, h.alive (h.closed.parents m p hp)]

theorem lineage (h : v.Tolerates a held) (m : NodeId) : (a.reheld held).lineage m = a.lineage m :=
  lineage_eq_of_above rfl fun x _ => h.parent? x

theorem holder? (h : v.Tolerates a held) (n : NodeId) (key : String) :
    (a.reheld held).holder? n key = a.holder? n key := by
  rw [World.holder?, h.lineage]
  rfl

theorem path (h : v.Tolerates a held) (m : NodeId) : (a.reheld held).path m = a.path m := by
  rw [World.path, h.lineage]
  rfl

/-- Printing is the same. -/
theorem view (h : v.Tolerates a held) : (a.reheld held).view = a.view := by
  have hpath : (a.reheld held).path = a.path := funext h.path
  have hobject : ∀ fuel, (a.reheld held).objectWithin fuel = a.objectWithin fuel := by
    intro fuel
    induction fuel with
    | zero => rfl
    | succ fuel ih =>
        funext n
        rw [World.objectWithin, World.objectWithin, World.rendering, World.rendering, hpath, ih]
        rfl
  have hall : (a.reheld held).object = a.object := funext fun n => congrFun (hobject _) n
  rw [World.view, World.view, World.rendering, World.rendering, hpath, hall]

theorem text (h : v.Tolerates a held) (x : Value) : (a.reheld held).text x = a.text x := by
  rw [World.text, World.text, h.view]

theorem binary (h : v.Tolerates a held) (op : Expr.Operator) (x y : Value) :
    (a.reheld held).binary op x y = a.binary op x y := by
  cases op <;> simp only [World.binary, World.same, h.text, h.view]

theorem failureMember? (h : v.Tolerates a held) (cause : Failure) (name : String) :
    (a.reheld held).failureMember? cause name = a.failureMember? cause name := by
  simp only [World.failureMember?, World.message, h.view]

end World.Tolerates

/-- The action stores nothing, lets go of what it holds, and does the same with more held. -/
def Action.Indifferent {α : Type} (v : World) (p : Action α) : Prop :=
  ∀ a held, v.Tolerates a held → v.Padded (p a).2 ∧ (p a).2.held = a.held ∧
    p (a.reheld held) = ((p a).1, (p a).2.reheld held)

namespace Action

variable {α β : Type} {v : World}

theorem Indifferent.pure (x : α) : Indifferent v (Pure.pure x) :=
  fun _ _ h => ⟨h.padded, rfl, rfl⟩

theorem Indifferent.fail (cause : Failure) : Indifferent v (Action.fail cause : Action α) :=
  fun _ _ h => ⟨h.padded, rfl, rfl⟩

theorem Indifferent.exhaust : Indifferent v (Action.exhaust : Action α) :=
  fun _ _ h => ⟨h.padded, rfl, rfl⟩

theorem Indifferent.inspect {f : World → α}
    (hf : ∀ a held, v.Tolerates a held → f (a.reheld held) = f a) :
    Indifferent v (Action.inspect f) :=
  fun a held h => ⟨h.padded, rfl, by rw [inspect_apply, inspect_apply, hf a held h]⟩

/-- One step after another. -/
theorem Indifferent.bind {p : Action α} {next : α → Action β} (hp : Indifferent v p)
    (hnext : ∀ x, Indifferent v (next x)) : Indifferent v (p >>= next) := by
  intro a held h
  obtain ⟨hpadded, hheld, hrun⟩ := hp a held h
  rw [bind_apply, bind_apply, hrun]
  rcases hpa : p a with ⟨x | cause | _, a'⟩
  · rw [hpa] at hpadded hheld
    obtain ⟨hpadded', hheld', hrun'⟩ := hnext x a' held (h.after hpadded hheld)
    exact ⟨hpadded', hheld'.trans hheld, hrun'⟩
  · rw [hpa] at hpadded hheld
    exact ⟨hpadded, hheld, rfl⟩
  · rw [hpa] at hpadded hheld
    exact ⟨hpadded, hheld, rfl⟩

theorem Indifferent.map {p : Action α} (hp : Indifferent v p) (f : α → β) :
    Indifferent v (f <$> p) :=
  hp.bind fun x => Indifferent.pure (f x)

/-- What is seen decides what comes next. -/
theorem Indifferent.inspect_bind {f : World → α} {next : α → Action β}
    (hf : ∀ a held, v.Tolerates a held → f (a.reheld held) = f a)
    (hnext : ∀ a held, v.Tolerates a held → Indifferent v (next (f a))) :
    Indifferent v (Action.inspect f >>= next) := by
  intro a held h
  rw [inspect_bind_apply, inspect_bind_apply, hf a held h]
  exact hnext a held h a held h

theorem Indifferent.attempt {p : Action α} (hp : Indifferent v p) :
    Indifferent v (Action.attempt p) := by
  intro a held h
  obtain ⟨hpadded, hheld, hrun⟩ := hp a held h
  rw [Action.attempt, Action.attempt, hrun]
  rcases hpa : p a with ⟨x | cause | _, a'⟩
  all_goals
    rw [hpa] at hpadded hheld
    exact ⟨hpadded, hheld, rfl⟩

theorem Indifferent.holding {p : Action α} (hp : Indifferent v p) (nodes : List NodeId) :
    Indifferent v (Action.holding nodes p) := by
  intro a held h
  obtain ⟨hpadded, -, hrun⟩ := hp _ _ (h.hold nodes)
  refine ⟨{ hpadded with }, rfl, ?_⟩
  have hinside : p { a.reheld held with held := nodes ++ (a.reheld held).held } = _ := hrun
  rw [Action.holding, hinside]
  rfl

/-- One expansion more is under way during the action. -/
theorem Indifferent.expansion {p : Action α} (hp : Indifferent v p) :
    Indifferent v (within (fun w => { w with expansions := w.expansions + 1 })
      (fun w => { w with expansions := w.expansions - 1 }) p) := by
  intro a held h
  have hmore : v.Tolerates { a with expansions := a.expansions + 1 } held :=
    ⟨h.closed, { h.padded with }, h.kept, h.fewer, h.more⟩
  obtain ⟨hpadded, hheld, hrun⟩ := hp _ _ hmore
  refine ⟨{ hpadded with }, hheld, ?_⟩
  have hinside : p { a.reheld held with expansions := (a.reheld held).expansions + 1 } = _ := hrun
  rw [within, hinside]
  rfl

theorem Indifferent.ofFaulty (result : Except Script.Fault α) :
    Indifferent v (Action.ofFaulty result) := by
  cases result with
  | ok value => exact Indifferent.pure value
  | error cause => exact Indifferent.fail _

end Action

open ScriptTree.Action (Indifferent)

section Nodes

variable {v : World}

/-- The context is the same, and blank nodes stand in for what is missing. -/
theorem Context.create_indifferent (n : NodeId) : Indifferent v (Context.create n) := by
  intro a held h
  have hparent := h.parent? n
  have hcell : (a.reheld held).cell n = a.cell n := rfl
  have hframes : (a.reheld held).frames = a.frames := rfl
  have hcell' : ((a.reheld held).create false).2.cell n = (a.create false).2.cell n := rfl
  -- Whether a frame is missing, and then whether the node is one of the engine.
  cases hf : a.frames with
  | cons frame rest =>
      by_cases hengined : (a.cell n).engined = true
      · simp only [Context.create, hparent, hframes, hf, hcell, hengined, if_true]
        exact ⟨h.padded, trivial, rfl⟩
      · simp only [Context.create, hparent, hframes, hf, hcell, hengined]
        exact ⟨h.padded.create, rfl, rfl⟩
  | nil =>
      by_cases hengined : ((a.create false).2.cell n).engined = true
      · simp only [Context.create, hparent, hframes, hf, hcell', hengined, if_true]
        exact ⟨h.padded.create, rfl, rfl⟩
      · simp only [Context.create, hparent, hframes, hf, hcell', hengined]
        exact ⟨h.padded.create.create, rfl, rfl⟩

theorem NodeId.within_indifferent {α : Type} {p : Context → Action α} (n : NodeId)
    (hbody : ∀ c, Indifferent v (p c)) : Indifferent v (n.within p) :=
  (Context.create_indifferent n).bind fun c => (hbody c).holding c.nodes

/-- Calm templates are expanded in the same way with more held. -/
def Language.Indifferent (v : World) (lang : Language) : Prop :=
  ∀ c text, Template.Calm text → Action.Indifferent v (lang.expand c text)

variable {lang : Language} (hl : Language.Indifferent v lang) (hcalm : v.Calm)
include hl

theorem NodeId.expand_indifferent (n : NodeId) {text : String} (htext : Template.Calm text) :
    Indifferent v (n.expand lang text) := by
  refine .bind (.inspect fun _ _ _ => rfl) fun expands => ?_
  split
  · exact n.within_indifferent fun c => hl c text htext
  · exact .pure text

theorem NodeId.readValue_indifferent (n : NodeId) {x : Value}
    (htext : ∀ s, x = .text s → Template.Calm s) : Indifferent v (n.readValue lang x) := by
  unfold NodeId.readValue
  split
  · rename_i s
    exact (n.expand_indifferent hl (htext s rfl)).map _
  · exact .pure _

include hcalm

theorem NodeId.get_indifferent (n : NodeId) (key : String) : Indifferent v (n.get lang key) := by
  refine .inspect_bind (fun _ _ _ => rfl) fun a held h => ?_
  cases hx : a.getRaw n key with
  | none => exact .pure none
  | some x =>
      refine (n.readValue_indifferent hl ?_).map some
      rintro s rfl
      -- What is found is stored where the reading starts.
      rw [World.getRaw, h.padded.cell] at hx
      exact hcalm n key s hx

theorem NodeId.resolve_indifferent (n : NodeId) (key : String) :
    Indifferent v (n.resolve lang key) := by
  refine .bind (.inspect fun a held h => h.holder? n key) fun holder => ?_
  cases holder with
  | none => exact .pure none
  | some holder => exact (holder.get_indifferent hl hcalm key).holding _

theorem Context.lookup_indifferent (c : Context) (name : String) :
    Indifferent v (c.lookup lang name) := by
  rw [Context.lookup]
  cases c.binding name with
  | some value => exact .pure _
  | none =>
      refine .bind (.inspect fun _ _ _ => rfl) fun bound => ?_
      cases bound with
      | some value => exact .pure _
      | none =>
          refine (c.this.resolve_indifferent hl hcalm name).bind fun found => ?_
          cases found with
          | some value => exact .pure _
          | none => exact .inspect fun _ _ _ => rfl

theorem NodeId.findFrom_indifferent (names : List String) (x : Value) :
    Indifferent v (NodeId.findFrom lang names x) := by
  induction names generalizing x with
  | nil => exact .pure _
  | cons name rest ih =>
      cases x with
      | node m =>
          refine ((m.get_indifferent hl hcalm name).holding _).bind fun found => ?_
          cases found with
          | none => exact .pure none
          | some value => exact ih value
      | list items =>
          simp only [NodeId.findFrom]
          split
          · split
            · exact ih _
            · exact .pure none
          · exact .pure none
      | _ => exact .pure none

theorem Value.member_indifferent (name : String) (x : Value) :
    Indifferent v (x.member lang name) := by
  cases x with
  | node n => exact (n.get_indifferent hl hcalm name).map _
  | failure cause => exact .inspect fun a held h => by rw [h.failureMember?]
  | _ => exact .pure _

theorem Value.part_indifferent (x key : Value) : Indifferent v (x.part lang key) := by
  cases x with
  | node n =>
      refine .bind (.inspect fun a held h => h.text key) fun name => ?_
      exact (n.get_indifferent hl hcalm name).map _
  | _ => exact .pure _

end Nodes

/-! ## Expressions and templates -/

section Expressions

variable {v : World} {lang : Language}

mutual

theorem Expr.eval_indifferent (hl : Language.Indifferent v lang) (hcalm : v.Calm) (c : Context) :
    ∀ e : Expr, e.isReading = true → Indifferent v (e.eval lang c)
  | .literal _, _ => by
      rw [Expr.eval]
      exact .pure _
  | .list items, h => by
      rw [Expr.eval]
      exact (Expr.evalAll_indifferent hl hcalm c items h).map _
  | .name s, _ => by
      rw [Expr.eval]
      exact (c.lookup_indifferent hl hcalm s).map _
  | .member target s, h => by
      rw [Expr.eval]
      refine (Expr.eval_indifferent hl hcalm c target h).bind fun x => ?_
      exact (x.member_indifferent hl hcalm s).holding _
  | .index target key, h => by
      obtain ⟨htarget, hkey⟩ := Bool.and_eq_true_iff.mp h
      rw [Expr.eval]
      refine (Expr.eval_indifferent hl hcalm c target htarget).bind fun x => .holding ?_ _
      refine (Expr.eval_indifferent hl hcalm c key hkey).bind fun k => ?_
      exact (x.part_indifferent hl hcalm k).holding _
  | .neg operand, h => by
      rw [Expr.eval]
      exact (Expr.eval_indifferent hl hcalm c operand h).bind fun _ => .ofFaulty _
  | .not operand, h => by
      rw [Expr.eval]
      exact (Expr.eval_indifferent hl hcalm c operand h).bind fun _ => .pure _
  | .binary op left right, h => by
      obtain ⟨hleft, hright⟩ := Bool.and_eq_true_iff.mp h
      rw [Expr.eval]
      refine (Expr.eval_indifferent hl hcalm c left hleft).bind fun x => .holding ?_ _
      refine (Expr.eval_indifferent hl hcalm c right hright).bind fun y => .holding ?_ _
      exact .bind (.inspect fun a held h => h.binary op x y) fun _ => .ofFaulty _
  | .and left right, h => by
      obtain ⟨hleft, hright⟩ := Bool.and_eq_true_iff.mp h
      rw [Expr.eval]
      refine (Expr.eval_indifferent hl hcalm c left hleft).bind fun x => ?_
      split
      · exact (Expr.eval_indifferent hl hcalm c right hright).bind fun _ => .pure _
      · exact .pure _
  | .or left right, h => by
      obtain ⟨hleft, hright⟩ := Bool.and_eq_true_iff.mp h
      rw [Expr.eval]
      refine (Expr.eval_indifferent hl hcalm c left hleft).bind fun x => ?_
      split
      · exact .pure _
      · exact (Expr.eval_indifferent hl hcalm c right hright).bind fun _ => .pure _
  | .choice test yes no, h => by
      obtain ⟨h, hno⟩ := Bool.and_eq_true_iff.mp h
      obtain ⟨htest, hyes⟩ := Bool.and_eq_true_iff.mp h
      rw [Expr.eval]
      refine (Expr.eval_indifferent hl hcalm c test htest).bind fun x => ?_
      split
      · exact Expr.eval_indifferent hl hcalm c yes hyes
      · exact Expr.eval_indifferent hl hcalm c no hno
  | .call _ _, h | .send _ _ _, h | .assign _ _, h => by cases h

theorem Expr.evalAll_indifferent (hl : Language.Indifferent v lang) (hcalm : v.Calm)
    (c : Context) : ∀ es : List Expr, Expr.allReading es = true →
    Indifferent v (Expr.evalAll lang c es)
  | [], _ => by
      rw [Expr.evalAll]
      exact .pure _
  | e :: rest, h => by
      obtain ⟨he, hrest⟩ := Bool.and_eq_true_iff.mp h
      rw [Expr.evalAll]
      refine (Expr.eval_indifferent hl hcalm c e he).bind fun x => ?_
      exact ((Expr.evalAll_indifferent hl hcalm c rest hrest).holding _).bind fun _ => .pure _

end

variable (hl : Language.Indifferent v lang) (hcalm : v.Calm)
include hl hcalm

theorem Template.render_indifferent (c : Context) (body : List Char)
    (hbody : ∀ e, Expr.parse (String.ofList (Text.trim body)) = .ok e → e.isReading = true) :
    Indifferent v (Template.render lang c body) := by
  rw [Template.render]
  cases he : Expr.parse (String.ofList (Text.trim body)) with
  | error _ => exact .pure _
  | ok e =>
      refine (Expr.eval_indifferent hl hcalm c e (hbody e he)).attempt.bind fun result => ?_
      split
      · exact .pure _
      · exact .pure _
      · exact .holding (.inspect fun a held h => by rw [h.text]) _

theorem Template.renderAll_indifferent (c : Context) (pieces : List Template.Piece)
    (hpieces : ∀ body, Template.Piece.hole body ∈ pieces →
      ∀ e, Expr.parse (String.ofList (Text.trim body)) = .ok e → e.isReading = true) :
    Indifferent v (Template.renderAll lang c pieces) := by
  induction pieces with
  | nil => exact .pure _
  | cons piece rest ih =>
      have hrest := ih fun body hbody => hpieces body (List.mem_cons_of_mem _ hbody)
      cases piece with
      | plain s => exact hrest.bind fun _ => .pure _
      | hole body =>
          have hfilled := render_indifferent hl hcalm c body (hpieces body List.mem_cons_self)
          exact hfilled.bind fun _ => hrest.bind fun _ => .pure _

theorem Template.expand_indifferent (c : Context) {text : String} (htext : Template.Calm text) :
    Indifferent v (Template.expand lang c text) := by
  rw [Template.expand]
  split
  · exact .pure _
  · refine .bind (.inspect fun _ _ _ => rfl) fun limit => ?_
    split
    · exact .pure _
    · exact .expansion ((renderAll_indifferent hl hcalm c _ htext).bind fun _ => .pure _)

end Expressions

/-- Whatever the fuel, templates inside of templates included. -/
theorem Language.indifferent_ofFuel {v : World} (hcalm : v.Calm) (fuel : Nat) :
    Language.Indifferent v (.ofFuel fuel) := by
  induction fuel with
  | zero => exact fun _ _ _ => .exhaust
  | succ fuel ih => exact fun c _ htext => Template.expand_indifferent ih hcalm c htext

end ScriptTree
