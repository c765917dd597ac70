import ScriptTree.Proofs.Run.Interpreter
import ScriptTree.Proofs.World.Confined

/-!
# Actions that stay confined

An action stays confined when it stores in nodes that are open to stores only, whatever way it ends,
and when its value, or the cause of its failure, refers to nodes that the run may meet
(`Action.Stays`). The ways to combine actions keep that; a sequence of steps pushes a frame, which
is new and so open, and drops it again (`Action.stays_withFrame`).
-/

set_option autoImplicit false

namespace ScriptTree

theorem World.frames_pushFrame (a : World) (arguments : List (String × Value)) :
    (a.pushFrame arguments).2.frames = (a.pushFrame arguments).1 :: a.frames := by
  obtain ⟨w₀, h₀, hpush⟩ := a.exists_pushFrame_eq arguments
  rw [hpush, h₀.frames]

/-- The entries of a pushed frame do not depend on the frames below it. -/
theorem World.cells_pushFrame (a : World) (frames : List NodeId)
    (arguments : List (String × Value)) :
    (({ a with frames := frames } : World).pushFrame arguments).2.cells =
      (a.pushFrame arguments).2.cells := by
  have hseeded : ∀ (frame : NodeId) (b : World),
      (arguments.foldl (fun (w : World) p => w.set frame p.1 p.2)
        { b with frames := frames }).cells =
        (arguments.foldl (fun w p => w.set frame p.1 p.2) b).cells := by
    intro frame
    induction arguments with
    | nil => exact fun _ => rfl
    | cons p rest ih => exact fun b => ih (b.set frame p.1 p.2)
  exact hseeded ⟨a.cells.size⟩ (a.create false).2

/-- Where a frame is pushed at the start, no other node is open to stores. -/
theorem World.confined_pushFrame {v : World} (hclosed : v.Closed)
    {arguments : List (String × Value)} (harguments : ∀ p ∈ arguments, ∀ r ∈ p.2.nodes, v.Met r) :
    v.Confined [] (v.pushFrame arguments).2 := by
  -- Without the frames that are there, none of them has to be open.
  have hstart : v.Confined [] { v with frames := [] } := by
    refine ⟨Nat.le_refl _, fun _ => ⟨rfl, rfl⟩, fun _ _ => rfl,
      fun _ hx _ hr => met_of_mem_references hclosed hx hr, fun x hx => ?_, fun _ hf => by cases hf⟩
    refine .inl (alive_of_mem_holders ?_)
    rcases List.mem_cons.mp hx with rfl | hx
    · exact List.mem_cons_self
    · exact List.mem_cons_of_mem _ (List.mem_append_right _ hx)
  obtain ⟨w₀, hcontinues, hpush⟩ := v.exists_pushFrame_eq arguments
  refine (hstart.pushFrame harguments).of_cells (v.cells_pushFrame [] arguments).symm ?_ ?_
  · intro x hx
    rw [hpush] at hx
    rcases List.mem_cons.mp hx with rfl | hx
    · exact .inl (alive_of_mem_holders (hcontinues.holders_eq ▸ List.mem_cons_self))
    · rcases List.mem_cons.mp hx with rfl | hx
      · exact .inr (Nat.le_refl _)
      · exact .inl (alive_of_mem_holders (hcontinues.holders_eq ▸ List.mem_cons_of_mem _ hx))
  · intro f hf
    rw [hpush] at hf
    exact Option.some.inj hf ▸ .inr (Nat.le_refl _)

/-- A run may meet all of the nodes. -/
def World.Meets (v : World) (nodes : List NodeId) : Prop := ∀ x ∈ nodes, v.Met x

/-- A run from `v` that has come to `a` stays confined during the action, however it ends, and has
the same frames afterwards. The value is as `Q` says, and a failure refers to nodes that the run may
meet. -/
structure Action.Stays {α : Type} (v : World) (sites : List NodeId) (p : Action α) (a : World)
    (Q : α → Prop) : Prop where
  world : v.Confined sites (p a).2
  frames : (p a).2.frames = a.frames
  value : ∀ x, (p a).1 = .done x → Q x
  cause : ∀ f, (p a).1 = .failed f → v.Meets f.nodes

namespace Action

variable {α β : Type} {v a : World} {sites : List NodeId} {Q : α → Prop} {R : β → Prop}

theorem stays_of_done {p : Action α} {x : α} {b : World} (hp : p a = (.done x, b))
    (hb : v.Confined sites b) (hframes : b.frames = a.frames) (hx : Q x) :
    p.Stays v sites a Q := by
  constructor <;> rw [hp]
  · exact hb
  · exact hframes
  · intro y hy
    rcases Outcome.done.inj hy with rfl
    exact hx
  · intro f hf
    cases hf

theorem stays_pure (ha : v.Confined sites a) {x : α} (hx : Q x) :
    (pure x : Action α).Stays v sites a Q :=
  stays_of_done rfl ha rfl hx

theorem stays_of_failed {p : Action α} {f : Failure} {b : World} (hp : p a = (.failed f, b))
    (hb : v.Confined sites b) (hframes : b.frames = a.frames) (hf : v.Meets f.nodes) :
    p.Stays v sites a Q := by
  constructor <;> rw [hp]
  · exact hb
  · exact hframes
  · intro y hy
    cases hy
  · intro g hg
    rcases Outcome.failed.inj hg with rfl
    exact hf

theorem stays_of_exhausted {p : Action α} {b : World} (hp : p a = (.exhausted, b))
    (hb : v.Confined sites b) (hframes : b.frames = a.frames) : p.Stays v sites a Q := by
  constructor <;> rw [hp]
  · exact hb
  · exact hframes
  · intro y hy
    cases hy
  · intro g hg
    cases hg

theorem stays_fail (ha : v.Confined sites a) {f : Failure} (hf : v.Meets f.nodes) :
    (fail f : Action α).Stays v sites a Q :=
  stays_of_failed rfl ha rfl hf

theorem stays_exhaust (ha : v.Confined sites a) : (exhaust : Action α).Stays v sites a Q :=
  stays_of_exhausted rfl ha rfl

/-- A result that may be a failure comes first. -/
theorem stays_lift (ha : v.Confined sites a) {result : Except Failure α}
    (hcause : ∀ f, result = .error f → v.Meets f.nodes) {next : α → Action β}
    (hnext : ∀ x, result = .ok x → (next x).Stays v sites a R) :
    ((liftM result : Action α) >>= next).Stays v sites a R := by
  cases result with
  | ok x => exact hnext x rfl
  | error f => exact stays_fail ha (hcause f rfl)

theorem stays_inspect (ha : v.Confined sites a) {f : World → α} (hx : Q (f a)) :
    (inspect f).Stays v sites a Q :=
  stays_of_done rfl ha rfl hx

/-- Actions that do the same in the world stay confined alike. -/
theorem Stays.congr {p q : Action α} (hq : q.Stays v sites a Q) (h : p a = q a) :
    p.Stays v sites a Q :=
  ⟨h ▸ hq.world, h ▸ hq.frames, h ▸ hq.value, h ▸ hq.cause⟩

/-- One action after another. What the first has done is known to the second. -/
theorem Stays.bind {p : Action α} {f : α → Action β} (hp : p.Stays v sites a Q)
    (hf : ∀ x b, p a = (.done x, b) → v.Confined sites b → b.frames = a.frames → Q x →
      (f x).Stays v sites b R) : (p >>= f).Stays v sites a R := by
  obtain ⟨hworld, hframes, hvalue, hcause⟩ := hp
  rcases hrun : p a with ⟨x | g | _, b⟩
  all_goals
    have hbind := bind_apply p f a
    rw [hrun] at hworld hframes hvalue hcause hbind
  · obtain ⟨hworld', hframes', hvalue', hcause'⟩ := hf x b hrun hworld hframes (hvalue x rfl)
    exact ⟨hbind ▸ hworld', hbind ▸ hframes'.trans hframes, hbind ▸ hvalue', hbind ▸ hcause'⟩
  -- Where the first action ends without a value, the whole ends as it does.
  · exact stays_of_failed hbind hworld hframes (hcause g rfl)
  · exact stays_of_exhausted hbind hworld hframes

theorem Stays.bind_pure {p : Action α} (hp : p.Stays v sites a Q) {f : α → β}
    (hR : ∀ x, Q x → R (f x)) : (p >>= fun x => pure (f x)).Stays v sites a R :=
  hp.bind fun x _ _ hb _ hx => stays_pure hb (hR x hx)

theorem Stays.map {p : Action α} (hp : p.Stays v sites a Q) (f : α → β)
    (hR : ∀ x, Q x → R (f x)) : (f <$> p).Stays v sites a R :=
  hp.bind_pure hR

/-- What is seen in the world is known. -/
theorem stays_see {f : World → α} {next : α → Action β} (h : (next (f a)).Stays v sites a R) :
    (inspect f >>= next).Stays v sites a R := by
  have hbind : (inspect f >>= next) a = next (f a) a := inspect_bind_apply f next a
  exact ⟨hbind ▸ h.world, hbind ▸ h.frames, hbind ▸ h.value, hbind ▸ h.cause⟩

theorem stays_holding (ha : v.Confined sites a) {p : Action α} {nodes : List NodeId}
    (hp : p.Stays v sites (a.hold nodes) Q) : (holding nodes p).Stays v sites a Q where
  world := hp.world.keep fun _ hx => ha.met_of_mem_held hx
  frames := hp.frames
  value := hp.value
  cause := hp.cause

/-- What is done while nodes are held. -/
theorem exists_of_holding_eq_done {p : Action α} {nodes : List NodeId} {x : α} {b : World}
    (h : holding nodes p a = (.done x, b)) :
    ∃ b', p (a.hold nodes) = (.done x, b') ∧ b = { b' with held := a.held } := by
  obtain ⟨hvalue, hworld⟩ := Prod.mk.inj h
  exact ⟨_, Prod.ext hvalue rfl, hworld.symm⟩

/-- A failure that is attempted is a value. -/
theorem Stays.attempt {p : Action α} (hp : p.Stays v sites a Q) :
    (attempt p).Stays v sites a fun result =>
      (∀ x, result = .ok x → Q x) ∧ ∀ f, result = .error f → v.Meets f.nodes := by
  obtain ⟨hworld, hframes, hvalue, hcause⟩ := hp
  rcases hrun : p a with ⟨x | g | _, b⟩
  all_goals rw [hrun] at hworld hframes hvalue hcause
  · have hattempt : Action.attempt p a = (.done (.ok x), b) := by rw [Action.attempt, hrun]
    refine stays_of_done hattempt hworld hframes ⟨fun y hy => ?_, fun _ hf => by cases hf⟩
    exact Except.ok.inj hy ▸ hvalue x rfl
  · have hattempt : Action.attempt p a = (.done (.error g), b) := by rw [Action.attempt, hrun]
    refine stays_of_done hattempt hworld hframes ⟨fun _ hy => ?_, fun f hf => ?_⟩
    · cases hy
    · exact Except.error.inj hf ▸ hcause g rfl
  · exact stays_of_exhausted (by rw [Action.attempt, hrun]) hworld hframes

/-- The action that is attempted fails as the result says. -/
theorem attempt_eq_error {p : Action α} {f : Failure} {b : World}
    (h : Action.attempt p a = (.done (.error f), b)) : p a = (.failed f, b) := by
  rw [Action.attempt] at h
  rcases hrun : p a with ⟨x | g | _, c⟩
  all_goals
    rw [hrun] at h
    cases h
  rfl

theorem Stays.mapFailure {p : Action α} (hp : p.Stays v sites a Q) {g : Failure → Failure}
    (hg : ∀ f, (g f).nodes = f.nodes) : (mapFailure g p).Stays v sites a Q := by
  obtain ⟨hworld, hframes, hvalue, hcause⟩ := hp
  rcases hrun : p a with ⟨x | f | _, b⟩
  all_goals rw [hrun] at hworld hframes hvalue hcause
  · have hmapped : Action.mapFailure g p a = (.done x, b) := by rw [Action.mapFailure, hrun]
    exact stays_of_done hmapped hworld hframes (hvalue x rfl)
  · have hmapped : Action.mapFailure g p a = (.failed (g f), b) := by
      rw [Action.mapFailure, hrun]
    exact stays_of_failed hmapped hworld hframes ((hg f).symm ▸ hcause f rfl)
  · exact stays_of_exhausted (by rw [Action.mapFailure, hrun]) hworld hframes

/-- One expansion more is under way during the action. -/
theorem stays_expansion {p : Action α}
    (hp : p.Stays v sites { a with expansions := a.expansions + 1 } Q) :
    (within (fun w => { w with expansions := w.expansions + 1 })
      (fun w => { w with expansions := w.expansions - 1 }) p).Stays v sites a Q where
  world := hp.world.of_cells rfl hp.world.holders hp.world.framed
  frames := hp.frames
  value := hp.value
  cause := hp.cause

/-- The frame of the action is dropped again. -/
theorem frames_withFrame {arguments : List (String × Value)} {p : Action α}
    (hp : p.Stays v sites (a.pushFrame arguments).2 Q) :
    (withFrame arguments p a).2.frames = a.frames := by
  show Scope.below (p (a.pushFrame arguments).2).2.frames (a.pushFrame arguments).1 = a.frames
  rw [hp.frames, World.frames_pushFrame, Scope.below_cons_self]

/-- An action in a frame of its own. Its frame is dropped when it has left it on top. -/
theorem stays_withFrame {arguments : List (String × Value)} {p : Action α}
    (ha : v.Confined sites a)
    (hp : p.Stays v sites (a.pushFrame arguments).2 Q) :
    (withFrame arguments p).Stays v sites a Q where
  world := by
    have hdropped := frames_withFrame hp
    refine hp.world.of_cells rfl (fun x hx => ?_) ?_
    · rcases List.mem_cons.mp hx with rfl | hx
      · exact hp.world.holders _ List.mem_cons_self
      · rcases List.mem_append.mp hx with hx | hx
        · rw [hdropped] at hx
          exact ha.holders x (List.mem_cons_of_mem _ (List.mem_append_left _ hx))
        · exact hp.world.met_of_mem_held hx
    · rw [hdropped]
      exact ha.framed
  frames := frames_withFrame hp
  value := hp.value
  cause := hp.cause

end Action

end ScriptTree
