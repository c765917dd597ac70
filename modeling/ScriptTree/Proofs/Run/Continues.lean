import ScriptTree.Load.Directive
import ScriptTree.Steps.Sequence

/-!
# Worlds that continue each other

An operation may create nodes, fill them and add to the trace. All else of the world is after it
what it was before: the local frames, the files under way, the nodes that are held, the number of
expansions. `World.Continues` says so of two worlds, with the events added in between: every event
of a sequence of steps is indented by the frames at its moment. Every change of nodes leads to a
world that continues the one before.
-/

set_option autoImplicit false

namespace ScriptTree

/-- An event of a sequence of steps is indented by two blanks for each frame at its moment. -/
def TraceEvent.Indented (e : TraceEvent) : Prop :=
  match e.kind with
  | .stepsStart => e.message = NodeId.startMessage (NodeId.indentation e.frames.length) e.path
  | .stepStart => ∃ step, e.message = NodeId.indentation e.frames.length ++ " -> " ++ step
  | _ => True

/-- An event of a run that started with the given frames and that many nodes: the frames at its
moment are those and, inside them, frames that the run itself has created. -/
structure TraceEvent.Follows (e : TraceEvent) (frames : List NodeId) (size : Nat) : Prop where
  indented : e.Indented
  opened : ∃ opened, e.frames = opened ++ frames ∧ ∀ f ∈ opened, size ≤ f.index

/-- The world in which an action runs that holds the nodes. -/
def World.hold (w : World) (nodes : List NodeId) : World := { w with held := nodes ++ w.held }

/-- The world with other nodes held. -/
def World.reheld (w : World) (held : List NodeId) : World := { w with held := held }

theorem World.reheld_append (w : World) (nodes : List NodeId) :
    w.reheld (nodes ++ w.held) = w.hold nodes := rfl

/-- The second world is one that an operation may leave behind when it starts in the first. -/
structure World.Continues (w w' : World) : Prop where
  frames : w'.frames = w.frames
  held : w'.held = w.held
  loading : w'.loading = w.loading
  expansions : w'.expansions = w.expansions
  files : w'.files = w.files
  engine : w'.engine = w.engine
  static : w'.static = w.static
  size : w.cells.size ≤ w'.cells.size
  engined : ∀ n : NodeId, n.index < w.cells.size → (w'.cell n).engined = (w.cell n).engined
  trace : ∃ emitted, w'.trace = emitted ++ w.trace ∧
    ∀ e ∈ emitted, e.Follows w.frames w.cells.size

namespace World.Continues

variable {w w' w'' : World}

theorem refl (w : World) : w.Continues w where
  frames := rfl
  held := rfl
  loading := rfl
  expansions := rfl
  files := rfl
  engine := rfl
  static := rfl
  size := Nat.le_refl _
  engined := fun _ _ => rfl
  trace := ⟨[], rfl, by simp⟩

/-- Events of the second part have the frames of the first world below theirs too. -/
theorem follows (h : w.Continues w') {e : TraceEvent}
    (he : e.Follows w'.frames w'.cells.size) : e.Follows w.frames w.cells.size := by
  obtain ⟨opened, hframes, hopened⟩ := he.opened
  refine ⟨he.indented, opened, ?_, ?_⟩
  · rw [hframes, h.frames]
  · intro f hf
    exact Nat.le_trans h.size (hopened f hf)

theorem trans (h : w.Continues w') (h' : w'.Continues w'') : w.Continues w'' where
  frames := h'.frames.trans h.frames
  held := h'.held.trans h.held
  loading := h'.loading.trans h.loading
  expansions := h'.expansions.trans h.expansions
  files := h'.files.trans h.files
  engine := h'.engine.trans h.engine
  static := h'.static.trans h.static
  size := Nat.le_trans h.size h'.size
  engined := fun n hn => (h'.engined n (Nat.lt_of_lt_of_le hn h.size)).trans (h.engined n hn)
  trace := by
    obtain ⟨first, ht, hfirst⟩ := h.trace
    obtain ⟨second, ht', hsecond⟩ := h'.trace
    refine ⟨second ++ first, by rw [ht', ht, List.append_assoc], ?_⟩
    intro e he
    rcases List.mem_append.mp he with he | he
    · exact h.follows (hsecond e he)
    · exact hfirst e he

theorem trace_suffix (h : w.Continues w') : w.trace <:+ w'.trace := by
  obtain ⟨emitted, ht, -⟩ := h.trace
  exact ⟨emitted, ht.symm⟩

/-- A change of the cells that keeps the engines of nodes. -/
theorem of_cells (w : World) (cells : Array Cell) (hsize : w.cells.size ≤ cells.size)
    (hengined : ∀ n : NodeId, n.index < w.cells.size →
      (({ w with cells := cells } : World).cell n).engined = (w.cell n).engined) :
    w.Continues { w with cells := cells } where
  frames := rfl
  held := rfl
  loading := rfl
  expansions := rfl
  files := rfl
  engine := rfl
  static := rfl
  size := hsize
  engined := hengined
  trace := ⟨[], rfl, by simp⟩

/-- Nodes that are held during a run are let go after it. -/
theorem held_restored {held : List NodeId} (h : ({ w with held := held } : World).Continues w') :
    w.Continues { w' with held := w.held } :=
  ⟨h.frames, rfl, h.loading, h.expansions, h.files, h.engine, h.static, h.size, h.engined, h.trace⟩

/-- An expansion that was counted is taken back. -/
theorem expansions_restored {expansions : Nat}
    (h : ({ w with expansions := expansions + 1 } : World).Continues w') :
    ({ w with expansions := expansions } : World).Continues
      { w' with expansions := w'.expansions - 1 } :=
  ⟨h.frames, h.held, h.loading, by simp [h.expansions], h.files, h.engine, h.static, h.size,
    h.engined, h.trace⟩

/-- A file is no longer under way when its load has ended. -/
theorem loading_restored {path : String} (h : (w.enterFile path).Continues w') :
    w.Continues (w'.leaveFile path) where
  frames := h.frames
  held := h.held
  loading := by
    have hl : w'.loading = path :: w.loading := h.loading
    simp [World.leaveFile, hl]
  expansions := h.expansions
  files := h.files
  engine := h.engine
  static := h.static
  size := h.size
  engined := h.engined
  trace := h.trace

/-- An event is added in the world that it is about. -/
theorem record (w : World) (kind : TraceKind) (path message : String)
    (h : TraceEvent.Indented ⟨kind, path, message, w.frames⟩) :
    w.Continues (w.record kind path message) where
  frames := rfl
  held := rfl
  loading := rfl
  expansions := rfl
  files := rfl
  engine := rfl
  static := rfl
  size := Nat.le_refl _
  engined := fun _ _ => rfl
  trace := by
    refine ⟨[⟨kind, path, message, w.frames⟩], rfl, ?_⟩
    intro e he
    rw [List.mem_singleton] at he
    subst he
    exact ⟨h, [], rfl, by simp⟩

end World.Continues

/-! ## Changes of nodes -/

namespace World

theorem continues_modifyCell (w : World) (n : NodeId) (f : Cell → Cell)
    (hf : ∀ c, (f c).engined = c.engined) : w.Continues (w.modifyCell n f) := by
  refine Continues.of_cells w _ (by simp) ?_
  intro m hm
  by_cases hn : n = m
  · subst hn
    exact (congrArg Cell.engined (cell_modifyCell_self w f hm)).trans (hf _)
  · exact congrArg Cell.engined (cell_modifyCell_of_ne w f hn)

theorem continues_create (w : World) (engined : Bool) : w.Continues (w.create engined).2 := by
  refine Continues.of_cells w _ (by simp) ?_
  intro m hm
  exact congrArg Cell.engined (cell_create_of_lt w engined hm)

theorem continues_set (w : World) (n : NodeId) (key : String) (value : Value) :
    w.Continues (w.set n key value) :=
  continues_modifyCell w n _ fun _ => rfl

theorem continues_setParent (w : World) (n : NodeId) (parent : Option NodeId) :
    w.Continues (w.setParent n parent) :=
  continues_modifyCell w n _ fun _ => rfl

theorem continues_setName (w : World) (n : NodeId) (name : String) :
    w.Continues (w.setName n name) :=
  continues_modifyCell w n _ fun _ => rfl

theorem continues_remove (w : World) (n : NodeId) (key : String) :
    w.Continues (w.remove n key) :=
  continues_modifyCell w n _ fun _ => rfl

theorem continues_adopt (w : World) (n : NodeId) (key : String) (value : Value) :
    w.Continues (w.adopt n key value) := by
  unfold adopt
  split
  · split
    · exact Continues.refl w
    · exact continues_modifyCell w _ _ fun _ => rfl
  · exact Continues.refl w

theorem continues_put (w : World) (n : NodeId) (key : String) (value : Value) :
    w.Continues (w.put n key value) :=
  (continues_adopt w n key value).trans (continues_set _ n key value)

/-- What one step of a fold keeps, the whole fold keeps. -/
theorem continues_foldl {α : Type} (step : World → α → World)
    (hstep : ∀ (w : World) x, w.Continues (step w x)) (xs : List α) (w : World) :
    w.Continues (xs.foldl step w) := by
  induction xs generalizing w with
  | nil => exact Continues.refl w
  | cons x rest ih => exact (hstep w x).trans (ih (step w x))

theorem continues_putAll (w : World) (n : NodeId) (entries : List (String × Value)) :
    w.Continues (w.putAll n entries) :=
  continues_foldl _ (fun w (p : String × Value) => continues_put w n p.1 p.2) entries w

theorem continues_merge (w : World) (n : NodeId) (entries : List (String × Value)) :
    w.Continues (w.merge n entries) := by
  refine continues_foldl _ ?_ entries w
  intro w p
  split
  · exact Continues.refl w
  · exact continues_put w n p.1 p.2

theorem continues_storeProperty (value : String) (names : List (List Char)) (w : World)
    (n : NodeId) : w.Continues (w.storeProperty n value names) := by
  induction names generalizing n with
  | nil => exact Continues.refl w
  | cons name rest ih =>
      rw [storeProperty]
      split
      · exact ih _
      · exact continues_put w n _ _

theorem continues_flatten (w : World) (n : NodeId) (properties : List (String × String)) :
    w.Continues (w.flatten n properties) :=
  continues_foldl _ (fun w _ => continues_storeProperty _ _ w n) properties w

theorem continues_createUnder (w : World) (owner : Option NodeId) :
    w.Continues (w.createUnder owner).2 := by
  cases owner with
  | none => exact continues_create w false
  | some owner => exact (continues_create w _).trans (continues_setParent _ _ _)

mutual

theorem continues_build (owner : Option NodeId) :
    ∀ (json : Json) (w : World), w.Continues (w.build owner json).2
  | .null, w => Continues.refl w
  | .bool _, w => Continues.refl w
  | .number _, w => Continues.refl w
  | .text _, w => Continues.refl w
  | .array items, w => continues_buildAll owner items w
  | .object members, w =>
      (continues_createUnder w owner).trans (continues_buildMembers owner _ members _)

theorem continues_buildAll (owner : Option NodeId) :
    ∀ (items : List Json) (w : World), w.Continues (buildAll owner items w).2
  | [], w => Continues.refl w
  | item :: rest, w =>
      (continues_build owner item w).trans (continues_buildAll owner rest _)

theorem continues_buildMembers (owner : Option NodeId) (n : NodeId) :
    ∀ (members : List (String × Json)) (w : World), w.Continues (buildMembers owner n members w)
  | [], w => Continues.refl w
  | (key, member) :: rest, w =>
      ((continues_build (owner.map fun _ => n) member w).trans (continues_put _ n key _)).trans
        (continues_buildMembers owner n rest _)

end

end World

end ScriptTree
