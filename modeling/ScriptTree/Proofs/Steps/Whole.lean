import ScriptTree.Load.EntryKind
import ScriptTree.Proofs.Run.Interpreter
import ScriptTree.Proofs.Script.Stability

/-!
# Statements are evaluated as wholes

A sequence splits its text into statements, expands each of them and lets its evaluation split the
expansion again. Splitting is stable, so in a text without placeholders each statement is evaluated
once and as a whole (`NodeId.steps_eq_stepsWhole`). `statements_stable` says so together with what
splitting the statements again gives, one by one and on the one line that a document keeps of them.
A statement that starts with `#` is the exception to all of this: a line that starts with it is a
comment. It comes from a `#` behind a semicolon (`hash_behind_semicolon`).
-/

set_option autoImplicit false

namespace ScriptTree

namespace Script

/-- A statement split again. -/
theorem statements_of_mem {text s : String} (h : s ∈ statements text) :
    statements s = if isComment s.toList then [] else [s] := by
  rw [mem_statements] at h
  obtain ⟨p, hstands⟩ := exists_stands_of_mem h
  rw [statements, split_of_stands hstands (not_mem_of_mem_split h)]
  split <;> simp

/-- The text on one line split again. -/
theorem statements_normalised (text : String) :
    statements (normalised text) =
      if (statements text).head?.any (isComment ·.toList) then [] else statements text := by
  have hsplit := @split_join (split text.toList) (fun _ => stands_of_mem_dropLast)
    (fun _ => exists_stands_of_mem) (fun _ => not_mem_of_mem_split)
  have hhead : (statements text).head?.any (isComment ·.toList) =
      (split text.toList).head?.any isComment := by
    rw [statements, List.head?_map]
    cases (split text.toList).head? <;> simp
  rw [hhead, statements, normalised, String.toList_ofList, hsplit, statements]
  split <;> rfl

end Script

/-- A document keeps the statements of an entry on one line. -/
theorem EntryKind.read_steps (lang : Language) (n : NodeId) (text : String) :
    EntryKind.read lang .steps n text = pure (.text (Script.normalised text)) := by
  have htrim : Script.split (Text.trimmed text).toList = Script.split text.toList := by
    rw [Text.trimmed, String.toList_ofList, Script.split_trim]
  simp only [EntryKind.read, EntryKind.scalar, htrim]
  rfl

/-! ## Evaluation -/

namespace NodeId

/-- Evaluates one statement on the node without splitting it. A comment gives nothing. -/
def evalWhole (lang : Language) (n : NodeId) (statement : String) : Action Value := do
  if ← Action.inspect (·.evaluatesOn n) then
    n.within fun c =>
      if Script.isComment statement.toList then pure .null
      else Action.mapFailure (.evaluation statement) (lang.evaluate c statement)
  else Action.fail (.noEvaluator statement)

/-- Evaluates statements in order, each as a whole. -/
def performWhole (lang : Language) (n : NodeId) (indent : String) :
    List String → Value → Action Value
  | [], last => pure last
  | step :: rest, last => do
      let value ← Action.holding last.nodes do
        n.notify .stepStart (indent ++ " -> " ++ step)
        n.evalWhole lang step
      performWhole lang n indent rest value

/-- A sequence that evaluates each statement of its text as a whole. -/
def stepsWhole (lang : Language) (n : NodeId) (text : String)
    (arguments : List (String × Value)) : Action Value :=
  Action.withFrame arguments do
    let indent ← Action.inspect fun w => indentation w.frames.length
    let path ← Action.inspect (·.path n)
    n.notify .stepsStart (startMessage indent path)
    let result ← Action.attempt (n.performWhole lang indent (Script.statements text) .null)
    settleSteps result

end NodeId

/-- An orderly action that holds nothing more runs as it is. -/
theorem Action.holding_nil {α : Type} (a : Action α) [ha : a.Orderly] : holding [] a = a := by
  funext w
  have hheld : (a w).2.held = w.held := (ha.continues w).held
  show ((a w).1, { (a w).2 with held := w.held }) = a w
  rw [← hheld]

/-- Actions that do the same first and go on in the same way do the same. -/
theorem Action.bind_congr {α β : Type} {a b : Action α} {next next' : α → Action β} {w : World}
    (hfirst : a w = b w)
    (hnext : ∀ value w₁, a w = (.done value, w₁) → next value w₁ = next' value w₁) :
    (a >>= next) w = (b >>= next') w := by
  rw [Action.bind_apply, Action.bind_apply, ← hfirst]
  rcases ha : a w with ⟨value | cause | _, w₁⟩
  · exact hnext value w₁ ha
  · rfl
  · rfl

/-- In a frame of its own an action runs in worlds with a frame. -/
theorem Action.withFrame_congr {α : Type} {arguments : List (String × Value)} {a b : Action α}
    (h : ∀ w : World, w.frames ≠ [] → a w = b w) :
    Action.withFrame arguments a = Action.withFrame arguments b := by
  funext w
  obtain ⟨w₀, -, hpush⟩ := w.exists_pushFrame_eq arguments
  rw [Action.withFrame, Action.withFrame, hpush]
  simp only [h { w₀ with frames := ⟨w.cells.size⟩ :: w₀.frames } (List.cons_ne_nil _ _)]

/-- The reserved names. -/
def Context.bindings : List String := ["$self", "$parent", "$local", "$static"]

/-- Any other name is bound to nothing. -/
theorem Context.binding_eq_none {x : String} (hx : x ∉ bindings) (c : Context) :
    c.binding x = none := by
  simp only [bindings, List.mem_cons, List.not_mem_nil, or_false, not_or] at hx
  simp [binding, hx]

/-- A context in a frame on a node with an engine needs no fresh node. -/
theorem Context.create_eq {n : NodeId} {w : World} (hframes : w.frames ≠ [])
    (hengined : (w.cell n).engined = true) : ∃ c, Context.create n w = (.done c, w) := by
  obtain ⟨frame, rest, hrest⟩ := List.exists_cons_of_ne_nil hframes
  exact ⟨_, by simp only [create, hrest, hengined]; rfl⟩

namespace NodeId

variable {fuel : Nat} {n : NodeId} {text s : String}

/-- A statement of a text without placeholders has none either. -/
theorem plain_of_mem_statements (hplain : Text.containsText Template.opening text.toList = false)
    (h : s ∈ Script.statements text) : Text.containsText Template.opening s.toList = false := by
  have hiff := Text.containsText_iff Template.opening
  rw [← Bool.not_eq_true, hiff] at hplain ⊢
  exact Script.not_infix_of_mem_split (a := '$') (b := '\x7b') (by decide) (by decide) hplain
    (Script.mem_statements.mp h)

/-- A text without placeholders is its own expansion. -/
theorem expand_of_plain {w : World} (hplain : Text.containsText Template.opening s.toList = false)
    (hframes : w.frames ≠ []) : n.expand (.ofFuel (fuel + 1)) s w = (.done s, w) := by
  have hexpand : ∀ c, (Language.ofFuel (fuel + 1)).expand c s = pure s := by
    intro c
    show Template.expand (.ofFuel fuel) c s = pure s
    simp [Template.expand, hplain]
  rw [expand, Action.inspect_bind_apply]
  split
  · rename_i hexpands
    rw [World.expandsOn, Bool.and_eq_true] at hexpands
    obtain ⟨c, hc⟩ := Context.create_eq hframes hexpands.1
    simp [within, Action.bind_apply, hc, hexpand, Action.holding]
  · rfl

/-- Evaluation splits a statement again and finds it whole. -/
theorem eval_eq_evalWhole (h : s ∈ Script.statements text) :
    n.eval (.ofFuel fuel) s = n.evalWhole (.ofFuel fuel) s := by
  rw [eval, evalWhole, Script.statements_of_mem h]
  refine congrArg _ (funext fun evaluates => ?_)
  split
  · refine congrArg n.within (funext fun c => ?_)
    split
    · rfl
    · -- Nothing is held for the null before the statement.
      show Action.holding [] _ >>= pure = _
      rw [Action.holding_nil, Action.bind_pure]
  · rfl

/-- In a frame a statement of a text without placeholders is evaluated as a whole. -/
theorem perform_eq_evalWhole {w : World}
    (hplain : Text.containsText Template.opening text.toList = false)
    (h : s ∈ Script.statements text) (hframes : w.frames ≠ []) :
    n.perform (.ofFuel (fuel + 1)) s w = n.evalWhole (.ofFuel (fuel + 1)) s w := by
  rw [perform, Action.bind_apply, expand_of_plain (plain_of_mem_statements hplain h) hframes]
  exact congrFun (eval_eq_evalWhole h) w

/-- So are all of them, one after another. -/
theorem performAll_eq_performWhole
    (hplain : Text.containsText Template.opening text.toList = false) {steps : List String}
    (h : ∀ s ∈ steps, s ∈ Script.statements text) (last : Value) {w : World}
    (hframes : w.frames ≠ []) :
    n.performAll (.ofFuel (fuel + 1)) (indentation w.frames.length) steps last w =
      n.performWhole (.ofFuel (fuel + 1)) (indentation w.frames.length) steps last w := by
  induction steps generalizing last w with
  | nil => rfl
  | cons step rest ih =>
      have hfirst : (Action.holding last.nodes do
            n.notify .stepStart (indentation w.frames.length ++ " -> " ++ step)
            n.perform (.ofFuel (fuel + 1)) step) w =
          (Action.holding last.nodes do
            n.notify .stepStart (indentation w.frames.length ++ " -> " ++ step)
            n.evalWhole (.ofFuel (fuel + 1)) step) w := by
        simp only [Action.holding, Action.bind_apply, notify, Action.change_apply]
        rw [perform_eq_evalWhole hplain (h step List.mem_cons_self)]
        -- The event leaves the frames as they are.
        split <;> exact hframes
      rw [performAll, performWhole]
      refine Action.bind_congr hfirst fun value w₁ hdone => ?_
      have hsame : w₁.frames = w.frames := by
        have hcontinues := continues_announce (.ofFuel (fuel + 1)) n step last w
        rw [hdone] at hcontinues
        exact hcontinues.frames
      rw [← hsame] at hframes ⊢
      exact ih (fun s hs => h s (List.mem_cons_of_mem step hs)) value hframes

/-- A sequence of a text without placeholders evaluates each of its statements once and as a
whole. -/
theorem steps_eq_stepsWhole (hplain : Text.containsText Template.opening text.toList = false)
    (arguments : List (String × Value)) :
    n.steps (.ofFuel (fuel + 1)) text arguments =
      n.stepsWhole (.ofFuel (fuel + 1)) text arguments := by
  refine Action.withFrame_congr fun w hframes => ?_
  rw [Action.inspect_bind_apply, Action.inspect_bind_apply, Action.inspect_bind_apply,
    Action.inspect_bind_apply]
  refine Action.bind_congr rfl fun _ w₁ hstart => ?_
  -- The start of the sequence is noted and leaves the frames as they are.
  have hsame : w₁.frames = w.frames := by
    have hcontinues := continues_notify n .stepsStart
      (startMessage (indentation w.frames.length) (w.path n)) w rfl
    rw [hstart] at hcontinues
    exact hcontinues.frames
  refine Action.bind_congr ?_ fun _ _ _ => rfl
  rw [← hsame] at hframes ⊢
  rw [Action.attempt, Action.attempt,
    performAll_eq_performWhole hplain (fun _ h => h) .null hframes]

end NodeId

/-! ## Stability -/

/-- Splitting is stable, for every text.

* A statement is not empty and has no blanks at its ends. Split again it is one statement, unless it
  starts with `#`: then a line of the text has a `#` behind a semicolon and blanks, and there is no
  statement.
* The statements joined with `" ; "`, the text that a document keeps of them, are split as the text
  is, unless the first of them starts with `#`.
* A sequence of the text, if that has no placeholder, evaluates each statement once and as a whole;
  one that starts with `#` gives null. -/
theorem statements_stable (text : String) :
    (∀ s ∈ Script.statements text,
      s ≠ "" ∧ Text.trimmed s = s ∧
        Script.statements s = (if Script.isComment s.toList then [] else [s]) ∧
        (Script.isComment s.toList = true →
          ∃ line ∈ Text.lines text.toList, Script.Commented line)) ∧
    Script.statements (Script.normalised text) =
      (if (Script.statements text).head?.any (Script.isComment ·.toList) then []
        else Script.statements text) ∧
    (∀ lang n, EntryKind.read lang .steps n text = pure (.text (Script.normalised text))) ∧
    (Text.containsText Template.opening text.toList = false → ∀ fuel (n : NodeId) arguments,
      n.steps (.ofFuel (fuel + 1)) text arguments =
        n.stepsWhole (.ofFuel (fuel + 1)) text arguments) := by
  refine ⟨fun s hs => ?_, Script.statements_normalised text,
    fun lang n => EntryKind.read_steps lang n text,
    fun hplain _ _ arguments => NodeId.steps_eq_stepsWhole hplain arguments⟩
  have hmem := Script.mem_statements.mp hs
  obtain ⟨p, hstands⟩ := Script.exists_stands_of_mem hmem
  refine ⟨?_, ?_, Script.statements_of_mem hs, Script.exists_commented hmem⟩
  · rintro rfl
    exact hstands.nonempty rfl
  · rw [Text.trimmed, hstands.trimmed, String.ofList_toList]

/-- Quotes, brackets and lines: two statements of three lines, split and evaluated again. -/
theorem statements_stable_lines :
    Script.statements "put('k', ';#')\n[1,\n2] ; $self" =
        ["put('k', ';#')", "[1, 2]", "$self"] ∧
      Script.statements "put('k', ';#') ; [1, 2] ; $self" =
        ["put('k', ';#')", "[1, 2]", "$self"] ∧
      ∀ fuel (n : NodeId) arguments,
        n.steps (.ofFuel (fuel + 1)) "put('k', ';#')\n[1,\n2] ; $self" arguments =
          n.stepsWhole (.ofFuel (fuel + 1)) "put('k', ';#')\n[1,\n2] ; $self" arguments := by
  obtain ⟨-, hnormalised, -, hsteps⟩ := statements_stable "put('k', ';#')\n[1,\n2] ; $self"
  have hstatements : Script.statements "put('k', ';#')\n[1,\n2] ; $self" =
      ["put('k', ';#')", "[1, 2]", "$self"] := by decide +kernel
  have hline : Script.normalised "put('k', ';#')\n[1,\n2] ; $self" =
      "put('k', ';#') ; [1, 2] ; $self" := by decide +kernel
  rw [hstatements, hline] at hnormalised
  exact ⟨hstatements, hnormalised.trans (by decide +kernel), hsteps (by decide +kernel)⟩

/-- Behind a semicolon a statement may start with `#`, and it is none when it is split again. As the
first statement on a line it takes the others with it. -/
theorem hash_behind_semicolon :
    Script.statements "a; # b" = ["a", "# b"] ∧ Script.statements "# b" = [] ∧
      Script.statements "; # b; c" = ["# b", "c"] ∧
      Script.statements (Script.normalised "; # b; c") = [] := by
  decide +kernel

end ScriptTree
