import ScriptTree.Proofs.Place.Found
import ScriptTree.Proofs.Steps.EarlyReturn

/-!
# How sequences end

A sequence of steps runs its statements one after another until one of them is not done
(`NodeId.performAll_append`, `NodeId.performAll_stops`). It ends with the value of the last one,
with the value of an early return, or with the failure of the statement that it has stopped at. In
each case the world is the one that this statement leaves, without the frame of the sequence
(`NodeId.Ends`, `NodeId.steps_eq_iff`).
-/

set_option autoImplicit false

namespace ScriptTree.NodeId

variable {lang : Language} {n : NodeId} {text s indent : String} {steps after : List String}
  {arguments : List (String × Value)} {first last : Value} {outcome : Outcome Value}
  {w w' x : World}

/-! ## Statements in order -/

/-- Statements after others go on from where those have ended. -/
theorem performAll_append (before rest : List String) (first : Value) :
    n.performAll lang indent (before ++ rest) first =
      n.performAll lang indent before first >>= n.performAll lang indent rest := by
  induction before generalizing first with
  | nil => rfl
  | cons s before ih =>
      rw [List.cons_append, performAll, performAll, bind_assoc]
      exact congrArg _ (funext fun value => ih value)

/-- A statement ends as it does after its announcement, and what it holds it lets go of. -/
theorem announced_apply
    (h : n.perform lang s (n.notify .stepStart (indent ++ " -> " ++ s) (w.hold last.nodes)).2 =
      (outcome, x)) :
    (Action.holding last.nodes do
      n.notify .stepStart (indent ++ " -> " ++ s)
      n.perform lang s) w = (outcome, { x with held := w.held }) := by
  have hinner : (n.notify .stepStart (indent ++ " -> " ++ s) >>= fun _ => n.perform lang s)
      (w.hold last.nodes) = (outcome, x) := h
  exact congrArg (fun r : Outcome Value × World => (r.1, { r.2 with held := w.held })) hinner

theorem performAll_cons_of_done {value : Value}
    (h : n.perform lang s (n.notify .stepStart (indent ++ " -> " ++ s) (w.hold last.nodes)).2 =
      (.done value, x)) :
    n.performAll lang indent (s :: after) last w =
      n.performAll lang indent after value { x with held := w.held } := by
  rw [performAll]
  exact Action.bind_done (announced_apply h)

/-- A statement that is not done is the end of the statements. -/
theorem performAll_cons_of_stop (houtcome : ∀ value, outcome ≠ .done value)
    (h : n.perform lang s (n.notify .stepStart (indent ++ " -> " ++ s) (w.hold last.nodes)).2 =
      (outcome, x)) :
    n.performAll lang indent (s :: after) last w = (outcome, { x with held := w.held }) := by
  rw [performAll, Action.bind_apply, announced_apply h]
  cases outcome with
  | done value => exact absurd rfl (houtcome value)
  | failed cause => rfl
  | exhausted => rfl

/-- Statements that are not done have come to one that is not done. -/
theorem performAll_stops (houtcome : ∀ value, outcome ≠ .done value)
    (h : n.performAll lang indent steps first w = (outcome, w')) :
    ∃ before s after last w₁ x, steps = before ++ s :: after ∧
      n.performAll lang indent before first w = (.done last, w₁) ∧
      n.perform lang s (n.notify .stepStart (indent ++ " -> " ++ s) (w₁.hold last.nodes)).2 =
        (outcome, x) ∧ w' = { x with held := w₁.held } := by
  induction steps generalizing first w with
  | nil =>
      cases h
      exact absurd rfl (houtcome first)
  | cons s rest ih =>
      rcases hs : n.perform lang s
        (n.notify .stepStart (indent ++ " -> " ++ s) (w.hold first.nodes)).2 with ⟨result, x⟩
      by_cases hdone : ∃ value, result = .done value
      · -- The statement is done, and one of the rest is not.
        obtain ⟨value, rfl⟩ := hdone
        rw [performAll_cons_of_done hs] at h
        obtain ⟨before, s', after, last, w₁, y, hrest, hbefore, hstop, hw'⟩ := ih h
        refine ⟨s :: before, s', after, last, w₁, y, congrArg _ hrest, ?_, hstop, hw'⟩
        rw [performAll_cons_of_done hs]
        exact hbefore
      · rw [performAll_cons_of_stop (fun value hv => hdone ⟨value, hv⟩) hs] at h
        cases h
        exact ⟨[], s, rest, first, w, x, rfl, rfl, hs, rfl⟩

/-! ## Sequences -/

/-- What a sequence gives, from how its statements have ended. -/
def settled : Outcome Value → Outcome Value
  | .done value => .done value
  | .failed cause =>
      match cause.returned? with
      | some value => .done value
      | none => .failed cause.collapse
  | .exhausted => .exhausted

theorem settle_apply (a : Action Value) (w : World) :
    (Action.attempt a >>= settleSteps) w = (settled (a w).1, (a w).2) := by
  rw [Action.bind_apply, Action.attempt]
  rcases a w with ⟨value | cause | _, w'⟩
  · rfl
  · simp only [settleSteps, settled]
    cases cause.returned? <;> rfl
  · rfl

/-- How a sequence ends that starts in `w`. -/
inductive Ends (lang : Language) (n : NodeId) (text : String) (arguments : List (String × Value))
    (w : World) : Outcome Value → World → Prop
  /-- All statements are done. -/
  | finished {value : Value} {x : World}
      (done : n.performAll lang (stepIndent arguments w) (Script.statements text) .null
        (n.opened arguments w) = (.done value, x)) :
      Ends lang n text arguments w (.done value) { x with frames := w.frames }
  /-- The statement `s` raises an early return, and those behind it are left out. -/
  | returned {s : String} {v x : World} {cause : Failure} {value : Value}
      (comes : n.ComesTo lang text arguments w s v)
      (fails : n.perform lang s v = (.failed cause, x)) (signal : cause.returned? = some value) :
      Ends lang n text arguments w (.done value) { x with frames := w.frames, held := w.held }
  /-- The statement `s` fails, and those behind it are left out. -/
  | failed {s : String} {v x : World} {cause : Failure}
      (comes : n.ComesTo lang text arguments w s v)
      (fails : n.perform lang s v = (.failed cause, x)) (plain : cause.returned? = none) :
      Ends lang n text arguments w (.failed cause.collapse)
        { x with frames := w.frames, held := w.held }
  /-- The fuel of nested evaluation is used up in the statement `s`. -/
  | lost {s : String} {v x : World} (comes : n.ComesTo lang text arguments w s v)
      (exhausts : n.perform lang s v = (.exhausted, x)) :
      Ends lang n text arguments w .exhausted { x with frames := w.frames, held := w.held }

variable [hl : lang.Orderly]

/-- Statements leave the frames of the sequence and what is held as they were when it started. -/
theorem kept_of_performAll
    (h : n.performAll lang (stepIndent arguments w) steps first (n.opened arguments w) =
      (outcome, x)) : x.frames = ⟨w.cells.size⟩ :: w.frames ∧ x.held = w.held := by
  obtain ⟨hframes, hheld, hindent⟩ := continues_opened n arguments w
  have hcontinues := continues_performAll lang n steps first (n.opened arguments w)
  rw [← hindent, h] at hcontinues
  exact ⟨hcontinues.frames.trans hframes, hcontinues.held.trans hheld⟩

/-- A sequence ends as its statements do, without its frame. -/
theorem steps_eq_settled
    (h : n.performAll lang (stepIndent arguments w) (Script.statements text) .null
      (n.opened arguments w) = (outcome, x)) :
    n.steps lang text arguments w = (settled outcome, { x with frames := w.frames }) := by
  rw [steps_eq, settle_apply, h, World.dropFrame, (kept_of_performAll h).1,
    Scope.below_cons_self]

/-- The statements of a sequence that has come to one that is not done. -/
theorem performAll_of_comesTo (houtcome : ∀ value, outcome ≠ .done value)
    (comes : n.ComesTo lang text arguments w s w') (h : n.perform lang s w' = (outcome, x)) :
    n.performAll lang (stepIndent arguments w) (Script.statements text) .null
      (n.opened arguments w) = (outcome, { x with held := w.held }) := by
  obtain ⟨before, after, last, w₁, hstatements, hbefore, rfl⟩ := comes
  rw [hstatements, performAll_append, Action.bind_done hbefore,
    performAll_cons_of_stop houtcome h, (kept_of_performAll hbefore).2]

/-- Statements that are not done have come to one that is not done, in the words of the
sequence. -/
theorem exists_comesTo_of_stop (houtcome : ∀ value, outcome ≠ .done value)
    (h : n.performAll lang (stepIndent arguments w) (Script.statements text) .null
      (n.opened arguments w) = (outcome, w')) :
    ∃ s v x, n.ComesTo lang text arguments w s v ∧ n.perform lang s v = (outcome, x) ∧
      w' = { x with held := w.held } := by
  obtain ⟨before, s, after, last, w₁, x, hstatements, hbefore, hstop, rfl⟩ :=
    performAll_stops houtcome h
  refine ⟨s, _, x, ⟨before, after, last, w₁, hstatements, hbefore, rfl⟩, hstop, ?_⟩
  rw [(kept_of_performAll hbefore).2]

/-- A sequence gives what its ending says, and nothing else. -/
theorem steps_eq_iff {outcome : Outcome Value} :
    n.steps lang text arguments w = (outcome, w') ↔ n.Ends lang text arguments w outcome w' := by
  constructor
  · intro h
    rcases hall : n.performAll lang (stepIndent arguments w) (Script.statements text) .null
      (n.opened arguments w) with ⟨result, x⟩
    rw [steps_eq_settled hall] at h
    cases result with
    | done value =>
        cases h
        exact .finished hall
    | failed cause =>
        obtain ⟨s, v, y, hcomes, hstop, rfl⟩ := exists_comesTo_of_stop (by simp) hall
        rw [settled] at h
        cases hreturned : cause.returned? with
        | none =>
            rw [hreturned] at h
            cases h
            exact .failed (x := y) hcomes hstop hreturned
        | some value =>
            rw [hreturned] at h
            cases h
            exact .returned (x := y) hcomes hstop hreturned
    | exhausted =>
        obtain ⟨s, v, y, hcomes, hstop, rfl⟩ := exists_comesTo_of_stop (by simp) hall
        cases h
        exact .lost (x := y) hcomes hstop
  · intro h
    cases h with
    | finished done => exact steps_eq_settled done
    | returned comes fails signal =>
        rw [steps_eq_settled (performAll_of_comesTo (by simp) comes fails), settled, signal]
    | failed comes fails plain =>
        rw [steps_eq_settled (performAll_of_comesTo (by simp) comes fails), settled, plain]
    | lost comes exhausts =>
        rw [steps_eq_settled (performAll_of_comesTo (by simp) comes exhausts), settled]

end ScriptTree.NodeId
