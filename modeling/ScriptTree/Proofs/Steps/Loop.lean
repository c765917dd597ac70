import ScriptTree.Steps.Control

/-!
# Bounded loops

A bounded loop makes the evaluations of a fixed schedule in order (`schedule`): the test, then every
operation and the test again, once for each try. An evaluation lets the loop go on, ends it or
raises an early return (`LoopItem.verdict`), and the first one that does not let it go on is the
last (`whileDo_classified`).
-/

set_option autoImplicit false

namespace ScriptTree

/-- An evaluation that a loop makes in a try. -/
inductive LoopItem where
  | test (tries : Nat)
  | operation (tries : Nat) (text : String)
  deriving DecidableEq, Repr

/-- What an evaluation means for the loop that makes it. -/
inductive Verdict where
  | goesOn
  /-- The test is false. -/
  | stops
  | returns (value : Value)
  /-- The evaluation does not come back. -/
  | lost

/-- How the walk of a loop ends at an evaluation, with whether it goes on. -/
def Verdict.outcome : Verdict → Outcome Bool
  | .goesOn => .done true
  | .stops => .done false
  | .returns value => .failed (.returning value)
  | .lost => .exhausted

/-- How a loop ends at an evaluation, and how it ends when all of them let it go on. -/
def Verdict.ending (limit : Nat) (test : String) : Verdict → Outcome Unit
  | .goesOn => .failed (.outOfTries limit test)
  | .stops => .done ()
  | .returns value => .failed (.returning value)
  | .lost => .exhausted

/-- A failure lets a loop go on unless it is the signal of an early return. -/
def Failure.verdict (cause : Failure) : Verdict :=
  match cause.returned? with
  | some value => .returns value
  | none => .goesOn

namespace LoopItem

/-- The text that is evaluated. -/
def text (test : String) : LoopItem → String
  | .test _ => test
  | .operation _ text => text

/-- Only a test that is false stops a loop: one that is no truth value counts as true. -/
def verdict : LoopItem → Outcome Value → Verdict
  | .test _, .done (.bool false) => .stops
  | _, .done _ => .goesOn
  | _, .failed cause => cause.verdict
  | _, .exhausted => .lost

/-- The item is a test. -/
def isTest : LoopItem → Bool
  | .test _ => true
  | .operation _ _ => false

/-- The item is the operation of a text. -/
def isOperation (text : String) : LoopItem → Bool
  | .test _ => false
  | .operation _ other => other == text

/-- What the loop does for one evaluation: it makes it, reports it and tells whether to go on. -/
def run (lang : Language) (n : NodeId) (test : String) : LoopItem → Action Bool
  | .test tries => n.whileTest lang test tries
  | .operation tries text => do
      n.whileOperation lang tries text
      pure true

end LoopItem

namespace NodeId

variable (lang : Language) (n : NodeId) (test : String)

/-- The verdict of the evaluation of an item in a world. -/
def verdict (item : LoopItem) (w : World) : Verdict :=
  item.verdict (n.perform lang (item.text test) w).1

/-- The world after the evaluation of an item and its report. -/
def after (item : LoopItem) (w : World) : World := (item.run lang n test w).2

/-- The evaluations of the rest of a loop after a number of tries, with at most `left` more. -/
def scheduleFrom (operations : List String) : (left tries : Nat) → List LoopItem
  | 0, tries => [.test tries]
  | left + 1, tries =>
      .test tries ::
        (operations.map (LoopItem.operation (tries + 1)) ++
          scheduleFrom operations left (tries + 1))

/-- The evaluations of a loop, in order, as long as all of them let it go on. -/
def schedule (operations : List String) (limit : Nat) : List LoopItem :=
  scheduleFrom operations limit 0

/-- The items are evaluated one after another, the first in `w`, and all of them let the loop go on;
`w'` is the world after the last. -/
inductive GoesThrough : List LoopItem → World → World → Prop
  | nil (w : World) : GoesThrough [] w w
  | cons (item : LoopItem) (rest : List LoopItem) (w w' : World)
      (goesOn : n.verdict lang test item w = .goesOn)
      (through : GoesThrough rest (n.after lang test item w) w') :
      GoesThrough (item :: rest) w w'

/-- The loop that starts in `w` comes to the evaluation of the item in the world `w'`. -/
def Reaches (operations : List String) (limit : Nat) (w : World) (item : LoopItem)
    (w' : World) : Prop :=
  ∃ before rest, schedule operations limit = before ++ item :: rest ∧
    n.GoesThrough lang test before w w'

/-- Evaluates items in order until one of them tells to stop. -/
def walk : List LoopItem → Action Bool
  | [] => pure true
  | item :: rest => do
      if ← item.run lang n test then walk rest else pure false

end NodeId

/-! ## One evaluation -/

namespace World

/-- The worlds differ at most in events that were added to the trace. -/
def Noted (w w' : World) : Prop := ∃ events, w' = { w with trace := events ++ w.trace }

theorem Noted.refl (w : World) : w.Noted w := ⟨[], rfl⟩

end World

theorem Action.snd_bind_pure {α β : Type} (a : Action α) (value : β) (w : World) :
    ((a >>= fun _ => pure value) w).2 = (a w).2 := by
  rw [bind_apply]
  rcases a w with ⟨found | cause | _, w₁⟩ <;> rfl

namespace NodeId

variable {lang : Language} {n : NodeId} {test : String}

theorem notify_eq (n : NodeId) (kind : TraceKind) (message : String) (w : World) :
    ∃ w', w.Noted w' ∧ n.notify kind message w = (.done (), w') := by
  by_cases h : (w.cell n).engined
  · refine ⟨w.record kind (w.path n) message, ⟨[_], rfl⟩, ?_⟩
    show (Outcome.done (), ite _ _ _) = _
    rw [if_pos h]
  · refine ⟨w, World.Noted.refl w, ?_⟩
    show (Outcome.done (), ite _ _ _) = _
    rw [if_neg h]

/-- Passing over a failure raises an early return without its layer and reports any other. -/
theorem skip_eq (n : NodeId) (kind : TraceKind) (what : String) (cause : Failure) (w : World) :
    ∃ w', w.Noted w' ∧
      (n.skip kind what cause >>= fun _ => pure true) w = (cause.verdict.outcome, w') := by
  rw [Failure.verdict, skip, Failure.signal?]
  cases cause.returned? with
  | some value => exact ⟨w, World.Noted.refl w, rfl⟩
  | none =>
      obtain ⟨w', hnoted, hnotify⟩ :=
        notify_eq n kind ("whileDo: " ++ what ++ "; " ++ failureReport w cause) w
      refine ⟨w', hnoted, ?_⟩
      simp only [Option.map_none]
      rw [Action.bind_assoc, Action.inspect_bind_apply, Action.bind_apply, hnotify]
      rfl

theorem test_eq (w : World) :
    n.test lang test w =
      match n.perform lang test w with
      | (.done (.bool b), w') => (.done b, w')
      | (.done other, w') => (.failed (.typeMismatch test "boolean" other.typeName), w')
      | (.failed cause, w') => (.failed cause, w')
      | (.exhausted, w') => (.exhausted, w') := by
  rw [NodeId.test, Action.bind_apply]
  rcases n.perform lang test w with ⟨value | cause | _, w'⟩
  · cases value <;> rfl
  · rfl
  · rfl

/-- A loop that makes an evaluation does what its verdict says, and nothing but the evaluation and
the loop's own reports changes the world. -/
theorem run_eq (item : LoopItem) (w : World) :
    item.run lang n test w = ((n.verdict lang test item w).outcome, n.after lang test item w) ∧
      (n.perform lang (item.text test) w).2.Noted (n.after lang test item w) := by
  suffices h : ∃ w', (n.perform lang (item.text test) w).2.Noted w' ∧
      item.run lang n test w = ((n.verdict lang test item w).outcome, w') by
    obtain ⟨w', hnoted, hrun⟩ := h
    rw [after, hrun]
    exact ⟨rfl, hnoted⟩
  rw [verdict]
  -- A test is reported when it is false or not the first; an operation that is done never is.
  cases item with
  | test tries =>
      show ∃ w', (n.perform lang test w).2.Noted w' ∧ n.whileTest lang test tries w = _
      rw [whileTest, Action.bind_apply, Action.attempt, test_eq]
      show ∃ w', _ ∧ _ = ((LoopItem.verdict (.test tries) (n.perform lang test w).1).outcome, w')
      rcases n.perform lang test w with ⟨value | cause | _, w₁⟩
      · cases value with
        | bool b =>
            simp only
            by_cases hreport : (decide (tries > 0) || !b) = true
            · obtain ⟨w', hnoted, hnotify⟩ := notify_eq n .whileTest
                ("whileDo [" ++ toString tries ++ "]: test: '" ++ test ++ "' == " ++ boolText b) w₁
              refine ⟨w', hnoted, ?_⟩
              rw [if_pos hreport, Action.bind_apply, hnotify]
              cases b <;> rfl
            · refine ⟨w₁, World.Noted.refl w₁, ?_⟩
              rw [if_neg hreport]
              cases b <;> rfl
        | _ => exact skip_eq n _ _ _ w₁
      · exact skip_eq n _ _ cause w₁
      · exact ⟨w₁, World.Noted.refl w₁, rfl⟩
  | operation tries text =>
      show ∃ w', (n.perform lang text w).2.Noted w' ∧
        (n.whileOperation lang tries text >>= fun _ => pure true) w = _
      rw [whileOperation, Action.bind_assoc, Action.bind_apply, Action.attempt]
      show ∃ w', _ ∧ _ = ((LoopItem.verdict (.operation tries text)
        (n.perform lang text w).1).outcome, w')
      rcases n.perform lang text w with ⟨value | cause | _, w₁⟩
      · exact ⟨w₁, World.Noted.refl w₁, rfl⟩
      · exact skip_eq n _ _ cause w₁
      · exact ⟨w₁, World.Noted.refl w₁, rfl⟩

/-- After an evaluation that fails there is nothing but the loop passing over the failure. -/
theorem exists_after_eq_skip {item : LoopItem} {w x : World} {cause : Failure}
    (h : n.perform lang (item.text test) w = (.failed cause, x)) :
    ∃ kind what, n.after lang test item w = (n.skip kind what cause x).2 := by
  cases item with
  | test tries =>
      have hperform : n.perform lang test w = (.failed cause, x) := h
      refine ⟨.whileTest, "test [" ++ toString tries ++ ": " ++ test ++ "]", ?_⟩
      show (n.whileTest lang test tries w).2 = _
      rw [whileTest, Action.bind_apply, Action.attempt, test_eq, hperform]
      exact Action.snd_bind_pure _ _ _
  | operation tries text =>
      have hperform : n.perform lang text w = (.failed cause, x) := h
      refine ⟨.whileOperation, "operation [" ++ toString tries ++ ": " ++ text ++ "]", ?_⟩
      show ((n.whileOperation lang tries text >>= fun _ => pure true) w).2 = _
      rw [Action.snd_bind_pure, whileOperation, Action.bind_apply, Action.attempt, hperform]

/-! ## The schedule -/

theorem walk_append (items others : List LoopItem) :
    walk lang n test (items ++ others) =
      (do if ← walk lang n test items then walk lang n test others else pure false) := by
  induction items with
  | nil => rfl
  | cons item rest ih =>
      show (item.run lang n test >>= _) = _
      rw [walk, Action.bind_assoc]
      congr 1
      funext goesOn
      cases goesOn with
      | true => exact ih
      | false => rfl

theorem walk_operations (operations : List String) (tries : Nat) :
    walk lang n test (operations.map (LoopItem.operation tries)) =
      (do operations.forM (n.whileOperation lang tries); pure true) := by
  induction operations with
  | nil => rfl
  | cons text rest ih =>
      rw [List.map_cons, walk, ih, LoopItem.run, Action.bind_assoc]
      show _ = ((n.whileOperation lang tries text >>= fun _ =>
        rest.forM (n.whileOperation lang tries)) >>= fun _ => pure true)
      rw [Action.bind_assoc]
      rfl

/-- A loop is a walk through its schedule, and runs out of tries when nothing ends the walk. -/
theorem whileFrom_eq_walk (operations : List String) (left tries : Nat) :
    n.whileFrom lang test operations left tries =
      (do
        if ← walk lang n test (scheduleFrom operations left tries) then
          Action.fail (.outOfTries (tries + left) test)
        else pure ()) := by
  induction left generalizing tries with
  | zero =>
      rw [whileFrom, scheduleFrom, walk, Action.bind_assoc]
      congr 1
      funext goesOn
      cases goesOn <;> rfl
  | succ left ih =>
      rw [whileFrom, scheduleFrom, walk, Action.bind_assoc]
      congr 1
      funext goesOn
      cases goesOn with
      | false => rfl
      | true =>
          show (operations.forM (n.whileOperation lang (tries + 1)) >>= fun _ =>
              n.whileFrom lang test operations left (tries + 1)) = _
          -- The operations of this round, and then the rounds that are left.
          rw [if_pos rfl, walk_append, walk_operations, ih, Action.bind_assoc, Action.bind_assoc]
          have hcount : tries + 1 + left = tries + (left + 1) := by omega
          rw [hcount]
          rfl

/-- As long as every evaluation lets it go on, a walk is at the next item in the world after the
last one. -/
theorem walk_of_goesThrough {items : List LoopItem} {w w' : World}
    (h : n.GoesThrough lang test items w w') (others : List LoopItem) :
    walk lang n test (items ++ others) w = walk lang n test others w' := by
  induction h with
  | nil w => rfl
  | cons item rest w w' goesOn through ih =>
      rw [List.cons_append, walk, Action.bind_apply, (run_eq item w).1, goesOn]
      exact ih

/-- The first item that does not let a walk go on ends it. -/
theorem walk_of_stop {before rest : List LoopItem} {item : LoopItem} {w w' : World}
    (h : n.GoesThrough lang test before w w') (hstop : n.verdict lang test item w' ≠ .goesOn) :
    walk lang n test (before ++ item :: rest) w =
      ((n.verdict lang test item w').outcome, n.after lang test item w') := by
  rw [walk_of_goesThrough h, walk, Action.bind_apply, (run_eq item w').1]
  -- Any verdict but the first ends the walk, whatever items are left.
  generalize n.verdict lang test item w' = verdict at hstop ⊢
  cases verdict with
  | goesOn => exact absurd rfl hstop
  | stops => rfl
  | returns value => rfl
  | lost => rfl

/-- A walk goes through all of its items or comes to one that ends it. -/
theorem goesThrough_or_stop (lang : Language) (n : NodeId) (test : String)
    (items : List LoopItem) (w : World) :
    (∃ w', n.GoesThrough lang test items w w') ∨
      ∃ before item rest w', items = before ++ item :: rest ∧
        n.GoesThrough lang test before w w' ∧ n.verdict lang test item w' ≠ .goesOn := by
  induction items generalizing w with
  | nil => exact .inl ⟨w, .nil w⟩
  | cons item rest ih =>
      by_cases hgoes : n.verdict lang test item w = .goesOn
      · obtain ⟨w', hall⟩ | ⟨before, last, after, w', hitems, hbefore, hstop⟩ :=
          ih (n.after lang test item w)
        · exact .inl ⟨w', .cons item rest w w' hgoes hall⟩
        · refine .inr ⟨item :: before, last, after, w', ?_, ?_, hstop⟩
          · rw [hitems, List.cons_append]
          · exact .cons item before w w' hgoes hbefore
      · exact .inr ⟨[], item, rest, w, rfl, .nil w, hgoes⟩

theorem mem_scheduleFrom {operations : List String} {left tries k : Nat}
    (h : .test k ∈ scheduleFrom operations left tries) : k ≤ tries + left := by
  induction left generalizing tries with
  | zero =>
      rw [scheduleFrom, List.mem_singleton] at h
      injection h with hk
      omega
  | succ left ih =>
      rw [scheduleFrom, List.mem_cons, List.mem_append] at h
      obtain hhead | hoperation | hlater := h
      · injection hhead with hk
        omega
      · -- An operation is no test.
        obtain ⟨text, -, himpossible⟩ := List.mem_map.mp hoperation
        cases himpossible
      · have hk := ih hlater
        omega

theorem countP_isTest_scheduleFrom (operations : List String) (left tries : Nat) :
    (scheduleFrom operations left tries).countP LoopItem.isTest = left + 1 := by
  induction left generalizing tries with
  | zero => rfl
  | succ left ih =>
      have hnone : (operations.map (LoopItem.operation (tries + 1))).countP LoopItem.isTest =
          0 := by
        rw [List.countP_map, List.countP_eq_zero]
        intro text _ himpossible
        cases himpossible
      rw [scheduleFrom, List.countP_cons_of_pos rfl, List.countP_append, hnone, ih]
      omega

theorem countP_isOperation_scheduleFrom (operations : List String) (left tries : Nat)
    (text : String) :
    (scheduleFrom operations left tries).countP (LoopItem.isOperation text) =
      left * operations.count text := by
  induction left generalizing tries with
  | zero => rw [Nat.zero_mul]; rfl
  | succ left ih =>
      have hround : (operations.map (LoopItem.operation (tries + 1))).countP
          (LoopItem.isOperation text) = operations.count text := by
        rw [List.countP_map]
        rfl
      rw [scheduleFrom, List.countP_cons_of_neg Bool.false_ne_true, List.countP_append, hround, ih,
        Nat.succ_mul, Nat.add_comm]

/-! ## The loop -/

theorem Reaches.mem {operations : List String} {limit : Nat} {w w' : World} {item : LoopItem}
    (h : n.Reaches lang test operations limit w item w') : item ∈ schedule operations limit := by
  obtain ⟨before, rest, hschedule, -⟩ := h
  rw [hschedule]
  exact List.mem_append_right _ List.mem_cons_self

theorem verdict_eq_stops_iff {item : LoopItem} {w : World} :
    n.verdict lang test item w = .stops ↔
      (∃ k, item = .test k) ∧ (n.perform lang test w).1 = .done (.bool false) := by
  cases item with
  | test k =>
      show LoopItem.verdict (.test k) (n.perform lang test w).1 = .stops ↔ _
      rcases (n.perform lang test w).1 with value | cause | _
      · rcases value with _ | (_ | _) | _ | _ | _ | _ | _ | _ | _ | _ <;> simp [LoopItem.verdict]
      · cases hreturned : cause.returned? <;> simp [LoopItem.verdict, Failure.verdict, hreturned]
      · simp [LoopItem.verdict]
  | operation k text =>
      rw [verdict]
      rcases (n.perform lang (LoopItem.text test (.operation k text)) w).1 with value | cause | _
      · simp [LoopItem.verdict]
      · cases hreturned : cause.returned? <;> simp [LoopItem.verdict, Failure.verdict, hreturned]
      · simp [LoopItem.verdict]

theorem verdict_of_failed {item : LoopItem} {w : World} {cause : Failure}
    (h : (n.perform lang (item.text test) w).1 = .failed cause) :
    n.verdict lang test item w = cause.verdict := by
  rw [verdict, h]
  cases item <;> rfl

theorem verdict_of_done {item : LoopItem} {w : World} {value : Value}
    (h : (n.perform lang (item.text test) w).1 = .done value) :
    n.verdict lang test item w = .goesOn ∨ n.verdict lang test item w = .stops := by
  rw [verdict, h]
  cases item with
  | test k =>
      rcases value with _ | (_ | _) | _ | _ | _ | _ | _ | _ | _ | _ <;> simp [LoopItem.verdict]
  | operation k text => exact .inl rfl

theorem verdict_eq_returns_iff {item : LoopItem} {w : World} {value : Value} :
    n.verdict lang test item w = .returns value ↔
      ∃ cause, (n.perform lang (item.text test) w).1 = .failed cause ∧
        cause.returned? = some value := by
  cases hend : (n.perform lang (item.text test) w).1 with
  | done found =>
      obtain hverdict | hverdict := verdict_of_done hend
      · simp [hverdict]
      · simp [hverdict]
  | failed cause =>
      rw [verdict_of_failed hend, Failure.verdict]
      cases hreturned : cause.returned? <;> simp [hreturned]
  | exhausted =>
      rw [verdict, hend]
      cases item <;> simp [LoopItem.verdict]

theorem verdict_eq_lost_iff {item : LoopItem} {w : World} :
    n.verdict lang test item w = .lost ↔ (n.perform lang (item.text test) w).1 = .exhausted := by
  cases hend : (n.perform lang (item.text test) w).1 with
  | done found =>
      obtain hverdict | hverdict := verdict_of_done hend
      · simp [hverdict]
      · simp [hverdict]
  | failed cause =>
      rw [verdict_of_failed hend, Failure.verdict]
      cases cause.returned? <;> simp
  | exhausted =>
      rw [verdict, hend]
      cases item <;> simp [LoopItem.verdict]

variable {operations : List String} {limit : Nat} {w : World}

theorem whileDo_of_goesThrough {w' : World}
    (h : n.GoesThrough lang test (schedule operations limit) w w') :
    n.whileDo lang test operations limit w = (.failed (.outOfTries limit test), w') := by
  have hwalk := walk_of_goesThrough h []
  rw [List.append_nil] at hwalk
  rw [whileDo, whileFrom_eq_walk, Action.bind_apply, ← schedule, hwalk, Nat.zero_add]
  rfl

theorem whileDo_of_reaches {item : LoopItem} {w' : World}
    (h : n.Reaches lang test operations limit w item w')
    (hstop : n.verdict lang test item w' ≠ .goesOn) :
    n.whileDo lang test operations limit w =
      ((n.verdict lang test item w').ending limit test, n.after lang test item w') := by
  obtain ⟨before, rest, hschedule, hbefore⟩ := h
  rw [whileDo, whileFrom_eq_walk, Action.bind_apply, ← schedule, hschedule,
    walk_of_stop hbefore hstop]
  generalize n.verdict lang test item w' = verdict at hstop ⊢
  cases verdict with
  | goesOn => exact absurd rfl hstop
  | stops => rfl
  | returns value => rfl
  | lost => rfl

/-- Every run of a loop goes through its whole schedule or ends at one of its items. -/
theorem whileDo_eq_iff {outcome : Outcome Unit} {w' : World} :
    n.whileDo lang test operations limit w = (outcome, w') ↔
      (outcome = .failed (.outOfTries limit test) ∧
        n.GoesThrough lang test (schedule operations limit) w w') ∨
      ∃ item w₁, n.Reaches lang test operations limit w item w₁ ∧
        n.verdict lang test item w₁ ≠ .goesOn ∧
        outcome = (n.verdict lang test item w₁).ending limit test ∧
        w' = n.after lang test item w₁ := by
  constructor
  · intro hrun
    obtain ⟨w₁, hall⟩ | ⟨before, item, rest, w₁, hschedule, hbefore, hstop⟩ :=
      goesThrough_or_stop lang n test (schedule operations limit) w
    · rw [whileDo_of_goesThrough hall] at hrun
      injection hrun with houtcome hworld
      subst hworld
      exact .inl ⟨houtcome.symm, hall⟩
    · have hreach : n.Reaches lang test operations limit w item w₁ :=
        ⟨before, rest, hschedule, hbefore⟩
      rw [whileDo_of_reaches hreach hstop] at hrun
      injection hrun with houtcome hworld
      exact .inr ⟨item, w₁, hreach, hstop, houtcome.symm, hworld.symm⟩
  · rintro (⟨rfl, hall⟩ | ⟨item, w₁, hreach, hstop, rfl, rfl⟩)
    · exact whileDo_of_goesThrough hall
    · exact whileDo_of_reaches hreach hstop

theorem whileDo_eq_done_iff {w' : World} :
    n.whileDo lang test operations limit w = (.done (), w') ↔
      ∃ k ≤ limit, ∃ w₁, n.Reaches lang test operations limit w (.test k) w₁ ∧
        (n.perform lang test w₁).1 = .done (.bool false) ∧
        w' = n.after lang test (.test k) w₁ := by
  rw [whileDo_eq_iff]
  constructor
  · rintro (⟨himpossible, -⟩ | ⟨item, w₁, hreach, hstop, hend, hworld⟩)
    · cases himpossible
    · -- Only a test that is false makes the end of the loop a success.
      cases hverdict : n.verdict lang test item w₁ with
      | stops =>
          obtain ⟨⟨k, rfl⟩, hfalse⟩ := verdict_eq_stops_iff.mp hverdict
          have hk := mem_scheduleFrom hreach.mem
          exact ⟨k, by omega, w₁, hreach, hfalse, hworld⟩
      | goesOn => exact absurd hverdict hstop
      | returns value => rw [hverdict] at hend; cases hend
      | lost => rw [hverdict] at hend; cases hend
  · rintro ⟨k, -, w₁, hreach, hfalse, hworld⟩
    have hverdict : n.verdict lang test (.test k) w₁ = .stops :=
      verdict_eq_stops_iff.mpr ⟨⟨k, rfl⟩, hfalse⟩
    refine .inr ⟨.test k, w₁, hreach, ?_, ?_, hworld⟩
    · rw [hverdict]
      exact Verdict.noConfusion
    · rw [hverdict]
      rfl

theorem whileDo_eq_failed_iff {cause : Failure} {w' : World} :
    n.whileDo lang test operations limit w = (.failed cause, w') ↔
      (cause = .outOfTries limit test ∧
        n.GoesThrough lang test (schedule operations limit) w w') ∨
      ∃ item w₁ raised value, n.Reaches lang test operations limit w item w₁ ∧
        (n.perform lang (item.text test) w₁).1 = .failed raised ∧
        raised.returned? = some value ∧ cause = .returning value ∧
        w' = n.after lang test item w₁ := by
  rw [whileDo_eq_iff]
  constructor
  · rintro (⟨hcause, hall⟩ | ⟨item, w₁, hreach, hstop, hend, hworld⟩)
    · injection hcause with hcause
      exact .inl ⟨hcause, hall⟩
    · -- Apart from the tries, only an early return makes it a failure.
      cases hverdict : n.verdict lang test item w₁ with
      | returns value =>
          obtain ⟨raised, hraised, hvalue⟩ := verdict_eq_returns_iff.mp hverdict
          rw [hverdict] at hend
          injection hend with hcause
          exact .inr ⟨item, w₁, raised, value, hreach, hraised, hvalue, hcause, hworld⟩
      | goesOn => exact absurd hverdict hstop
      | stops => rw [hverdict] at hend; cases hend
      | lost => rw [hverdict] at hend; cases hend
  · rintro (⟨rfl, hall⟩ | ⟨item, w₁, raised, value, hreach, hraised, hvalue, rfl, hworld⟩)
    · exact .inl ⟨rfl, hall⟩
    · have hverdict : n.verdict lang test item w₁ = .returns value :=
        verdict_eq_returns_iff.mpr ⟨raised, hraised, hvalue⟩
      refine .inr ⟨item, w₁, hreach, ?_, ?_, hworld⟩
      · rw [hverdict]
        exact Verdict.noConfusion
      · rw [hverdict]
        rfl

theorem whileDo_eq_exhausted_iff {w' : World} :
    n.whileDo lang test operations limit w = (.exhausted, w') ↔
      ∃ item w₁, n.Reaches lang test operations limit w item w₁ ∧
        (n.perform lang (item.text test) w₁).1 = .exhausted ∧
        w' = n.after lang test item w₁ := by
  rw [whileDo_eq_iff]
  constructor
  · rintro (⟨himpossible, -⟩ | ⟨item, w₁, hreach, hstop, hend, hworld⟩)
    · cases himpossible
    · cases hverdict : n.verdict lang test item w₁ with
      | lost => exact ⟨item, w₁, hreach, verdict_eq_lost_iff.mp hverdict, hworld⟩
      | goesOn => exact absurd hverdict hstop
      | stops => rw [hverdict] at hend; cases hend
      | returns value => rw [hverdict] at hend; cases hend
  · rintro ⟨item, w₁, hreach, hlost, hworld⟩
    have hverdict := verdict_eq_lost_iff.mpr hlost
    refine .inr ⟨item, w₁, hreach, ?_, ?_, hworld⟩
    · rw [hverdict]
      exact Verdict.noConfusion
    · rw [hverdict]
      rfl

end NodeId

/-- A loop makes the evaluations of its schedule in order, each in the world that the one before
leaves, and the first that does not let it go on is the last. It is done when that one is a test
that is false; it fails with the value of an early return when that one raises it, and for lack of
tries when there is no such evaluation; and it comes back unless that evaluation does not. -/
theorem whileDo_classified (lang : Language) (n : NodeId) (test : String)
    (operations : List String) (limit : Nat) (w : World) :
    ((NodeId.schedule operations limit).countP LoopItem.isTest = limit + 1 ∧
      ∀ text, (NodeId.schedule operations limit).countP (LoopItem.isOperation text) =
        limit * operations.count text) ∧
    (∀ item w₁, (n.perform lang (item.text test) w₁).2.Noted (n.after lang test item w₁)) ∧
    (∀ w', n.whileDo lang test operations limit w = (.done (), w') ↔
      ∃ k ≤ limit, ∃ w₁, n.Reaches lang test operations limit w (.test k) w₁ ∧
        (n.perform lang test w₁).1 = .done (.bool false) ∧
        w' = n.after lang test (.test k) w₁) ∧
    (∀ cause w', n.whileDo lang test operations limit w = (.failed cause, w') ↔
      (cause = .outOfTries limit test ∧
        n.GoesThrough lang test (NodeId.schedule operations limit) w w') ∨
      ∃ item w₁ raised value, n.Reaches lang test operations limit w item w₁ ∧
        (n.perform lang (item.text test) w₁).1 = .failed raised ∧
        raised.returned? = some value ∧ cause = .returning value ∧
        w' = n.after lang test item w₁) ∧
    (∀ w', n.whileDo lang test operations limit w = (.exhausted, w') ↔
      ∃ item w₁, n.Reaches lang test operations limit w item w₁ ∧
        (n.perform lang (item.text test) w₁).1 = .exhausted ∧
        w' = n.after lang test item w₁) := by
  refine ⟨⟨?_, ?_⟩, ?_, ?_, ?_, ?_⟩
  · exact NodeId.countP_isTest_scheduleFrom operations limit 0
  · exact NodeId.countP_isOperation_scheduleFrom operations limit 0
  · exact fun item w₁ => (NodeId.run_eq item w₁).2
  · exact fun w' => NodeId.whileDo_eq_done_iff
  · exact fun cause w' => NodeId.whileDo_eq_failed_iff
  · exact fun w' => NodeId.whileDo_eq_exhausted_iff

end ScriptTree
