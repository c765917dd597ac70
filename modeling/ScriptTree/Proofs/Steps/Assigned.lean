import ScriptTree.Proofs.Expr.Blanks
import ScriptTree.Proofs.Expr.Printing
import ScriptTree.Proofs.Place.Found
import ScriptTree.Proofs.Run.Stays
import ScriptTree.Proofs.Script.Separation
import ScriptTree.Proofs.Steps.EarlyReturn
import ScriptTree.Proofs.Steps.Whole

/-!
# Texts that a statement assigns

A text spelled as a quoted text on one line, with backslashes in front of backslashes and quotes
and with the escapes of line feeds, carriage returns and tabs (`Expr.quoted`), keeps its way through
a sequence of steps: the splitter takes the statement for one, no part of it is a placeholder unless
the text has one, and the lexer reads the text back. So a name that it is assigned to holds that
text afterwards (`NodeId.steps_assigned`).
-/

set_option autoImplicit false

namespace ScriptTree

namespace Expr

/-! ## Spelling -/

/-- The spelling of a character in a quoted text on one line. -/
def quotedChar (c : Char) : List Char :=
  if c = '\n' then ['\\', 'n']
  else if c = '\r' then ['\\', 'r']
  else if c = '\t' then ['\\', 't']
  else escape c

/-- A text as a quoted text on one line. -/
def quoted (t : String) : String := "'" ++ String.ofList (t.toList.flatMap quotedChar) ++ "'"

/-- A statement that assigns a text to a name. -/
def assignment (x t : String) : String := x ++ " = " ++ quoted t

/-- A spelled character is the character itself or an escape of it. -/
theorem quotedChar_cases (c : Char) :
    (quotedChar c = [c] ∧ c ≠ '\'' ∧ c ≠ '\\' ∧ c ≠ '\n') ∨
      ∃ e ∈ ['n', 'r', 't', '\'', '\\'], quotedChar c = ['\\', e] ∧ escaped e = c := by
  unfold quotedChar
  split
  · rename_i hc
    exact .inr ⟨'n', by decide, rfl, hc.symm⟩
  · rename_i hline
    split
    · rename_i hc
      exact .inr ⟨'r', by decide, rfl, hc.symm⟩
    · split
      · rename_i hc
        exact .inr ⟨'t', by decide, rfl, hc.symm⟩
      · unfold escape
        split
        · rename_i hc
          rcases hc with rfl | rfl
          · exact .inr ⟨'\'', by decide, rfl, rfl⟩
          · exact .inr ⟨'\\', by decide, rfl, rfl⟩
        · rename_i hc
          rw [not_or] at hc
          exact .inl ⟨rfl, hc.1, hc.2, hline⟩

/-- The lexer reads the text back. -/
theorem takeQuoted_quotedChar (s rest : List Char) :
    takeQuoted '\'' (s.flatMap quotedChar ++ '\'' :: rest) = some (s, rest) := by
  induction s with
  | nil => exact takeQuoted.eq_def _ _
  | cons c s ih =>
      rw [List.flatMap_cons, List.append_assoc]
      rcases quotedChar_cases c with ⟨hplain, hquote, hback, -⟩ | ⟨e, -, hescape, hc⟩
      · rw [hplain, List.singleton_append, takeQuoted.eq_def]
        simp [hquote, hback, ih]
      · rw [hescape]
        simp only [List.cons_append, List.nil_append, takeQuoted, beq_self_eq_true, if_true, ih]
        simp [hc]

theorem newline_notMem_quotedChar (c : Char) : '\n' ∉ quotedChar c := by
  rcases quotedChar_cases c with ⟨hplain, -, -, hline⟩ | ⟨e, he, hescape, -⟩
  · simpa [hplain] using hline.symm
  · rw [hescape]
    rintro (_ | ⟨_, _ | ⟨_, _ | _⟩⟩)
    exact absurd he (by decide)

/-- The spelling starts a placeholder only where the text does. -/
theorem opening_infix_flatMap_quotedChar {s : List Char}
    (h : Template.opening <:+: s.flatMap quotedChar) : Template.opening <:+: s := by
  have hopening : Template.opening = ['$', '\x7b'] := rfl
  induction s with
  | nil => exact h
  | cons c s ih =>
      rw [List.flatMap_cons, hopening] at h
      rcases Text.pair_infix_append h with hc | hs | ⟨hlast, hhead⟩
      · -- No spelling of one character has both.
        rcases quotedChar_cases c with ⟨hplain, -⟩ | ⟨e, he, hescape, -⟩
        · rw [hplain] at hc
          have hlength := hc.length_le
          simp at hlength
        · rw [hescape] at hc
          have hpair := hc.eq_of_length rfl
          simp at hpair
      · exact (ih hs).trans (List.suffix_cons c s).isInfix
      · rcases quotedChar_cases c with ⟨hplain, -⟩ | ⟨e, he, hescape, -⟩
        · rw [hplain] at hlast
          obtain rfl := Option.some.inj hlast
          cases s with
          | nil => cases hhead
          | cons d s =>
              rw [List.flatMap_cons] at hhead
              rcases quotedChar_cases d with ⟨hplain', -⟩ | ⟨e, he, hescape, -⟩
              · rw [hplain'] at hhead
                obtain rfl := Option.some.inj hhead
                exact ⟨[], s, rfl⟩
              · rw [hescape] at hhead
                cases hhead
        · rw [hescape] at hlast
          obtain rfl := Option.some.inj hlast
          exact absurd he (by decide)

/-! ## The statement -/

theorem toList_assignment (x t : String) :
    (assignment x t).toList =
      x.toList ++ ' ' :: '=' :: ' ' :: '\'' :: (t.toList.flatMap quotedChar ++ ['\'']) := by
  simp [assignment, quoted]

theorem tokenize_assignment {x : String} (hx : IsIdentifier x) (t : String) :
    tokenize (assignment x t) = .ok [.word x, .mark .assign, .text t, .finish] := by
  obtain ⟨first, others, hlist, hword⟩ := hx.wordlike
  obtain ⟨c, others', hspelling, hc, hfirst⟩ := readBack_word ⟨first, others, hlist, hword⟩
  obtain ⟨fuel, hfuel⟩ : ∃ fuel, (assignment x t).toList.length + 1 = fuel + 4 := by
    refine Nat.exists_eq_add_of_le' ?_
    rw [toList_assignment]
    simp only [List.length_append, List.length_cons]
    omega
  rw [tokenize, tokenizeChars, hfuel, toList_assignment,
    show x.toList = c :: others' from hspelling]
  have hblank : ∀ total fuel s, tokensFrom total fuel (' ' :: s) = tokensFrom total fuel s :=
    @tokensFrom_blanks [' '] (List.forall_mem_singleton.mpr (by decide))
  refine tokensFrom_cons hc (fun place => hfirst place _) ?_
  rw [hblank]
  refine tokensFrom_cons (by decide) (fun place => rfl) ?_
  rw [hblank]
  have hend : ∀ total, tokensFrom total (fuel + 1) [] = .ok [.finish] := fun _ => rfl
  refine tokensFrom_cons (by decide) (fun place => ?_) (hend _)
  rw [firstToken]
  simp [takeQuoted_quotedChar, Char.isDigit]

theorem parse_assignment {x : String} (hx : IsIdentifier x) (hreserved : x ∉ reserved)
    (t : String) :
    parse (assignment x t) = .ok (.assign (.name x) (.literal (.text t))) := by
  have hplace : Derives .choice [.word x] (.name x) := (Derives.name hreserved).loosen (by decide)
  have hvalue : Derives .assign [.text t] (.literal (.text t)) :=
    (Derives.literal (.text t)).loosest
  exact parse_of_tokenize (tokenize_assignment hx t) (hplace.assign rfl hvalue)

/-- A word has no brace. -/
theorem IsIdentifier.opening_not_infix {x : String} (hx : IsIdentifier x) :
    ¬ Template.opening <:+: x.toList := by
  intro h
  have hbrace : '\x7b' ∈ x.toList := h.subset (by decide)
  exact hx.notMem (by decide +kernel) (by decide +kernel) hbrace

/-- The statement starts a placeholder only where the text does. -/
theorem plain_assignment {x t : String} (hx : IsIdentifier x)
    (ht : Text.containsText Template.opening t.toList = false) :
    Text.containsText Template.opening (assignment x t).toList = false := by
  have hiff := Text.containsText_iff Template.opening
  rw [← Bool.not_eq_true, hiff] at ht ⊢
  have htext : (assignment x t).toList =
      x.toList ++ (" = '".toList ++ (t.toList.flatMap quotedChar ++ ['\''])) := by
    rw [toList_assignment]
    rfl
  rw [htext]
  intro h
  rcases Text.pair_infix_append h with h | h | ⟨-, hhead⟩
  · exact hx.opening_not_infix h
  · rcases Text.pair_infix_append h with h | h | ⟨hlast, -⟩
    · exact absurd (h.subset (show '$' ∈ Template.opening by decide)) (by decide)
    · rcases Text.pair_infix_append h with h | h | ⟨-, hhead⟩
      · exact ht (opening_infix_flatMap_quotedChar h)
      · exact absurd (h.subset (show '$' ∈ Template.opening by decide)) (by decide)
      · cases hhead
    · cases hlast
  · cases hhead

theorem newline_notMem_assignment {x : String} (hx : IsIdentifier x) (t : String) :
    '\n' ∉ (assignment x t).toList := by
  have hblank : Text.isBlank '\n' = true := by decide
  have hname : '\n' ∉ x.toList :=
    hx.notMem (startsWord_of_isBlank hblank) (continuesWord_of_isBlank hblank)
  have htext : '\n' ∉ t.toList.flatMap quotedChar := by
    rw [List.mem_flatMap]
    rintro ⟨c, -, hc⟩
    exact newline_notMem_quotedChar c hc
  rw [toList_assignment]
  simp [hname, htext]

theorem trim_assignment {x : String} (hx : IsIdentifier x) (t : String) :
    Text.trim (assignment x t).toList = (assignment x t).toList := by
  obtain ⟨first, others, hlist, hword⟩ := hx.wordlike
  refine Text.trim_eq_self (fun c hc => ?first) (fun c hc => ?last)
  case first =>
    rw [toList_assignment, hlist] at hc
    rw [← Option.some.inj hc]
    exact hword.dark
  case last =>
    have hconcat : (assignment x t).toList =
        x.toList ++ ' ' :: '=' :: ' ' :: '\'' :: t.toList.flatMap quotedChar ++ ['\''] := by
      simp [toList_assignment]
    rw [hconcat, List.getLast?_concat] at hc
    rw [← Option.some.inj hc]
    decide

/-- It is one statement, and no comment. -/
theorem statements_assignment {x : String} (hx : IsIdentifier x) (hreserved : x ∉ reserved)
    (t : String) :
    Script.statements (assignment x t) = [assignment x t] ∧
      Script.isComment (assignment x t).toList = false := by
  have hparse := parse_assignment hx hreserved t
  have hline := newline_notMem_assignment hx t
  have htrim := trim_assignment hx t
  constructor
  · exact Script.statements_of_line hparse hline htrim
  · have hkept := (Script.whole_of_parse hparse hline).kept
    rw [← Text.head?_trim, htrim] at hkept
    exact beq_eq_false_iff_ne.mpr hkept

end Expr

/-! ## The run -/

/-- A pushed frame is beside the nodes that are there. -/
theorem World.cell_pushFrame (w : World) (arguments : List (String × Value)) {m : NodeId}
    (hm : m.index < w.cells.size) : (w.pushFrame arguments).2.cell m = w.cell m := by
  have hne : (⟨w.cells.size⟩ : NodeId) ≠ m := by
    rintro rfl
    exact Nat.lt_irrefl _ hm
  have hseeded : ∀ a : World, (arguments.foldl (fun (w' : World) p => w'.set ⟨w.cells.size⟩ p.1 p.2)
      a).cell m = a.cell m := by
    induction arguments with
    | nil => exact fun _ => rfl
    | cons p rest ih => exact fun a => (ih _).trans (cell_modifyCell_of_ne a _ hne)
  exact (hseeded (w.create false).2).trans (cell_create_of_lt w false hm)

namespace NodeId

variable {fuel : Nat} {n : NodeId} {x t : String}

/-- An assignment to a name stores the value in the node of the context. -/
theorem eval_assign_name {lang : Language} {c : Context} (hbinding : x ∉ Context.bindings)
    (w : World) :
    (Expr.assign (.name x) (.literal (.text t))).eval lang c w =
      (.done (.text t), w.set c.this x (.text t)) := by
  rw [Expr.eval, Expr.eval]
  simp only [pure_bind, Context.binding_eq_none hbinding]
  rfl

/-- Evaluated as a whole the statement stores the text in the node. -/
theorem evalWhole_assignment (hx : Expr.IsIdentifier x) (hreserved : x ∉ Expr.reserved)
    (hbinding : x ∉ Context.bindings) {w : World} (hframes : w.frames ≠ [])
    (hevaluates : w.evaluatesOn n = true) :
    n.evalWhole (.ofFuel (fuel + 1)) (Expr.assignment x t) w =
      (.done (.text t), w.set n x (.text t)) := by
  have hcomment := (Expr.statements_assignment hx hreserved t).2
  obtain ⟨frame, rest, hrest⟩ := List.exists_cons_of_ne_nil hframes
  rw [World.evaluatesOn, Bool.and_eq_true] at hevaluates
  have hcreate : Context.create n w = (.done ⟨n, w.parent? n, frame, w.static⟩, w) := by
    simp only [Context.create, hrest, hevaluates.1]
    rfl
  have hevaluate : ∀ c, (Language.ofFuel (fuel + 1)).evaluate c (Expr.assignment x t) =
      (Expr.assign (.name x) (.literal (.text t))).eval (.ofFuel fuel) c := fun c =>
    Language.evaluate_of_parse fuel c (Expr.parse_assignment hx hreserved t)
  rw [evalWhole, Action.inspect_bind_apply, World.evaluatesOn, hevaluates.1, hevaluates.2]
  simp only [Bool.and_self, if_true, within, Action.bind_apply, hcreate, hcomment,
    Bool.false_eq_true, if_false, hevaluate, Action.holding, Action.mapFailure,
    eval_assign_name hbinding]
  rfl

/-- The statement is announced and evaluated. -/
theorem performWhole_assignment (hx : Expr.IsIdentifier x) (hreserved : x ∉ Expr.reserved)
    (hbinding : x ∉ Context.bindings) {w w' : World} {indent : String}
    (hnotify : n.notify .stepStart (indent ++ " -> " ++ Expr.assignment x t) w = (.done (), w'))
    (hheld : w'.held = w.held) (hframes : w'.frames ≠ [])
    (hevaluates : w'.evaluatesOn n = true) :
    n.performWhole (.ofFuel (fuel + 1)) indent [Expr.assignment x t] .null w =
      (.done (.text t), w'.set n x (.text t)) := by
  have hstatement : (do
        n.notify .stepStart (indent ++ " -> " ++ Expr.assignment x t)
        n.evalWhole (.ofFuel (fuel + 1)) (Expr.assignment x t) : Action Value) w =
      (.done (.text t), w'.set n x (.text t)) := by
    rw [Action.bind_apply, hnotify]
    exact evalWhole_assignment hx hreserved hbinding hframes hevaluates
  have hholding : Action.holding Value.null.nodes (do
        n.notify .stepStart (indent ++ " -> " ++ Expr.assignment x t)
        n.evalWhole (.ofFuel (fuel + 1)) (Expr.assignment x t)) w =
      (.done (.text t), w'.set n x (.text t)) :=
    Action.holding_of_hold hstatement hheld
  rw [performWhole, Action.bind_apply, hholding]
  rfl

/-- A sequence of the statement stores the text in the node. -/
theorem stepsWhole_assignment (hx : Expr.IsIdentifier x) (hreserved : x ∉ Expr.reserved)
    (hbinding : x ∉ Context.bindings) {w : World} (hevaluates : w.evaluatesOn n = true)
    (arguments : List (String × Value)) :
    ∃ w', n.stepsWhole (.ofFuel (fuel + 1)) (Expr.assignment x t) arguments w =
        (.done (.text t), w') ∧
      w'.cells = ((w.pushFrame arguments).2.set n x (.text t)).cells := by
  obtain ⟨w₀, h₀, hpush⟩ := w.exists_pushFrame_eq arguments
  generalize hopened : ({ w₀ with frames := ⟨w.cells.size⟩ :: w₀.frames } : World) = v at hpush
  obtain ⟨w₁, ⟨first, hfirst⟩, hstart⟩ := notify_eq n .stepsStart
    (startMessage (indentation v.frames.length) (v.path n)) v
  obtain ⟨w₂, ⟨second, hsecond⟩, hstep⟩ := notify_eq n .stepStart
    (indentation v.frames.length ++ " -> " ++ Expr.assignment x t) w₁
  have hcells : w₂.cells = v.cells := by rw [hsecond, hfirst]
  have hframes : w₂.frames ≠ [] := by
    rw [hsecond, hfirst, ← hopened]
    exact List.cons_ne_nil _ _
  have hevaluates₂ : w₂.evaluatesOn n = true := by
    have hengine : w₂.engine = w.engine := by
      rw [hsecond, hfirst, ← hopened]
      exact h₀.engine
    have hcell : w₂.cell n = w₀.cell n := by
      rw [hsecond, hfirst, ← hopened]
      rfl
    rw [World.evaluatesOn, Bool.and_eq_true] at hevaluates
    rw [World.evaluatesOn, hengine, hcell,
      h₀.engined n (World.lt_size_of_engined hevaluates.1), hevaluates.1, hevaluates.2]
    rfl
  have hrun : n.performWhole (.ofFuel (fuel + 1)) (indentation v.frames.length)
      [Expr.assignment x t] .null w₁ = (.done (.text t), w₂.set n x (.text t)) :=
    performWhole_assignment hx hreserved hbinding hstep (by rw [hsecond]) hframes hevaluates₂
  refine ⟨(w₂.set n x (.text t)).dropFrame ⟨w.cells.size⟩, ?_, ?_⟩
  · rw [stepsWhole, Action.withFrame, hpush]
    dsimp only
    rw [Action.inspect_bind_apply, Action.inspect_bind_apply, Action.bind_apply, hstart]
    simp only [Action.bind_apply, Action.attempt, (Expr.statements_assignment hx hreserved t).1,
      hrun]
    rfl
  · rw [hpush]
    simp only [World.dropFrame, World.set, World.modifyCell, hcells]

/-- A text without placeholders is read as it is stored. -/
theorem get_of_plain {w : World} (ht : Text.containsText Template.opening t.toList = false)
    (hstored : w.getRaw n x = some (.text t)) :
    (n.get (.ofFuel (fuel + 1)) x w).1 = .done (some (.text t)) := by
  have hexpand : (n.expand (.ofFuel (fuel + 1)) t w).1 = .done t := by
    have hplain : ∀ c, (Language.ofFuel (fuel + 1)).expand c t = pure t := by
      intro c
      show Template.expand (.ofFuel fuel) c t = pure t
      simp [Template.expand, ht]
    rw [expand, Action.inspect_bind_apply]
    split
    · simp only [within, hplain]
      rfl
    · rfl
  rcases hread : n.expand (.ofFuel (fuel + 1)) t w with ⟨outcome, w'⟩
  rw [hread] at hexpand
  obtain rfl : outcome = .done t := hexpand
  rw [get, Action.inspect_bind_apply, hstored]
  have hvalue : (some <$> (Value.text <$> n.expand (.ofFuel (fuel + 1)) t)) w =
      (.done (some (.text t)), w') := Action.map_done (Action.map_done hread)
  exact congrArg Prod.fst hvalue

/-- Assigning a text in a script: let `x` be a word that is neither one of the words of the language
nor a reserved name, and `t` a text without placeholders. On a node that evaluates scripts, the
sequence of the statement `x = '...'`, which spells `t` on one line, gives `t`, stores `t` under `x`
in the node, changes no other entry, and `x` reads as `t` on the node from then on. -/
theorem steps_assigned (hx : Expr.IsIdentifier x) (hreserved : x ∉ Expr.reserved)
    (hbinding : x ∉ Context.bindings)
    (ht : Text.containsText Template.opening t.toList = false) {w : World}
    (hevaluates : w.evaluatesOn n = true) (arguments : List (String × Value)) :
    ∃ w', n.steps (.ofFuel (fuel + 1)) (Expr.assignment x t) arguments w = (.done (.text t), w') ∧
      (w'.cell n).entries = (w.cell n).entries.insert x (.text t) ∧
      (∀ m : NodeId, m ≠ n → m.index < w.cells.size →
        (w'.cell m).entries = (w.cell m).entries) ∧
      ∀ fuel', (n.get (.ofFuel (fuel' + 1)) x w').1 = .done (some (.text t)) := by
  obtain ⟨w', hsteps, hcells⟩ := stepsWhole_assignment (t := t) hx hreserved hbinding hevaluates
    arguments
  have hcell : ∀ m, w'.cell m = ((w.pushFrame arguments).2.set n x (.text t)).cell m := fun m => by
    rw [World.cell, hcells, World.cell]
  have hlt : n.index < w.cells.size := by
    rw [World.evaluatesOn, Bool.and_eq_true] at hevaluates
    exact World.lt_size_of_engined hevaluates.1
  have hsize : w.cells.size ≤ (w.pushFrame arguments).2.cells.size := by
    obtain ⟨w₀, h₀, hpush⟩ := w.exists_pushFrame_eq arguments
    rw [hpush]
    exact h₀.size
  have hentries : (w'.cell n).entries = (w.cell n).entries.insert x (.text t) := by
    rw [hcell, World.set, World.cell_modifyCell_self _ _ (by omega), World.cell_pushFrame w _ hlt]
  refine ⟨w', ?_, hentries, fun m hm hmlt => ?_, fun fuel' => get_of_plain ht ?_⟩
  · rw [steps_eq_stepsWhole (Expr.plain_assignment hx ht)]
    exact hsteps
  · rw [hcell, World.set, World.cell_modifyCell_of_ne _ _ hm.symm, World.cell_pushFrame w _ hmlt]
  · rw [World.getRaw, hentries, Entries.get?_insert]
    simp

/-- Separators, quotes, brackets, a backslash, a line feed, a tab and half a placeholder. -/
theorem steps_assigned_special :
    ∃ w', (⟨1⟩ : NodeId).steps (.ofFuel 1) "_x1 = ';#\\'\\\\([$\\n\\t \x7b'" []
        (.single ⟨true, true, 0⟩) = (.done (.text ";#'\\([$\n\t \x7b"), w') ∧
      (w'.cell ⟨1⟩).entries = [("_x1", .text ";#'\\([$\n\t \x7b")] ∧
      ((⟨1⟩ : NodeId).get (.ofFuel 1) "_x1" w').1 =
        .done (some (.text ";#'\\([$\n\t \x7b")) := by
  have hx : Expr.IsIdentifier "_x1" := by
    refine ⟨'_', ['x', '1'], rfl, by decide, fun c hc => ?_⟩
    simp only [List.mem_cons, List.not_mem_nil, or_false] at hc
    rcases hc with rfl | rfl <;> decide
  obtain ⟨w', hsteps, hentries, -, hget⟩ := @steps_assigned 0 ⟨1⟩ "_x1"
    ";#'\\([$\n\t \x7b" hx (by decide) (by decide) (by decide) (.single ⟨true, true, 0⟩) rfl []
  have htext : Expr.assignment "_x1" ";#'\\([$\n\t \x7b" = "_x1 = ';#\\'\\\\([$\\n\\t \x7b'" := by
    decide +kernel
  rw [htext] at hsteps
  exact ⟨w', hsteps, hentries, hget 0⟩

end NodeId

end ScriptTree
