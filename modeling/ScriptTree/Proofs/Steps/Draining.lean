import ScriptTree.Proofs.Place.Update
import ScriptTree.Proofs.Steps.Assigned
import ScriptTree.Proofs.Value.Equality
import ScriptTree.Proofs.World.Keeps

/-!
# Loops that drain a list

A loop removes the first item of a list while its size is above zero. The test changes no entry and
the operation changes the one with the list, so each try takes one item (`World.Drains`): the loop
leaves the items that it has no tries for (`whileDo_drains`). Both are evaluated in worlds that have
more blank nodes than the one before and hold more nodes (`World.Keeps`), where names stay found.

A node does not keep its parent alive, but an item of the list may. So what the removal lets go may
be a node on the way from the loop up to the list (`whileDo_detached`).
-/

set_option autoImplicit false

namespace ScriptTree

namespace Expr

/-! ## The statements -/

/-- The test that a list is not empty. -/
def sizeTest (l : String) : String := l ++ ".size() > 0"

/-- The statement that removes the first item of a list. -/
def removeFirst (l : String) : String := l ++ ".remove( " ++ l ++ "[0] )"

/-- The expression of the test. -/
def sizeAboveZero (l : String) : Expr :=
  .binary .gt (.send (.name l) "size" []) (.literal (.number (.ofNat 0)))

/-- The expression of the first item. -/
def firstItem (l : String) : Expr := .index (.name l) (.literal (.number (.ofNat 0)))

variable {l : String}

theorem tokenize_sizeTest (hl : IsIdentifier l) :
    tokenize (sizeTest l) = .ok [.word l, .mark .dot, .word "size", .mark .openParen,
      .mark .closeParen, .mark .gt, .int 0, .finish] := by
  obtain ⟨first, others, hlist, hword⟩ := hl.wordlike
  have hspelling : (sizeTest l).toList = first :: (others ++ ".size() > 0".toList) := by
    simp [sizeTest, hlist]
  obtain ⟨fuel, hfuel⟩ : ∃ fuel, (sizeTest l).toList.length + 1 = fuel + 8 := by
    refine Nat.exists_eq_add_of_le' ?_
    rw [hspelling]
    simp only [List.length_append, List.length_cons]
    simp
  rw [tokenize, tokenizeChars, hfuel, hspelling]
  refine tokensFrom_cons hword.dark (firstToken_word hlist hword ?_) ?_
  · rintro c ⟨⟩
    decide +kernel
  · rfl

theorem tokenize_removeFirst (hl : IsIdentifier l) :
    tokenize (removeFirst l) = .ok [.word l, .mark .dot, .word "remove", .mark .openParen,
      .word l, .mark .openBracket, .int 0, .mark .closeBracket, .mark .closeParen, .finish] := by
  obtain ⟨first, others, hlist, hword⟩ := hl.wordlike
  have hspelling : (removeFirst l).toList = first :: (others ++ '.' :: 'r' :: ("emove".toList ++
      '(' :: ' ' :: first :: (others ++ "[0] )".toList))) := by
    simp [removeFirst, hlist]
  obtain ⟨fuel, hfuel⟩ : ∃ fuel, (removeFirst l).toList.length + 1 = fuel + 10 := by
    refine Nat.exists_eq_add_of_le' ?_
    rw [hspelling]
    simp only [List.length_append, List.length_cons]
    simp
    omega
  have hblank : ∀ total fuel s, tokensFrom total fuel (' ' :: s) = tokensFrom total fuel s :=
    @tokensFrom_blanks [' '] (List.forall_mem_singleton.mpr (by decide))
  rw [tokenize, tokenizeChars, hfuel, hspelling]
  refine tokensFrom_cons hword.dark (firstToken_word hlist hword ?_) ?_
  · rintro c ⟨⟩
    decide +kernel
  refine tokensFrom_cons (by decide) (fun place => rfl) ?_
  refine tokensFrom_cons (t := .word "remove") (by decide) (fun place => rfl) ?_
  refine tokensFrom_cons (by decide) (fun place => rfl) ?_
  rw [hblank]
  refine tokensFrom_cons hword.dark (firstToken_word hlist hword ?_) ?_
  · rintro c ⟨⟩
    decide +kernel
  · rfl

theorem parse_sizeTest (hl : IsIdentifier l) (hreserved : l ∉ reserved) :
    parse (sizeTest l) = .ok (sizeAboveZero l) := by
  have hname : Derives .access [.word l] (.name l) := (Derives.name hreserved).loosen (by decide)
  have hsize : Derives .access [.word l, .mark .dot, .word "size", .mark .openParen,
      .mark .closeParen] (.send (.name l) "size" []) :=
    Derives.send hname (.word "size") .none
  have hzero : Derives .sum [.int 0] (.literal (.number (.ofNat 0))) :=
    (Derives.literal (.int 0)).loosen (by decide)
  have hgt : Derives .order ([.word l, .mark .dot, .word "size", .mark .openParen,
      .mark .closeParen] ++ .mark .gt :: [.int 0]) (sizeAboveZero l) :=
    .join .gt rfl (hsize.loosen (by decide)) hzero
  exact parse_of_tokenize (tokenize_sizeTest hl) hgt.loosest

theorem parse_removeFirst (hl : IsIdentifier l) (hreserved : l ∉ reserved) :
    parse (removeFirst l) = .ok (.send (.name l) "remove" [firstItem l]) := by
  have hname : Derives .access [.word l] (.name l) := (Derives.name hreserved).loosen (by decide)
  have hzero : Derives .assign [.int 0] (.literal (.number (.ofNat 0))) :=
    (Derives.literal (.int 0)).loosest
  have hitem : Derives .access ([.word l] ++ .mark .openBracket :: ([.int 0] ++
      [.mark .closeBracket])) (firstItem l) := .index hname hzero
  have hremove : Derives .access ([.word l] ++ .mark .dot :: .word "remove" :: .mark .openParen ::
      ([.word l, .mark .openBracket, .int 0, .mark .closeBracket] ++ [.mark .closeParen]))
      (.send (.name l) "remove" [firstItem l]) :=
    .send hname (.word "remove") (.some (.last hitem.loosest))
  exact parse_of_tokenize (tokenize_removeFirst hl) hremove.loosest

/-- A statement on one line that starts with a word and ends with no blank is one statement, and
without a brace it has no placeholder. -/
theorem stands_of_identifier (hl : IsIdentifier l) {text : String} {e : Expr}
    (hparse : parse text = .ok e) (rest : List Char) (htext : text.toList = l.toList ++ rest)
    {last : Char} (hlast : rest.getLast? = some last) (hdark : Text.isBlank last = false)
    (hrest : ∀ c ∈ rest, c ∈ l.toList ∨ c ≠ '\n' ∧ c ≠ '\x7b') :
    Script.statements text = [text] ∧
      Text.containsText Template.opening text.toList = false := by
  have hline : '\n' ∉ l.toList := hl.notMem (by decide +kernel) (by decide +kernel)
  have hbrace : '\x7b' ∉ l.toList := hl.notMem (by decide +kernel) (by decide +kernel)
  have hchar : ∀ c ∈ text.toList, c ≠ '\n' ∧ c ≠ '\x7b' := by
    have hword : ∀ c ∈ l.toList, c ≠ '\n' ∧ c ≠ '\x7b' :=
      fun c hc => ⟨fun h => hline (h ▸ hc), fun h => hbrace (h ▸ hc)⟩
    intro c hc
    rw [htext] at hc
    rcases List.mem_append.mp hc with hc | hc
    · exact hword c hc
    · exact (hrest c hc).elim (hword c) id
  have htrim : Text.trim text.toList = text.toList := by
    obtain ⟨first, others, hlist, hword⟩ := hl.wordlike
    refine Text.trim_eq_self (fun c hc => ?_) (fun c hc => ?_)
    · rw [htext, hlist] at hc
      rw [← Option.some.inj hc]
      exact hword.dark
    · rw [htext, List.getLast?_append, hlast] at hc
      rw [← Option.some.inj hc]
      exact hdark
  constructor
  · exact Script.statements_of_line hparse (fun h => (hchar _ h).1 rfl) htrim
  · rw [← Bool.not_eq_true, Text.containsText_iff]
    intro hopening
    exact (hchar _ (hopening.subset (by decide))).2 rfl

theorem stands_sizeTest (hl : IsIdentifier l) (hreserved : l ∉ reserved) :
    Script.statements (sizeTest l) = [sizeTest l] ∧
      Text.containsText Template.opening (sizeTest l).toList = false := by
  have htext : (sizeTest l).toList = l.toList ++ ".size() > 0".toList := by
    simp [sizeTest]
  have hrest : ∀ c ∈ ".size() > 0".toList, c ≠ '\n' ∧ c ≠ '\x7b' := by simp
  exact stands_of_identifier hl (parse_sizeTest hl hreserved) _ htext (Eq.refl (some '0'))
    (by decide) fun c hc => .inr (hrest c hc)

theorem stands_removeFirst (hl : IsIdentifier l) (hreserved : l ∉ reserved) :
    Script.statements (removeFirst l) = [removeFirst l] ∧
      Text.containsText Template.opening (removeFirst l).toList = false := by
  have htext : (removeFirst l).toList =
      l.toList ++ (".remove( ".toList ++ (l.toList ++ "[0] )".toList)) := by
    simp [removeFirst]
  have hlast : (".remove( ".toList ++ (l.toList ++ "[0] )".toList)).getLast? = some ')' := by
    rw [List.getLast?_append, List.getLast?_append]
    rfl
  have hbefore : ∀ c ∈ ".remove( ".toList, c ≠ '\n' ∧ c ≠ '\x7b' := by simp
  have hbehind : ∀ c ∈ "[0] )".toList, c ≠ '\n' ∧ c ≠ '\x7b' := by simp
  refine stands_of_identifier hl (parse_removeFirst hl hreserved) _ htext hlast (by decide) ?_
  intro c hc
  rcases List.mem_append.mp hc with hc | hc
  · exact .inr (hbefore c hc)
  · exact (List.mem_append.mp hc).imp_right (hbehind c)

end Expr

/-! ## Contexts -/

theorem World.Keeps.of_noted {w w' : World} (hw : w.Noted w') : w.Keeps w' := by
  obtain ⟨events, rfl⟩ := hw
  exact { refl w with }

/-- The context of a node with an engine is made in a world that keeps all nodes. The local frame is
the one on top, or it is blank. -/
theorem Context.exists_create_keeps {n : NodeId} {w : World}
    (hengined : (w.cell n).engined = true) :
    ∃ c w', Context.create n w = (.done c, w') ∧ c.this = n ∧ w.Keeps w' ∧ w'.held = w.held ∧
      ∀ key, (∀ f ∈ w.frames.head?, w.containsKey f key = false) →
        w'.containsKey c.frame key = false := by
  cases hframes : w.frames with
  | nil =>
      have hkeeps := World.Keeps.create w
      have hstatic : ((w.create false).2.cell n).engined = true := by
        rw [hkeeps.cell]
        exact hengined
      have hcreate : Context.create n w = (.done ⟨n, w.parent? n, (w.create false).1, w.static⟩,
          (w.create false).2) := by
        simp only [create, hframes, hstatic, if_true]
        rfl
      refine ⟨_, _, hcreate, rfl, hkeeps, rfl, fun key _ => ?_⟩
      rw [World.containsKey, World.cell_create_self]
      rfl
  | cons frame rest =>
      have hcreate : Context.create n w = (.done ⟨n, w.parent? n, frame, w.static⟩, w) := by
        simp only [create, hframes, hengined, if_true]
      exact ⟨_, _, hcreate, rfl, .refl w, rfl, fun key hkey => hkey frame rfl⟩

namespace NodeId

variable {fuel : Nat} {n h : NodeId} {l s : String} {w w' x : World}

/-- Expanding a text without placeholders gives the text, and blank nodes besides. -/
theorem exists_expand_keeps (n : NodeId) (w : World)
    (hplain : Text.containsText Template.opening s.toList = false) :
    ∃ w', n.expand (.ofFuel (fuel + 1)) s w = (.done s, w') ∧ w.Keeps w' ∧ w'.held = w.held := by
  have hexpand : ∀ c, (Language.ofFuel (fuel + 1)).expand c s = pure s := by
    intro c
    show Template.expand (.ofFuel fuel) c s = pure s
    simp [Template.expand, hplain]
  rw [expand, Action.inspect_bind_apply]
  split
  · rename_i hexpands
    rw [World.expandsOn, Bool.and_eq_true] at hexpands
    obtain ⟨c, w₁, hcreate, -, hkeeps, hheld, -⟩ := Context.exists_create_keeps hexpands.1
    rw [within, Action.bind_done hcreate, hexpand]
    exact ⟨w₁, rfl, hkeeps, hheld⟩
  · exact ⟨w, rfl, .refl w, rfl⟩

/-- A statement is carried out in a context of the node, in a world that keeps all nodes. -/
theorem exists_perform {e : Expr} (hparse : Expr.parse s = .ok e)
    (hstatements : Script.statements s = [s])
    (hplain : Text.containsText Template.opening s.toList = false)
    (hevaluates : w.evaluatesOn n = true) :
    ∃ c v, c.this = n ∧ w.Keeps v ∧
      (∀ key, (∀ f ∈ w.frames.head?, w.containsKey f key = false) →
        v.containsKey c.frame key = false) ∧
      ∀ value x, e.eval (.ofFuel fuel) c v = (.done value, x) →
        n.perform (.ofFuel (fuel + 1)) s w = (.done value, x.reheld w.held) := by
  obtain ⟨w₁, hexpand, hkeeps, hheld⟩ := @exists_expand_keeps fuel s n w hplain
  have hstill : w₁.evaluatesOn n = true := hkeeps.evaluatesOn.trans hevaluates
  have hengined : (w₁.cell n).engined = true := by
    rw [World.evaluatesOn, Bool.and_eq_true] at hstill
    exact hstill.1
  obtain ⟨c, w₂, hcreate, hthis, hkeeps', hheld', hframe⟩ := Context.exists_create_keeps hengined
  refine ⟨c, w₂.hold c.nodes, hthis, (hkeeps.trans hkeeps').hold c.nodes, ?_, ?_⟩
  · intro key hkey
    refine hframe key fun f hf => ?_
    rw [hkeeps.frames] at hf
    rw [hkeeps.containsKey]
    exact hkey f hf
  · intro value x heval
    have hone : Action.mapFailure (.evaluation s) ((Language.ofFuel (fuel + 1)).evaluate c s)
        (w₂.hold c.nodes) = (.done value, x) := by
      rw [Action.mapFailure, Language.evaluate_of_parse fuel c hparse, heval]
    -- Nothing is held for the null before the statement.
    have hall : (Language.ofFuel (fuel + 1)).evaluateAll c [s] .null (w₂.hold c.nodes) =
        (.done value, x.reheld (w₂.hold c.nodes).held) := by
      rw [Language.evaluateAll]
      exact Action.bind_done (congrArg
        (fun r : Outcome Value × World => (r.1, r.2.reheld (w₂.hold c.nodes).held)) hone)
    have heval : n.eval (.ofFuel (fuel + 1)) s w₁ = (.done value, x.reheld w₁.held) := by
      rw [eval, Action.inspect_bind_apply, hstill, if_pos rfl, hstatements, within,
        Action.bind_done hcreate, ← hheld']
      exact congrArg (fun r : Outcome Value × World => (r.1, r.2.reheld w₂.held)) hall
    rw [perform, Action.bind_done hexpand, heval, hheld]

end NodeId

/-! ## The statements in a context -/

namespace Expr

/-- In the context the name of the list is that of the entry of `h`: no reserved name and no name of
the local frame, and the nearest one above the node. -/
structure Names (c : Context) (l : String) (h : NodeId) (w : World) : Prop where
  free : l ∉ Context.bindings
  frame : w.containsKey c.frame l = false
  nearest : w.holder? c.this l = some h

variable {lang : Language} {c : Context} {h : NodeId} {l : String} {w w' : World}
  {items : List Value}

theorem Names.keeps (hl : Names c l h w) (hw : w.Keeps w') : Names c l h w' where
  free := hl.free
  frame := (hw.containsKey c.frame l).trans hl.frame
  nearest := hw.holder? hl.nearest

theorem Names.holder? (hl : Names c l h w) : c.holder? w l = some h := by
  rw [Context.holder?, Context.binding_eq_none hl.free, hl.frame, hl.nearest]
  rfl

theorem Names.found (hl : Names c l h w) (hentry : w.getRaw h l = some (.list items)) :
    Found c w (.name l) (.list items) [(h, l)] [] :=
  .name hl.holder? hentry

/-- A natural number is above zero when its double is, which it is from one on. -/
theorem binary_gt_zero (w : World) (k : Nat) :
    w.binary .gt (Value.ofNat k) (Value.ofNat 0) = .ok (.bool (decide (0 < k))) := by
  obtain ⟨-, -, hgt, -, -⟩ := w.binary_integers
    (a := min (k : Int) 0xFFFFFFFFFFFFFFFF) (by omega) (b := 0) (by decide)
  have hzero : Double.nearest 0 = 0 := by decide +kernel
  have hiff : Double.nearest (min (k : Int) 0xFFFFFFFFFFFFFFFF) > Double.nearest 0 ↔ 0 < k := by
    rw [hzero]
    constructor
    · intro hpos
      by_contra hk
      obtain rfl := Nat.eq_zero_of_not_pos hk
      exact absurd hpos (by decide +kernel)
    · intro hk
      have hone : 1 ≤ Double.nearest (min (k : Int) 0xFFFFFFFFFFFFFFFF) :=
        Double.nearest_mono (a := 1) (by omega)
      omega
  rw [decide_eq_decide.mpr hiff] at hgt
  exact hgt

/-- The test tells whether the list has an item. -/
theorem eval_sizeAboveZero (hl : Names c l h w) (hentry : w.getRaw h l = some (.list items)) :
    (sizeAboveZero l).eval lang c w = (.done (.bool (decide (0 < items.length))), w) := by
  have hnone : evalAll lang c [] w = (.done [], w) := by
    rw [evalAll]
    rfl
  have hsize : (Expr.send (.name l) "size" []).eval lang c w =
      (.done (Value.ofNat items.length), w) :=
    (hl.found hentry).call hnone rfl rfl rfl
  rw [sizeAboveZero, eval, Action.bind_done hsize]
  refine Action.holding_of_hold ?_ rfl
  rw [Action.bind_done (eval_literal _ _)]
  refine Action.holding_of_hold ?_ rfl
  rw [Action.inspect_bind_apply]
  show Action.ofFaulty (World.binary _ .gt (Value.ofNat items.length) (Value.ofNat 0)) _ = _
  rw [binary_gt_zero]
  rfl

/-- A bare name stores a list in the entry where it is found. -/
theorem writeBack_name (hl : Names c l h w) (items : List Value) :
    writeBack lang c (.list items) (.name l) w = (.done (), w.set h l (.list items)) := by
  rw [writeBack, Action.inspect_bind_apply, hl.holder?]
  dsimp only
  rw [Action.bind_apply, store_list]
  rfl

/-- The first item goes, also when it equals others. -/
theorem eval_removeFirst {x : Value} {rest : List Value} (hl : Names c l h w)
    (hentry : w.getRaw h l = some (.list (x :: rest))) :
    (Expr.send (.name l) "remove" [firstItem l]).eval lang c w =
      (.done (.bool true), w.set h l (.list rest)) := by
  have hfirst : (firstItem l).eval lang c w = (.done x, w) :=
    eval_index_literal ((hl.found hentry).eval rfl) rfl
  have hnone : Action.holding x.nodes (evalAll lang c []) w = (.done [], w) := by
    rw [evalAll]
    rfl
  have harguments : evalAll lang c [firstItem l] w = (.done [x], w) := by
    rw [evalAll, Action.bind_done hfirst, Action.bind_done hnone]
    rfl
  -- An item equals itself, so the first one is the first that equals it.
  have hmethod : ∀ v : World, v.listMethod (x :: rest) ⟨"remove", [x]⟩ =
      .ok (.bool true, some rest) := by
    intro v
    have hself : v.position? (x :: rest) x = some 0 := by
      rw [World.position?, List.findIdx?_cons, v.same_equivalence.1 x]
      rfl
    have hvalue : Call.value ⟨"remove", [x]⟩ 0 = .ok x := rfl
    simp only [World.listMethod, hvalue, bind, Except.bind]
    rw [hself]
    rfl
  have hcalled : ∀ v : World, Context.callMethod lang (.list (x :: rest)) ⟨"remove", [x]⟩ v =
      (.done (.bool true, some rest), v) := by
    intro v
    rw [Context.callMethod, Action.inspect_bind_apply]
    show Action.ofExcept (v.listMethod (x :: rest) ⟨"remove", [x]⟩) v = _
    rw [hmethod]
    rfl
  -- The item and the list are held while the rest is stored.
  have hheld := (World.Keeps.refl w).hold (Value.allNodes [x])
  have hboth := hheld.hold (Value.list (x :: rest)).nodes
  rw [eval_send, Action.bind_done harguments]
  refine Action.holding_of_hold ?_ rfl
  rw [Action.bind_done (((hl.keeps hheld).found hentry).eval rfl)]
  refine Action.holding_of_hold ?_ rfl
  rw [Action.bind_done (hcalled _), storeChanged]
  have hstore : writeBack lang c (.list rest) (.name l) _ = (.done (), _) :=
    writeBack_name (hl.keeps hboth) rest
  exact Action.bind_done (congrArg (fun r : Outcome Unit × World => (r.1, r.2.reheld _)) hstore)

end Expr

/-! ## The loop -/

/-- A loop on the node that drains the list under a name has come to the items `xs`, and `ys` are
those at the end of it that may be left. The entry with the list is where the name is found as long
as `ys` are in it. -/
structure World.Drains (n h : NodeId) (l : String) (xs ys : List Value) (w : World) : Prop where
  evaluates : w.evaluatesOn n = true
  /-- The local frame, if there is one, does not have the name. -/
  frame : ∀ f ∈ w.frames.head?, w.containsKey f l = false
  entry : w.getRaw h l = some (.list xs)
  left : ys <:+ xs
  found : (w.set h l (.list ys)).holder? n l = some h

namespace World.Drains

variable {n h : NodeId} {l : String} {x : Value} {xs ys rest : List Value} {w w' : World}

theorem lt_size (hw : w.Drains n h l xs ys) : h.index < w.cells.size :=
  lt_size_of_getRaw hw.entry

/-- The name is found in the entry. -/
theorem holder? (hw : w.Drains n h l xs ys) : w.holder? n l = some h := by
  have hfound := holder?_set_of_subset hw.lt_size hw.left.subset hw.found
  rwa [set_of_getRaw hw.entry] at hfound

theorem names (hw : w.Drains n h l xs ys) (hfree : l ∉ Context.bindings) {c : Context} {v : World}
    (hthis : c.this = n) (hv : w.Keeps v)
    (hframe : ∀ key, (∀ f ∈ w.frames.head?, w.containsKey f key = false) →
      v.containsKey c.frame key = false) : Expr.Names c l h v where
  free := hfree
  frame := hframe l hw.frame
  nearest := hthis ▸ hv.holder? hw.holder?

theorem keeps (hw : w.Drains n h l xs ys) (hv : w.Keeps w') : w'.Drains n h l xs ys where
  evaluates := hv.evaluatesOn.trans hw.evaluates
  frame := by
    intro f hf
    rw [hv.frames] at hf
    rw [hv.containsKey]
    exact hw.frame f hf
  entry := (hv.getRaw h l).trans hw.entry
  left := hw.left
  found := (hv.set hw.lt_size _).holder? hw.found

/-- The first item is removed. -/
theorem removed (hw : w.Drains n h l (x :: rest) ys) (hleft : ys <:+ rest) :
    (w.set h l (.list rest)).Drains n h l rest ys := by
  have hrevised := @revised_set _ h l _ (.list rest) hw.entry
  refine ⟨?_, ?_, hrevised.after, hleft, ?_⟩
  · rw [evaluatesOn, hrevised.engined]
    exact hw.evaluates
  · intro f hf
    rw [hrevised.containsKey]
    exact hw.frame f hf
  · rw [set_set hw.lt_size]
    exact hw.found

end World.Drains

namespace NodeId

variable {n h : NodeId} {l : String} {x : Value} {xs ys rest : List Value} {w : World}

section Draining

variable (fuel : Nat) (hl : Expr.IsIdentifier l) (hreserved : l ∉ Expr.reserved)
  (hfree : l ∉ Context.bindings)
include hl hreserved hfree

/-- The test of the loop tells whether the list has an item, and changes no entry. -/
theorem exists_whileTest (hw : w.Drains n h l xs ys) (tries : Nat) :
    ∃ w', n.whileTest (.ofFuel (fuel + 1)) (Expr.sizeTest l) tries w =
      (.done (decide (0 < xs.length)), w') ∧ w.Keeps w' := by
  obtain ⟨hstatements, hplain⟩ := Expr.stands_sizeTest hl hreserved
  obtain ⟨c, v, hthis, hv, hframe, hperform⟩ := @exists_perform fuel n _ w _
    (Expr.parse_sizeTest hl hreserved) hstatements hplain hw.evaluates
  have hevaluated := hperform _ _ (Expr.eval_sizeAboveZero (hw.names hfree hthis hv hframe)
    ((hv.getRaw h l).trans hw.entry))
  have htest : n.test (.ofFuel (fuel + 1)) (Expr.sizeTest l) w =
      (.done (decide (0 < xs.length)), v.reheld w.held) := by
    rw [test, Action.bind_done hevaluated]
    rfl
  have hattempt : Action.attempt (n.test (.ofFuel (fuel + 1)) (Expr.sizeTest l)) w =
      (.done (.ok (decide (0 < xs.length))), v.reheld w.held) := by
    rw [Action.attempt, htest]
  have hkeeps : w.Keeps (v.reheld w.held) := hv.reheld rfl
  rw [whileTest, Action.bind_done hattempt]
  dsimp only
  split
  · -- The test is noted in the trace.
    obtain ⟨w', hnoted, hnotify⟩ := notify_eq n .whileTest _ (v.reheld w.held)
    rw [Action.bind_done hnotify]
    exact ⟨w', rfl, hkeeps.trans (.of_noted hnoted)⟩
  · exact ⟨_, rfl, hkeeps⟩

/-- The operation of the loop removes the first item, and changes no other entry. -/
theorem exists_whileOperation (hw : w.Drains n h l (x :: rest) ys) (tries : Nat) :
    ∃ w', n.whileOperation (.ofFuel (fuel + 1)) tries (Expr.removeFirst l) w = (.done (), w') ∧
      (w.set h l (.list rest)).Keeps w' := by
  obtain ⟨hstatements, hplain⟩ := Expr.stands_removeFirst hl hreserved
  obtain ⟨c, v, hthis, hv, hframe, hperform⟩ := @exists_perform fuel n _ w _
    (Expr.parse_removeFirst hl hreserved) hstatements hplain hw.evaluates
  have hevaluated := hperform _ _ (Expr.eval_removeFirst (hw.names hfree hthis hv hframe)
    ((hv.getRaw h l).trans hw.entry))
  refine ⟨(v.set h l (.list rest)).reheld w.held, ?_, (hv.set hw.lt_size _).reheld rfl⟩
  have hattempt : Action.attempt (n.perform (.ofFuel (fuel + 1)) (Expr.removeFirst l)) w =
      (.done (.ok (.bool true)), (v.set h l (.list rest)).reheld w.held) := by
    rw [Action.attempt, hevaluated]
  rw [whileOperation, Action.bind_done hattempt]
  rfl

/-- The rest of the loop leaves the items that it has no tries for: by induction on the tries, of
which each takes the first item. -/
theorem exists_whileFrom {left : Nat} (tries : Nat) (hw : w.Drains n h l xs (xs.drop left)) :
    ∃ w', n.whileFrom (.ofFuel (fuel + 1)) (Expr.sizeTest l) [Expr.removeFirst l] left tries w =
        (if xs.length ≤ left then .done ()
          else .failed (.outOfTries (tries + left) (Expr.sizeTest l)), w') ∧
      (w.set h l (.list (xs.drop left))).Keeps w' := by
  induction left generalizing tries xs w with
  | zero =>
      obtain ⟨w₁, htest, hkeeps⟩ := exists_whileTest fuel hl hreserved hfree hw tries
      rw [whileFrom, Action.bind_done htest, List.drop_zero, World.set_of_getRaw hw.entry]
      cases xs with
      | nil => exact ⟨w₁, rfl, hkeeps⟩
      | cons x rest => exact ⟨w₁, rfl, hkeeps⟩
  | succ left ih =>
      obtain ⟨w₁, htest, hkeeps⟩ := exists_whileTest fuel hl hreserved hfree hw tries
      rw [whileFrom, Action.bind_done htest]
      cases xs with
      | nil =>
          rw [List.drop_nil, World.set_of_getRaw hw.entry]
          exact ⟨w₁, rfl, hkeeps⟩
      | cons x rest =>
          have hw₁ := hw.keeps hkeeps
          obtain ⟨w₂, hoperation, hkeeps'⟩ :=
            exists_whileOperation fuel hl hreserved hfree hw₁ (tries + 1)
          have hw₂ := (hw₁.removed (List.drop_suffix left rest)).keeps hkeeps'
          obtain ⟨w', hrest, hlast⟩ := ih (tries + 1) hw₂
          have hoperations : [Expr.removeFirst l].forM
              (n.whileOperation (.ofFuel (fuel + 1)) (tries + 1)) w₁ = (.done (), w₂) :=
            Action.bind_done hoperation
          refine ⟨w', ?_, ?_⟩
          · -- The tries that are left are one less, and so are the items.
            have houtcome : (if (x :: rest).length ≤ left + 1 then (.done () : Outcome Unit)
                else .failed (.outOfTries (tries + (left + 1)) (Expr.sizeTest l))) =
                if rest.length ≤ left then .done ()
                else .failed (.outOfTries (tries + 1 + left) (Expr.sizeTest l)) := by
              rw [show tries + (left + 1) = tries + 1 + left by omega]
              exact if_congr Nat.succ_le_succ_iff rfl rfl
            rw [houtcome, ← hrest]
            exact Action.bind_done hoperations
          · have hset := (((hkeeps.set hw.lt_size (.list rest)).trans hkeeps').set ?_
              (.list (rest.drop left))).trans hlast
            · rwa [World.set_set hw.lt_size] at hset
            · rw [World.set, World.size_modifyCell]
              exact hw.lt_size

end Draining

end NodeId

/-- A loop that removes the first item of a list leaves the items that it has no tries for, and runs
out of tries if there are any. The name leads from the node to the entry with the list also when
only these items are in it, and then it does so from the start. -/
theorem whileDo_drains {l : String} (hl : Expr.IsIdentifier l) (hreserved : l ∉ Expr.reserved)
    (hfree : l ∉ Context.bindings) (fuel : Nat) (n h : NodeId) (items : List Value) (limit : Nat)
    (w : World) (hevaluates : w.evaluatesOn n = true)
    (hframe : ∀ f ∈ w.frames.head?, w.containsKey f l = false)
    (hentry : w.getRaw h l = some (.list items))
    (hfound : (w.set h l (.list (items.drop limit))).holder? n l = some h) :
    ∃ w', n.whileDo (.ofFuel (fuel + 1)) (Expr.sizeTest l) [Expr.removeFirst l] limit w =
        (if items.length ≤ limit then .done ()
          else .failed (.outOfTries limit (Expr.sizeTest l)), w') ∧
      w'.getRaw h l = some (.list (items.drop limit)) ∧
      ∀ m key, (m, key) ≠ (h, l) → w'.getRaw m key = w.getRaw m key := by
  have hw : w.Drains n h l items (items.drop limit) :=
    ⟨hevaluates, hframe, hentry, List.drop_suffix limit items, hfound⟩
  obtain ⟨w', hrun, hkeeps⟩ := NodeId.exists_whileFrom fuel hl hreserved hfree 0 hw
  rw [Nat.zero_add] at hrun
  have hrevised := @World.revised_set _ h l _ (.list (items.drop limit)) hentry
  refine ⟨w', hrun, ?_, ?_⟩
  · rw [hkeeps.getRaw]
    exact hrevised.after
  · intro m key hne
    rw [hkeeps.getRaw]
    exact hrevised.others m key hne

/-- The list of rows of the parent has one row more than the loop has tries. -/
theorem whileDo_drains_nested :
    ∃ w', NodeId.whileDo (.ofFuel 1) ⟨2⟩ "rows.size() > 0" ["rows.remove( rows[0] )"] 1
        World.nested = (.failed (.outOfTries 1 "rows.size() > 0"), w') ∧
      w'.getRaw ⟨1⟩ "rows" = some (.list [.list [Value.ofNat 3]]) ∧
      ∀ m key, (m, key) ≠ (⟨1⟩, "rows") → w'.getRaw m key = World.nested.getRaw m key := by
  have hrows : Expr.IsIdentifier "rows" := by
    refine ⟨'r', ['o', 'w', 's'], rfl, by decide, fun c hc => ?_⟩
    simp only [List.mem_cons, List.not_mem_nil, or_false] at hc
    rcases hc with rfl | rfl | rfl <;> decide
  exact whileDo_drains hrows (by decide) (by decide) 0 ⟨2⟩ ⟨1⟩
    ([[Value.ofNat 1, Value.ofNat 2], [Value.ofNat 3]].map .list) 1 World.nested (by decide)
    (fun f hf => by cases hf) rfl (by decide +kernel)

/-- The tries and the test of a loop that has run out of tries. -/
def Outcome.outOfTries? {α : Type} : Outcome α → Option (Nat × String)
  | .failed (.outOfTries tries test) => some (tries, test)
  | _ => none

theorem Outcome.eq_of_outOfTries? {α : Type} {outcome : Outcome α} {tries : Nat} {test : String}
    (h : outcome.outOfTries? = some (tries, test)) : outcome = .failed (.outOfTries tries test) := by
  unfold outOfTries? at h
  split at h
  · cases h
    rfl
  · cases h

/-- A world where node 1 has a list with node 2, whose node 3 is in use. Nothing else keeps node 2
alive. -/
def World.detached : World :=
  let w := ((World.initial ⟨false, true, 0⟩ ⟨.directory [], []⟩).create true).2
  let w := ((w.create true).2.create true).2.put ⟨2⟩ "k" (.node ⟨3⟩)
  let w := (w.put ⟨1⟩ "p" (.node ⟨2⟩)).put ⟨1⟩ "l" (.list [.node ⟨2⟩])
  (w.remove ⟨1⟩ "p").hold [⟨1⟩, ⟨3⟩]

/-- The list has one item and the loop has one try. The item is the node that leads to the list, so
without it the name is found nowhere, and a test that fails counts as true. -/
theorem whileDo_detached :
    World.detached.evaluatesOn ⟨3⟩ = true ∧ World.detached.frames = [] ∧
      World.detached.holder? ⟨3⟩ "l" = some ⟨1⟩ ∧
      World.detached.getRaw ⟨1⟩ "l" = some (.list [.node ⟨2⟩]) ∧
      (NodeId.whileDo (.ofFuel 1) ⟨3⟩ "l.size() > 0" ["l.remove( l[0] )"] 1 .detached).1 =
        .failed (.outOfTries 1 "l.size() > 0") := by
  refine ⟨by decide +kernel, rfl, by decide +kernel, rfl, ?_⟩
  apply Outcome.eq_of_outOfTries?
  decide +kernel

end ScriptTree
