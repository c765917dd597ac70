import ScriptTree.Operation
import ScriptTree.Proofs.Run.Continues

/-!
# Orderly actions

An action is orderly when the world that it leaves continues the one it starts in, however it ends:
done, failed or out of fuel. The ways to combine actions keep that, and so do the loaders and the
operations of nodes, given a language whose templates and statements are orderly.
-/

set_option autoImplicit false

namespace ScriptTree

/-- The world that the action leaves continues the one that it starts in. -/
class Action.Orderly {α : Type} (a : Action α) : Prop where
  continues : ∀ w : World, w.Continues (a w).2

/-- The meaning of templates and of statements is orderly. -/
class Language.Orderly (lang : Language) : Prop where
  expand : ∀ c text, (lang.expand c text).Orderly
  evaluate : ∀ c statement, (lang.evaluate c statement).Orderly

namespace Action

variable {α β : Type}

instance orderly_pure (value : α) : Orderly (pure value : Action α) :=
  ⟨fun w => World.Continues.refl w⟩

/-- What holds of the first action, and of the second in every world that the first may leave, holds
of both. -/
theorem continues_bind {a : Action α} {next : α → Action β} {w : World}
    (ha : w.Continues (a w).2)
    (hnext : ∀ value w₁, w.Continues w₁ → w₁.Continues (next value w₁).2) :
    w.Continues ((a >>= next) w).2 := by
  rw [bind_apply]
  generalize a w = result at ha ⊢
  rcases result with ⟨value | cause | _, w₁⟩
  · exact ha.trans (hnext value w₁ ha)
  · exact ha
  · exact ha

theorem continues_attempt {a : Action α} {w : World} (ha : w.Continues (a w).2) :
    w.Continues (attempt a w).2 := by
  rw [attempt]
  generalize a w = result at ha ⊢
  rcases result with ⟨value | cause | _, w₁⟩ <;> exact ha

theorem continues_holding {a : Action α} {nodes : List NodeId} {w : World}
    (ha : ({ w with held := nodes ++ w.held } : World).Continues
      (a { w with held := nodes ++ w.held }).2) : w.Continues (holding nodes a w).2 :=
  ha.held_restored

instance orderly_bind (a : Action α) (next : α → Action β) [ha : Orderly a]
    [hnext : ∀ value, Orderly (next value)] : Orderly (a >>= next) :=
  ⟨fun w => continues_bind (ha.continues w) fun value w₁ _ => (hnext value).continues w₁⟩

theorem Orderly.bind {a : Action α} {next : α → Action β} (ha : Orderly a)
    (hnext : ∀ value, Orderly (next value)) : Orderly (a >>= next) :=
  orderly_bind a next

instance orderly_map (f : α → β) (a : Action α) [Orderly a] : Orderly (f <$> a) :=
  orderly_bind a fun value => pure (f value)

instance orderly_inspect (f : World → α) : Orderly (inspect f) :=
  ⟨fun w => World.Continues.refl w⟩

instance orderly_fail (cause : Failure) : Orderly (fail cause : Action α) :=
  ⟨fun w => World.Continues.refl w⟩

instance orderly_exhaust : Orderly (exhaust : Action α) :=
  ⟨fun w => World.Continues.refl w⟩

instance orderly_ofExcept (result : Except Failure α) : Orderly (ofExcept result) := by
  cases result with
  | ok value => exact orderly_pure value
  | error cause => exact orderly_fail cause

instance orderly_liftM (result : Except Failure α) : Orderly (liftM result : Action α) :=
  orderly_ofExcept result

instance orderly_fault (cause : Script.Fault) : Orderly (fail (.script cause) : Action α) :=
  orderly_fail _

instance orderly_ite (p : Prop) [Decidable p] (a b : Action α) [ha : Orderly a] [hb : Orderly b] :
    Orderly (if p then a else b) := by
  split
  · exact ha
  · exact hb

instance orderly_attempt (a : Action α) [ha : Orderly a] : Orderly (attempt a) :=
  ⟨fun w => continues_attempt (ha.continues w)⟩

instance orderly_mapFailure (f : Failure → Failure) (a : Action α) [ha : Orderly a] :
    Orderly (mapFailure f a) := by
  refine ⟨fun w => ?_⟩
  have h := ha.continues w
  rw [mapFailure]
  generalize a w = result at h ⊢
  rcases result with ⟨value | cause | _, w₁⟩ <;> exact h

instance orderly_holding (nodes : List NodeId) (a : Action α) [ha : Orderly a] :
    Orderly (holding nodes a) :=
  ⟨fun _ => continues_holding (ha.continues _)⟩

instance orderly_forM (f : α → Action PUnit) [hf : ∀ x, Orderly (f x)] (xs : List α) :
    Orderly (xs.forM f) := by
  induction xs with
  | nil => exact orderly_pure _
  | cons x rest ih => exact orderly_bind (f x) fun _ => rest.forM f

theorem orderly_change (f : World → World) (hf : ∀ w : World, w.Continues (f w)) :
    Orderly (change f) :=
  ⟨hf⟩

theorem orderly_update (f : World → α × World) (hf : ∀ w : World, w.Continues (f w).2) :
    Orderly (update f) :=
  ⟨hf⟩

/-- An expansion is counted during the action and no longer after it. -/
theorem orderly_within_expansion (a : Action α) [ha : Orderly a] :
    Orderly (within (fun w => { w with expansions := w.expansions + 1 })
      (fun w => { w with expansions := w.expansions - 1 }) a) :=
  ⟨fun w => (ha.continues { w with expansions := w.expansions + 1 }).expansions_restored⟩

/-- A file is under way during the action and no longer after it. -/
theorem orderly_within_file (path : String) (a : Action α) [ha : Orderly a] :
    Orderly (within (·.enterFile path) (·.leaveFile path) a) :=
  ⟨fun w => (ha.continues (w.enterFile path)).loading_restored⟩

end Action

/-! ## Contexts, reading and writing -/

section Reading

variable {α : Type}

instance Context.orderly_create (n : NodeId) : (Context.create n).Orderly := by
  refine ⟨fun w => ?_⟩
  have hframe : w.Continues (match w.frames with
      | frame :: _ => (frame, w)
      | [] => w.create false).2 := by
    split
    · exact World.Continues.refl w
    · exact World.continues_create w false
  have hstatic : ∀ w₁ : World, w₁.Continues
      (if (w₁.cell n).engined then (w₁.static, w₁) else w₁.create false).2 := by
    intro w₁
    split
    · exact World.Continues.refl w₁
    · exact World.continues_create w₁ false
  exact hframe.trans (hstatic _)

instance NodeId.orderly_within (n : NodeId) (a : Context → Action α) [∀ c, (a c).Orderly] :
    (n.within a).Orderly := by
  rw [NodeId.within]
  infer_instance

variable (lang : Language) [hl : lang.Orderly]

instance Language.orderly_expand (c : Context) (text : String) : (lang.expand c text).Orderly :=
  hl.expand c text

instance Language.orderly_evaluate (c : Context) (statement : String) :
    (lang.evaluate c statement).Orderly :=
  hl.evaluate c statement

instance Language.orderly_evaluateAll (c : Context) (statements : List String) (last : Value) :
    (lang.evaluateAll c statements last).Orderly := by
  induction statements generalizing last with
  | nil => exact Action.orderly_pure last
  | cons statement rest ih =>
      rw [Language.evaluateAll]
      infer_instance

instance NodeId.orderly_expand (n : NodeId) (text : String) : (n.expand lang text).Orderly := by
  rw [NodeId.expand]
  infer_instance

instance NodeId.orderly_eval (n : NodeId) (text : String) : (n.eval lang text).Orderly := by
  rw [NodeId.eval]
  infer_instance

instance NodeId.orderly_readValue (n : NodeId) (value : Value) :
    (n.readValue lang value).Orderly := by
  unfold NodeId.readValue
  split <;> infer_instance

instance NodeId.orderly_get (n : NodeId) (key : String) : (n.get lang key).Orderly := by
  rw [NodeId.get]
  refine Action.Orderly.bind inferInstance ?_
  rintro (_ | value) <;> infer_instance

instance NodeId.orderly_getText (n : NodeId) (key : String) : (n.getText lang key).Orderly := by
  rw [NodeId.getText]
  refine Action.Orderly.bind inferInstance ?_
  rintro (_ | value) <;> infer_instance

instance NodeId.orderly_resolve (n : NodeId) (key : String) : (n.resolve lang key).Orderly := by
  rw [NodeId.resolve]
  refine Action.Orderly.bind inferInstance ?_
  rintro (_ | holder) <;> infer_instance

instance NodeId.orderly_getItem (n : NodeId) (path : String) : (n.getItem lang path).Orderly := by
  rw [NodeId.getItem]
  refine Action.Orderly.bind inferInstance ?_
  rintro (_ | _ | _ | _ | _ | _ | _ | _ | m | _) <;> infer_instance

instance NodeId.orderly_findFrom (names : List String) (value : Value) :
    (NodeId.findFrom lang names value).Orderly := by
  induction names generalizing value with
  | nil => exact Action.orderly_pure _
  | cons name rest ih =>
      cases value with
      | node m =>
          refine Action.Orderly.bind inferInstance ?_
          rintro (_ | value)
          · exact Action.orderly_pure _
          · exact ih value
      | list items =>
          rw [NodeId.findFrom]
          split
          · split
            · exact ih _
            · infer_instance
          · infer_instance
      | _ => exact Action.orderly_pure _

instance NodeId.orderly_find (n : NodeId) (path : String) : (n.find lang path).Orderly :=
  NodeId.orderly_findFrom lang _ _

instance NodeId.orderly_delay (n : NodeId) : (n.delay lang).Orderly := by
  rw [NodeId.delay]
  infer_instance

instance Context.orderly_lookup (c : Context) (name : String) : (c.lookup lang name).Orderly := by
  rw [Context.lookup]
  split
  · infer_instance
  · refine Action.Orderly.bind inferInstance ?_
    rintro (_ | value)
    · refine Action.Orderly.bind inferInstance ?_
      rintro (_ | value) <;> infer_instance
    · infer_instance

end Reading

section Writing

instance NodeId.orderly_put (n : NodeId) (key : String) (value : Value) :
    (n.put key value).Orderly :=
  Action.orderly_update _ fun w => w.continues_put n key value

instance NodeId.orderly_set (n : NodeId) (key : String) (value : Value) :
    (n.set key value).Orderly :=
  Action.orderly_update _ fun w => w.continues_set n key value

instance NodeId.orderly_remove (n : NodeId) (key : String) : (n.remove key).Orderly :=
  Action.orderly_update _ fun w => w.continues_remove n key

instance NodeId.orderly_putStatic (n : NodeId) (key : String) (value : Value) :
    (n.putStatic key value).Orderly := by
  refine Action.orderly_update _ fun w => ?_
  split
  · exact w.continues_put _ key value
  · exact World.Continues.refl w

instance Context.orderly_store (c : Context) (target : NodeId) (key : String) (value : Value) :
    (c.store target key value).Orderly := by
  rw [Context.store]
  infer_instance

instance Context.orderly_assign (c : Context) (name : String) (value : Value) :
    (c.assign name value).Orderly :=
  NodeId.orderly_put _ _ _

end Writing

/-! ## Loading -/

section Loading

variable (lang : Language) [hl : lang.Orderly]

instance NodeId.orderly_directory (n : NodeId) : (n.directory lang).Orderly := by
  rw [NodeId.directory]
  refine Action.Orderly.bind inferInstance fun _ => ?_
  refine Action.Orderly.bind inferInstance ?_
  rintro (_ | ⟨m, s⟩) <;> infer_instance

instance NodeId.orderly_setDirectory (n : NodeId) (path : String) :
    (n.setDirectory lang path).Orderly := by
  rw [NodeId.setDirectory]
  infer_instance

instance NodeId.orderly_localFile (n : NodeId) (name : String) :
    (n.localFile lang name).Orderly := by
  rw [NodeId.localFile]
  infer_instance

instance Action.orderly_locateFile (path : String) : (Action.locateFile path).Orderly := by
  rw [Action.locateFile]
  refine Action.Orderly.bind inferInstance ?_
  rintro (fault | names) <;> infer_instance

instance Action.orderly_readFile (path : String) : (Action.readFile path).Orderly := by
  rw [Action.readFile]
  refine Action.Orderly.bind inferInstance ?_
  rintro (fault | text) <;> infer_instance

instance NodeId.orderly_loadFile (n : NodeId) (path : String)
    (take : String → String → Action Unit) [∀ full text, (take full text).Orderly] :
    (n.loadFile lang path take).Orderly := by
  rw [NodeId.loadFile]
  refine Action.Orderly.bind inferInstance fun names => ?_
  exact Action.orderly_within_file _ _

instance NodeId.orderly_loadProperties (n : NodeId)
    (read : String → Except Properties.Fault (List (String × String))) (path : String) :
    (n.loadProperties read path).Orderly := by
  rw [NodeId.loadProperties]
  refine Action.Orderly.bind inferInstance fun text => ?_
  split
  · exact Action.orderly_change _ fun w => w.continues_flatten n _
  · infer_instance

instance NodeId.orderly_eachFile (n : NodeId) (key : String) (take : String → Action Unit)
    [∀ path, (take path).Orderly] : (n.eachFile lang key take).Orderly := by
  rw [NodeId.eachFile]
  refine Action.Orderly.bind inferInstance ?_
  rintro (_ | text) <;> infer_instance

theorem World.continues_putMembers (n : NodeId) (members : List (String × Json)) (w : World) :
    w.Continues (World.putMembers n members w).2 := by
  fun_induction World.putMembers n members w with
  | case1 w => exact World.Continues.refl w
  | case2 key members rest w child w₁ hchild children w₂ hrest ih =>
      have hcreate := World.continues_create w (w.cell n).engined
      rw [hchild] at hcreate
      rw [hrest] at ih
      exact ((hcreate.trans (World.continues_setName w₁ child key)).trans
        (World.continues_put _ n key _)).trans ih
  | case3 key member rest w hobject value w₁ hbuild ih =>
      have hvalue := World.continues_build (some n) member w
      rw [hbuild] at hvalue
      exact (hvalue.trans (World.continues_put w₁ n key value)).trans ih

section Introspection

mutual

theorem NodeId.orderly_materialize {introspect : NodeId → Action Unit}
    (hi : ∀ n, (introspect n).Orderly) (n : NodeId) :
    ∀ json, (n.materialize introspect json).Orderly
  | .object members => by
      rw [NodeId.materialize]
      refine Action.Orderly.bind (Action.orderly_update _ (World.continues_putMembers n members)) ?_
      intro children
      exact Action.Orderly.bind (NodeId.orderly_materializeAll hi children members) fun _ => hi n
  | .null | .bool _ | .number _ | .text _ | .array _ => Action.orderly_pure _

theorem NodeId.orderly_materializeAll {introspect : NodeId → Action Unit}
    (hi : ∀ n, (introspect n).Orderly) :
    ∀ (children : List NodeId) (members : List (String × Json)),
      (NodeId.materializeAll introspect children members).Orderly
  | _, [] => Action.orderly_pure _
  | child :: others, (_, .object members) :: rest => by
      have hchild := NodeId.orderly_materialize hi child (.object members)
      have hrest := NodeId.orderly_materializeAll hi others rest
      exact Action.Orderly.bind (Action.orderly_holding (child :: others) _) fun _ => hrest
  | [], (_, .object _) :: rest => NodeId.orderly_materializeAll hi [] rest
  | children, (_, .null) :: rest => NodeId.orderly_materializeAll hi children rest
  | children, (_, .bool _) :: rest => NodeId.orderly_materializeAll hi children rest
  | children, (_, .number _) :: rest => NodeId.orderly_materializeAll hi children rest
  | children, (_, .text _) :: rest => NodeId.orderly_materializeAll hi children rest
  | children, (_, .array _) :: rest => NodeId.orderly_materializeAll hi children rest

end

variable (introspect : NodeId → Action Unit) [hi : ∀ n, (introspect n).Orderly]

instance NodeId.orderly_newChild (n : NodeId) (text : String) :
    (n.newChild introspect text).Orderly := by
  rw [NodeId.newChild]
  split
  · infer_instance
  · refine Action.Orderly.bind
      (Action.orderly_update _ fun w => w.continues_createUnder (some n)) fun item => ?_
    have hfill := NodeId.orderly_materialize hi item
    infer_instance
  · infer_instance

instance NodeId.orderly_mergeFrom (n item : NodeId) : (n.mergeFrom item).Orderly :=
  Action.orderly_change _ fun w => w.continues_merge n _

instance NodeId.orderly_appendJson (n : NodeId) (text : String) :
    (n.appendJson introspect text).Orderly := by
  rw [NodeId.appendJson]
  infer_instance

instance NodeId.orderly_insertJson (n : NodeId) (key text : String) :
    (n.insertJson introspect key text).Orderly := by
  rw [NodeId.insertJson]
  refine Action.Orderly.bind inferInstance fun item => ?_
  exact Action.orderly_change _ fun w =>
    (w.continues_setName item key).trans (World.continues_put _ n key _)

end Introspection

instance EntryKind.orderly_read (kind : EntryKind) (n : NodeId) (text : String) :
    (kind.read lang n text).Orderly := by
  unfold EntryKind.read
  dsimp only
  split
  · infer_instance
  · split
    · exact Action.orderly_update _ fun w => w.continues_build _ _
    · infer_instance
  · split <;> infer_instance

namespace Document.Setting

variable (s : Setting) [hs : ∀ n, (s.introspect n).Orderly] [hsl : s.lang.Orderly]

instance orderly_fault {α : Type} (detail : Detail) : (s.fault detail : Action α).Orderly :=
  Action.orderly_fail _

instance orderly_putDirectives (n : NodeId) (attributes : List (String × String)) :
    (putDirectives n attributes).Orderly :=
  Action.orderly_change _ fun w => w.continues_putAll n _

instance orderly_openInside (parent : NodeId) (name : String)
    (attributes : List (String × String)) : (s.openInside parent name attributes).Orderly := by
  rw [openInside]
  split
  · infer_instance
  · split
    · refine Action.Orderly.bind (Action.orderly_update _ fun w => ?_) fun child => inferInstance
      exact ((w.continues_create _).trans (World.continues_setName _ _ _)).trans
        (World.continues_put _ parent _ _)
    · split <;> infer_instance

instance orderly_openTag (stack : List Element) (tag : Xml.Tag) :
    (s.openTag stack tag).Orderly := by
  rw [openTag]
  split
  · infer_instance
  · split <;> infer_instance

instance orderly_close (stack : List Element) : (s.close stack).Orderly := by
  unfold close
  split <;> infer_instance

instance orderly_step (stack : List Element) (event : Xml.Event) :
    (s.step stack event).Orderly := by
  unfold step
  split <;> infer_instance

instance orderly_steps (stack : List Element) (events : List Xml.Event) :
    (s.steps stack events).Orderly := by
  induction events generalizing stack with
  | nil => exact Action.orderly_pure _
  | cons event rest ih =>
      rw [steps]
      infer_instance

instance orderly_read (text : String) : (s.read text).Orderly := by
  rw [read]
  infer_instance

end Document.Setting

instance Document.orderly_append (introspect : NodeId → Action Unit)
    [hi : ∀ n, (introspect n).Orderly] (n : NodeId) (source text : String) :
    (Document.append introspect lang n source text).Orderly := by
  unfold Document.append
  refine Action.Orderly.bind
    (Action.orderly_update _ fun w => w.continues_createUnder (some n)) fun item => ?_
  refine Action.Orderly.bind (@Action.orderly_holding _ _ _
    (@Document.Setting.orderly_read _ hi hl text)) fun _ => ?_
  exact Action.orderly_change _ fun w => w.continues_merge n _

instance NodeId.orderly_introspectWith (introspect : NodeId → Action Unit)
    [hi : ∀ n, (introspect n).Orderly] (n : NodeId) :
    (n.introspectWith introspect lang).Orderly := by
  rw [NodeId.introspectWith]
  refine Action.Orderly.bind inferInstance fun _ => ?_
  refine Action.Orderly.bind inferInstance fun _ => ?_
  refine Action.Orderly.bind inferInstance fun _ => ?_
  refine Action.Orderly.bind inferInstance fun _ => ?_
  refine Action.Orderly.bind inferInstance ?_
  rintro (_ | steps) <;> infer_instance

instance NodeId.orderly_introspectWithin (fuel : Nat) (n : NodeId) :
    (NodeId.introspectWithin lang fuel n).Orderly := by
  induction fuel generalizing n with
  | zero => exact Action.orderly_exhaust
  | succ fuel ih => exact NodeId.orderly_introspectWith lang _ n

instance NodeId.orderly_introspect (n : NodeId) : (NodeId.introspect lang n).Orderly := by
  rw [NodeId.introspect]
  infer_instance

end Loading

end ScriptTree
