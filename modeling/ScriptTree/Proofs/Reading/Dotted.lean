import ScriptTree.Proofs.Expr.Dotted
import ScriptTree.Proofs.Place.Found
import ScriptTree.Proofs.Reading.Indifferent
import ScriptTree.Proofs.Steps.EarlyReturn
import ScriptTree.Proofs.Steps.Whole

/-!
# Dotted paths, found and evaluated

A path of names can be followed in two ways: `NodeId.find` walks through what is stored, and an
evaluation takes the path for a chain of members. Both go through the same parts, except where a
member is no stored part: the length of a list or text, and the parts of a failure
(`World.Stored`). So to evaluate a path is to find it, in the context of the evaluation, with null
for nothing (`NodeId.eval_path`), and where all templates are calm both give the same from the same
world. A path with two positions in a row is found and not evaluated (`NodeId.eval_positions`).
-/

set_option autoImplicit false

namespace ScriptTree

/-! ## Readings do not fail -/

/-- The action may be done or give up, and fails in no world. -/
def Action.Unfailing {α : Type} (p : Action α) : Prop := ∀ w cause w', p w ≠ (.failed cause, w')

namespace Action

variable {α β : Type}

theorem Unfailing.pure (x : α) : Unfailing (Pure.pure x) := by
  rintro w cause w' ⟨⟩

theorem Unfailing.exhaust : Unfailing (Action.exhaust : Action α) := by
  rintro w cause w' ⟨⟩

theorem Unfailing.inspect (f : World → α) : Unfailing (Action.inspect f) := by
  rintro w cause w' ⟨⟩

theorem Unfailing.bind {p : Action α} {next : α → Action β} (hp : Unfailing p)
    (hnext : ∀ x, Unfailing (next x)) : Unfailing (p >>= next) := by
  intro w cause w' h
  rw [bind_apply] at h
  rcases hpw : p w with ⟨x | cause' | _, w₁⟩
  · rw [hpw] at h
    exact hnext x _ _ _ h
  · exact hp _ _ _ hpw
  · rw [hpw] at h
    cases h

theorem Unfailing.map {p : Action α} (hp : Unfailing p) (f : α → β) : Unfailing (f <$> p) :=
  hp.bind fun x => Unfailing.pure (f x)

theorem Unfailing.attempt (p : Action α) : Unfailing (Action.attempt p) := by
  intro w cause w' h
  rw [Action.attempt] at h
  rcases hp : p w with ⟨x | cause' | _, w₁⟩
  all_goals
    rw [hp] at h
    cases h

theorem Unfailing.holding {p : Action α} (hp : Unfailing p) (nodes : List NodeId) :
    Unfailing (Action.holding nodes p) := by
  intro w cause w' h
  have hinside : (p { w with held := nodes ++ w.held }).1 = .failed cause := congrArg Prod.fst h
  exact hp _ cause _ (Prod.ext hinside rfl)

theorem Unfailing.within {p : Action α} (hp : Unfailing p) (enter leave : World → World) :
    Unfailing (Action.within enter leave p) := by
  intro w cause w' h
  have hinside : (p (enter w)).1 = .failed cause := congrArg Prod.fst h
  exact hp _ cause _ (Prod.ext hinside rfl)

/-- There is no failure to reword. -/
theorem Unfailing.mapFailure {p : Action α} (hp : Unfailing p) (f : Failure → Failure) :
    Action.mapFailure f p = p := by
  funext w
  rw [Action.mapFailure]
  rcases hpw : p w with ⟨x | cause | _, w₁⟩
  · rfl
  · exact absurd hpw (hp _ _ _)
  · rfl

end Action

section Unfailing

theorem NodeId.within_unfailing {α : Type} {p : Context → Action α} (n : NodeId)
    (hbody : ∀ c, Action.Unfailing (p c)) : Action.Unfailing (n.within p) := by
  have hcreate : Action.Unfailing (Context.create n) := by
    intro w cause w' h
    rw [Context.create] at h
    cases congrArg Prod.fst h
  exact hcreate.bind fun c => (hbody c).holding c.nodes

/-- A placeholder whose expression fails stays as it is, and nothing else can fail. -/
theorem Template.expand_unfailing (lang : Language) (c : Context) (text : String) :
    Action.Unfailing (Template.expand lang c text) := by
  have hrender : ∀ body, Action.Unfailing (Template.render lang c body) := by
    intro body
    rw [Template.render]
    split
    · exact .pure _
    · refine .bind (.attempt _) fun result => ?_
      split
      · exact .pure _
      · exact .pure _
      · exact .holding (.inspect _) _
  have hall : ∀ pieces, Action.Unfailing (Template.renderAll lang c pieces) := by
    intro pieces
    induction pieces with
    | nil => exact .pure _
    | cons piece rest ih =>
        cases piece with
        | plain s => exact ih.bind fun _ => .pure _
        | hole body => exact (hrender body).bind fun _ => ih.bind fun _ => .pure _
  rw [Template.expand]
  split
  · exact .pure _
  · refine .bind (.inspect _) fun limit => ?_
    split
    · exact .pure _
    · exact .within ((hall _).bind fun _ => .pure _) _ _

theorem Language.expand_unfailing (fuel : Nat) (c : Context) (text : String) :
    Action.Unfailing ((Language.ofFuel fuel).expand c text) := by
  cases fuel with
  | zero => exact .exhaust
  | succ fuel => exact Template.expand_unfailing _ c text

variable {lang : Language} (hl : ∀ c text, Action.Unfailing (lang.expand c text))
include hl

theorem NodeId.get_unfailing (n : NodeId) (key : String) : Action.Unfailing (n.get lang key) := by
  refine .bind (.inspect _) fun found => ?_
  cases found with
  | none => exact .pure none
  | some value =>
      refine Action.Unfailing.map ?_ some
      unfold NodeId.readValue
      split
      · refine Action.Unfailing.map (.bind (.inspect _) fun expands => ?_) _
        split
        · exact n.within_unfailing fun c => hl c _
        · exact .pure _
      · exact .pure _

theorem NodeId.findFrom_unfailing (names : List String) (value : Value) :
    Action.Unfailing (NodeId.findFrom lang names value) := by
  induction names generalizing value with
  | nil => exact .pure _
  | cons name rest ih =>
      cases value with
      | node m =>
          refine ((m.get_unfailing hl name).holding _).bind fun found => ?_
          cases found with
          | none => exact .pure none
          | some value => exact ih value
      | list items =>
          simp only [NodeId.findFrom]
          split
          · split
            · exact ih _
            · exact .pure none
          · exact .pure none
      | _ => exact .pure none

end Unfailing

/-! ## Parts that are stored -/

/-- The name asks for a part that the value does not hold: a length, or a part of a failure. -/
def Value.Computes (name : String) : Value → Prop
  | .list _ => name = "length" ∨ name = "size"
  | .text _ => name = "length"
  | .failure _ => True
  | _ => False

/-- What is stored under a name: an entry of a node as it stands, or an item of a list. -/
def World.stored? (w : World) (name : String) : Value → Option Value
  | .node m => w.getRaw m name
  | .list items => (Value.text name).index?.bind fun i => items[i]?
  | _ => none

/-- On the way of the names from the value every part that is asked for is a stored one. -/
def World.Stored (w : World) : List String → Value → Prop
  | [], _ => True
  | name :: rest, value =>
      ¬ value.Computes name ∧ ∀ part, w.stored? name value = some part → w.Stored rest part

theorem World.Stored.congr {w u : World} (h : ∀ m key, u.getRaw m key = w.getRaw m key)
    {names : List String} {value : Value} (hstored : w.Stored names value) :
    u.Stored names value := by
  induction names generalizing value with
  | nil => trivial
  | cons name rest ih =>
      refine ⟨hstored.1, fun part hpart => ih (hstored.2 part ?_)⟩
      cases value with
      | node m => exact (h m name).symm.trans hpart
      | _ => exact hpart

/-! ## Going down names -/

/-- Nodes that are held do not count in the result. -/
theorem Action.fst_holding {α : Type} (nodes : List NodeId) (p : Action α) (w : World) :
    (Action.holding nodes p w).1 = (p (w.hold nodes)).1 := rfl

theorem Action.holding_congr {α : Type} {nodes : List NodeId} {p q : Action α} {w : World}
    (h : p (w.hold nodes) = q (w.hold nodes)) :
    Action.holding nodes p w = Action.holding nodes q w :=
  congrArg (fun r : Outcome α × World => (r.1, { r.2 with held := w.held })) h

/-- The part of a value that names lead to, each a member of the part before. -/
def Value.descend (lang : Language) : List String → Value → Action Value
  | [], value => pure value
  | name :: rest, value => do
      let part ← Action.holding value.nodes (value.member lang name)
      descend lang rest part

/-- A chain of members leads down their names. -/
theorem Expr.eval_along (lang : Language) (c : Context) (e : Expr) (segments : List Segment) :
    (along e segments).eval lang c =
      e.eval lang c >>= Value.descend lang (segments.map Segment.text) := by
  induction segments generalizing e with
  | nil => exact (Action.bind_pure _).symm
  | cons s segments ih =>
      have hmember : (Expr.member e s.text).eval lang c =
          e.eval lang c >>= fun value =>
            Action.holding value.nodes (value.member lang s.text) := by
        rw [Expr.eval]
      show (along (.member e s.text) segments).eval lang c = _
      rw [ih, hmember, Action.bind_assoc]
      rfl

/-- What a node gives for a key: nothing where it holds nothing, a text for a text, and any other
value as it is held, with the world as it was. -/
theorem NodeId.holding_get_eq_done {lang : Language} {m : NodeId} {key : String} {u u' : World}
    {found : Option Value} (h : Action.holding [m] (m.get lang key) u = (.done found, u')) :
    (u.getRaw m key = none ∧ found = none) ∨
      (∃ s t, u.getRaw m key = some (.text s) ∧ found = some (.text t)) ∨
      ∃ value, u.getRaw m key = some value ∧ found = some value ∧ u' = u := by
  cases hraw : u.getRaw m key with
  | none =>
      obtain ⟨v, hget⟩ := Action.holding_eq_done h
      rw [NodeId.get, Action.inspect_bind_apply,
        show (u.hold [m]).getRaw m key = none from hraw] at hget
      cases hget
      exact .inl ⟨rfl, rfl⟩
  | some value =>
      refine .inr ?_
      by_cases htext : value.isText = true
      · cases value with
        | text s =>
            obtain ⟨v, hget⟩ := Action.holding_eq_done h
            rw [NodeId.get, Action.inspect_bind_apply,
              show (u.hold [m]).getRaw m key = some (.text s) from hraw] at hget
            obtain ⟨x, hread, rfl⟩ := Action.map_eq_done hget
            obtain ⟨t, -, rfl⟩ := Action.map_eq_done hread
            exact .inl ⟨s, t, rfl, rfl⟩
        | _ => cases htext
      · have hget : m.get lang key (u.hold [m]) = (.done (some value), u.hold [m]) :=
          NodeId.get_of_getRaw hraw (Bool.eq_false_iff.mpr htext)
        rw [Action.holding_of_hold hget rfl] at h
        cases h
        exact .inr ⟨value, rfl, rfl, rfl⟩

namespace Value

variable {lang : Language}

theorem descend_null (names : List String) : descend lang names .null = pure .null := by
  induction names with
  | nil => rfl
  | cons name rest ih => exact ih

/-- No part of a text is stored, and its length is the only one that it has. -/
theorem descend_text {name : String} (h : ¬ (Value.text "").Computes name) (rest : List String)
    (s : String) : descend lang (name :: rest) (.text s) = pure .null := by
  have hmember : (Value.text s).member lang name = pure .null := by
    rw [Value.member, if_neg (show ¬ name = "length" from h)]
  rw [descend, hmember]
  exact descend_null rest

theorem descend_node (name : String) (rest : List String) (m : NodeId) :
    descend lang (name :: rest) (.node m) =
      Action.holding [m] (m.get lang name) >>= fun found =>
        descend lang rest (found.getD .null) := by
  have hmember : Action.holding [m] ((Value.node m).member lang name) =
      (·.getD .null) <$> Action.holding [m] (m.get lang name) := Action.holding_map _ _ _
  show (Action.holding [m] ((Value.node m).member lang name) >>= descend lang rest) = _
  rw [hmember]
  exact Action.bind_assoc _ _ _

/-- A list has its items and its length. -/
theorem descend_list {name : String} {items : List Value} (h : ¬ (Value.list items).Computes name)
    (rest : List String) :
    descend lang (name :: rest) (.list items) =
      descend lang rest (itemAt items (Value.text name).index?) := by
  have hmember : (Value.list items).member lang name =
      pure (itemAt items (Value.text name).index?) := by
    rw [Value.member, if_neg (show ¬ (name = "length" ∨ name = "size") from h)]
  rw [descend, hmember]
  rfl

theorem findFrom_list {name : String} (h : PlainKey name) (rest : List String)
    (items : List Value) :
    NodeId.findFrom lang (name :: rest) (.list items) =
      ((Value.text name).index?.bind fun i => items[i]?).elim (pure none)
        (NodeId.findFrom lang rest) := by
  rw [NodeId.findFrom, Value.index?, h.2.2]
  rcases Number.readUnsigned64 name.toList with _ | i
  · rfl
  · dsimp only [Option.bind_some]
    cases items[i.toNat]? <;> rfl

/-- Going down stored parts is finding them, with null for nothing. -/
theorem descend_eq_findFrom {names : List String} (hplain : ∀ name ∈ names, PlainKey name)
    {value : Value} {u : World} (h : u.Stored names value) :
    descend lang names value u = ((·.getD .null) <$> NodeId.findFrom lang names value) u := by
  induction names generalizing value u with
  | nil => rfl
  | cons name rest ih =>
      obtain ⟨hname, hrest⟩ := List.forall_mem_cons.mp hplain
      obtain ⟨hcomputes, hnext⟩ := h
      cases value with
      | node m =>
          rw [descend_node, NodeId.findFrom, map_bind]
          refine Action.bind_congr rfl fun found w₁ hget => ?_
          rcases NodeId.holding_get_eq_done hget with
            ⟨-, rfl⟩ | ⟨s, t, hraw, rfl⟩ | ⟨part, hraw, rfl, rfl⟩
          · exact congrFun (descend_null rest) w₁
          · -- The world may be another one now, and a text has no stored part.
            cases rest with
            | nil => rfl
            | cons name' rest =>
                exact congrFun (descend_text (hnext _ hraw).1 rest t) w₁
          · exact ih hrest (hnext _ hraw)
      | list items =>
          rw [descend_list hcomputes, findFrom_list hname, itemAt]
          cases hpart : (Value.text name).index?.bind fun i => items[i]? with
          | none => exact congrFun (descend_null rest) u
          | some part => exact ih hrest (hnext part hpart)
      | text s => exact congrFun (descend_text hcomputes rest s) u
      | failure cause => exact absurd trivial hcomputes
      | _ => exact congrFun (descend_null rest) u

end Value

/-! ## Evaluating paths -/

theorem Language.evaluateAll_singleton {lang : Language} [lang.Orderly] (c : Context) (s : String) :
    lang.evaluateAll c [s] .null = Action.mapFailure (.evaluation s) (lang.evaluate c s) := by
  show Action.holding [] _ >>= pure = _
  rw [Action.holding_nil, Action.bind_pure]

/-- Without a local frame the context of a node has a blank one. All other nodes that the context
holds are the node itself, blank ones, and such that are alive anyway. -/
theorem Context.create_frameless {n : NodeId} {w w₁ : World} {c : Context}
    (hframes : w.frames = []) (h : Context.create n w = (.done c, w₁)) :
    c.this = n ∧ w.Untouched w₁ ∧ w.cells.size ≤ c.frame.index ∧
      ∀ m ∈ c.nodes, m = n ∨ w.alive m = true ∨ w.cells.size ≤ m.index := by
  have hfresh : w.cells.size ≤ (w.create false).1.index := Nat.le_refl _
  have hcreated : w.Untouched (w.create false).2 := ⟨(World.Padded.refl w).create, rfl, rfl⟩
  have hparent : ∀ m ∈ (w.parent? n).toList, w.alive m = true := fun m hm =>
    (Option.filter_eq_some_iff.mp (Option.mem_toList.mp hm)).2
  simp only [Context.create, hframes] at h
  split at h
  · cases h
    refine ⟨rfl, hcreated, hfresh, fun m hm => ?_⟩
    simp only [Context.nodes, List.mem_cons] at hm
    rcases hm with hthis | rfl | rfl | hm
    · exact .inl hthis
    · exact .inr (.inr hfresh)
    · exact .inr (.inl (World.alive_of_mem_holders List.mem_cons_self))
    · exact .inr (.inl (hparent m hm))
  · cases h
    have hmore : (w.create false).2.Untouched ((w.create false).2.create false).2 :=
      ⟨(World.Padded.refl _).create, rfl, rfl⟩
    refine ⟨rfl, hcreated.trans hmore, hfresh, fun m hm => ?_⟩
    simp only [Context.nodes, List.mem_cons] at hm
    rcases hm with hthis | rfl | rfl | hm
    · exact .inl hthis
    · exact .inr (.inr hfresh)
    · exact .inr (.inr (Nat.le_trans hcreated.size (Nat.le_refl _)))
    · exact .inr (.inl (hparent m hm))

namespace NodeId

variable {n : NodeId} {w : World} {fuel : Nat}

/-- Where all that is stored is calm, finding has the same answer in a context of its own. -/
theorem find_within (hclosed : w.Closed) (hacyclic : ∀ m, ¬ w.Under m m) (hcalm : w.Calm)
    (hframes : w.frames = []) (hlt : n.index < w.cells.size) (halive : w.alive n = true)
    (hpos : 0 < fuel) (hfuel : Template.depthLimit < w.expansions + fuel) (p : String) :
    ∃ found, (n.find (.ofFuel fuel) p w).1 = .done found ∧
      ((n.within fun _ => n.find (.ofFuel fuel) p) w).1 = .done found := by
  obtain ⟨c, w₁, hcreate, -⟩ := Context.exists_create_eq n w
  obtain ⟨-, huntouched, -, hnodes⟩ := Context.create_frameless hframes hcreate
  have hsettled : w.Settled (.node n) := by
    intro m hm
    obtain rfl := List.mem_singleton.mp hm
    exact hlt
  -- First the blank nodes of the context come to the world, then what the context holds.
  have hshadows := findFrom_shadows
    (Language.shadows_ofFuel (w := w₁) hcalm hpos hpos hfuel hfuel) hcalm (pathNames p) hsettled
  rcases hshadows w w₁ (World.Shadow.start hclosed hacyclic huntouched) rfl with
    ⟨found, found', _, w₂, hfind, hfind', -, hsame, -⟩ | ⟨_, _, _, hfails, _, _, _⟩
  · obtain rfl : found' = found := hsame
    have htolerates : w.Tolerates w₁ (c.nodes ++ w₁.held) := by
      refine ⟨hclosed, huntouched.toPadded, fun x hx => huntouched.held ▸ hx,
        fun x hx => List.mem_append_right _ hx, fun x hx => ?_⟩
      rcases List.mem_append.mp hx with hx | hx
      · rcases hnodes x hx with rfl | hx
        · exact .inr (.inl halive)
        · exact .inr hx
      · exact .inl hx
    have hindifferent := findFrom_indifferent (Language.indifferent_ofFuel hcalm fuel) hcalm
      (pathNames p) (.node n)
    obtain ⟨-, -, hrun⟩ := hindifferent w₁ _ htolerates
    refine ⟨found', congrArg Prod.fst hfind, ?_⟩
    rw [within, Action.bind_apply, hcreate]
    dsimp only
    rw [Action.fst_holding, find, ← World.reheld_append, hrun, hfind']
  · exact hfails.elim

variable {x : String} {segments : List Expr.Segment}

/-- The value of a name that the node of the context holds is its entry. -/
theorem eval_name {lang : Language} {c : Context} (hbinding : x ∉ Context.bindings)
    (hframe : w.getRaw c.frame x = none) (hheld : w.containsKey c.this x = true) :
    (Expr.name x).eval lang c w =
      Action.holding [c.this] ((Value.node c.this).member lang x) w := by
  have hholder : w.holder? c.this x = some c.this := List.find?_cons_of_pos hheld
  have hmember : Action.holding [c.this] ((Value.node c.this).member lang x) =
      (·.getD .null) <$> Action.holding [c.this] (c.this.get lang x) := Action.holding_map _ _ _
  have hfound : c.lookup lang x w = Action.holding [c.this] (c.this.get lang x) w := by
    rw [Context.lookup, Context.binding_eq_none hbinding]
    simp only [Action.inspect_bind_apply, hframe]
    rw [Action.bind_apply, resolve, Action.inspect_bind_apply, hholder]
    dsimp only
    rcases hget : Action.holding [c.this] (c.this.get lang x) w with ⟨found | cause | _, w₁⟩
    · rcases holding_get_eq_done hget with ⟨hraw, -⟩ | ⟨s, t, -, rfl⟩ | ⟨value, -, rfl, -⟩
      · rw [World.containsKey, Entries.contains, ← World.getRaw, hraw] at hheld
        cases hheld
      · rfl
      · rfl
    · rfl
    · rfl
  rw [Expr.eval, hmember]
  exact Action.bind_congr hfound fun _ _ _ => rfl

theorem within_map {α β : Type} (f : α → β) (p : Context → Action α) :
    n.within (fun c => f <$> p c) = f <$> n.within p := by
  rw [within, within, map_bind]
  exact congrArg _ (funext fun c => Action.holding_map _ f (p c))

/-- Where the node of the context holds the first name of a path, the statement of the path ends as
the finding of the path does. -/
theorem evaluate_path {c : Context} (hx : Expr.IsIdentifier x) (hreserved : x ∉ Expr.reserved)
    (hbinding : x ∉ Context.bindings) (hsound : ∀ s ∈ segments, s.Sound)
    (hapart : segments.IsChain Expr.Segment.Apart) (hframe : w.getRaw c.frame x = none)
    (hheld : w.containsKey c.this x = true)
    (hstored : w.Stored (x :: segments.map Expr.Segment.text) (.node c.this)) :
    Action.mapFailure (.evaluation (Expr.path x segments))
        ((Language.ofFuel (fuel + 1)).evaluate c (Expr.path x segments)) w =
      ((·.getD .null) <$> c.this.find (.ofFuel fuel) (Expr.path x segments)) w := by
  have hplain : ∀ name ∈ x :: segments.map Expr.Segment.text, PlainKey name := by
    intro name hname
    rcases List.mem_cons.mp hname with rfl | hname
    · exact hx.plainKey
    · obtain ⟨s, hs, rfl⟩ := List.mem_map.mp hname
      exact Expr.Segment.plainKey (hsound s hs)
  have hstatement : (Language.ofFuel (fuel + 1)).evaluate c (Expr.path x segments) =
      (Expr.along (.name x) segments).eval (.ofFuel fuel) c :=
    Language.evaluate_of_parse fuel c (Expr.parse_path hx hreserved hsound hapart)
  -- The chain of members starts at the node itself.
  have hchain : (Expr.along (.name x) segments).eval (.ofFuel fuel) c w =
      ((·.getD .null) <$> c.this.find (.ofFuel fuel) (Expr.path x segments)) w := by
    rw [find, Expr.pathNames_path hx hsound, ← Value.descend_eq_findFrom hplain hstored,
      Expr.eval_along]
    exact Action.bind_congr (eval_name hbinding hframe hheld) fun _ _ _ => rfl
  have hunfailing :
      ((·.getD .null) <$> c.this.find (.ofFuel fuel) (Expr.path x segments)).Unfailing :=
    (findFrom_unfailing (Language.expand_unfailing fuel) _ _).map _
  rw [← hunfailing.mapFailure (.evaluation (Expr.path x segments)), hstatement,
    Action.mapFailure, Action.mapFailure, hchain]

/-- Evaluating a dotted path. Let the path start with an identifier that is neither a word of the
language nor a reserved name and that the node holds, and go on with identifiers and positions of 63
bits at most, no two positions in a row. Let there be no local frame, and let the path ask for no
length of a list or text and for no part of a failure. Then to evaluate the path is to find it in
the context of the evaluation, with null for nothing. Where moreover no node is stored below itself
and all templates are calm, the evaluation gives what finding the path gives in the world as it
is. -/
theorem eval_path (hx : Expr.IsIdentifier x) (hreserved : x ∉ Expr.reserved)
    (hbinding : x ∉ Context.bindings) (hsound : ∀ s ∈ segments, s.Sound)
    (hapart : segments.IsChain Expr.Segment.Apart) (hevaluates : w.evaluatesOn n = true)
    (hframes : w.frames = []) (hheld : w.containsKey n x = true)
    (hstored : w.Stored (x :: segments.map Expr.Segment.text) (.node n)) :
    n.eval (.ofFuel (fuel + 1)) (Expr.path x segments) w =
        n.within (fun _ => (·.getD .null) <$> n.find (.ofFuel fuel) (Expr.path x segments)) w ∧
      (w.Closed → (∀ m, ¬ w.Under m m) → w.Calm → w.alive n = true → 0 < fuel →
        Template.depthLimit < w.expansions + fuel →
        ∃ found, (n.find (.ofFuel fuel) (Expr.path x segments) w).1 = .done found ∧
          (n.eval (.ofFuel (fuel + 1)) (Expr.path x segments) w).1 =
            .done (found.getD .null)) := by
  have heval : n.eval (.ofFuel (fuel + 1)) (Expr.path x segments) w =
      n.within (fun _ => (·.getD .null) <$> n.find (.ofFuel fuel) (Expr.path x segments)) w := by
    rw [eval, Action.inspect_bind_apply, hevaluates, if_pos rfl,
      Expr.statements_path hx hreserved hsound hapart]
    refine Action.bind_congr rfl fun c w₁ hcreate => ?_
    obtain ⟨hthis, huntouched, hframe, -⟩ := Context.create_frameless hframes hcreate
    subst hthis
    have hraw : ∀ m key, (w₁.hold c.nodes).getRaw m key = w.getRaw m key := fun m key =>
      congrArg (fun cell : Cell => cell.entries.get? key) (huntouched.cell m)
    have hblank : (w₁.hold c.nodes).getRaw c.frame x = none := by
      rw [hraw, World.getRaw, World.cell_of_size_le hframe]
      rfl
    have hheld₁ : (w₁.hold c.nodes).containsKey c.this x = true := by
      rw [World.containsKey, Entries.contains, ← World.getRaw, hraw]
      exact hheld
    dsimp only
    rw [Language.evaluateAll_singleton]
    exact Action.holding_congr
      (evaluate_path hx hreserved hbinding hsound hapart hblank hheld₁ (hstored.congr hraw))
  refine ⟨heval, fun hclosed hacyclic hcalm halive hpos hfuel => ?_⟩
  rw [World.evaluatesOn, Bool.and_eq_true] at hevaluates
  have hlt := World.lt_size_of_engined hevaluates.1
  obtain ⟨found, hfound, hinside⟩ := find_within hclosed hacyclic hcalm hframes hlt halive hpos
    hfuel (Expr.path x segments)
  refine ⟨found, hfound, ?_⟩
  rw [heval, within_map]
  exact congrArg Prod.fst (Action.map_done (Prod.ext hinside rfl))

end NodeId

/-- A node with a list of a list and of a child, whose entry is a template. -/
def World.shelf : World :=
  let w := ((World.single ⟨true, true, 0⟩).create true).2
  let w := (w.put ⟨1⟩ "child" (.node ⟨2⟩)).put ⟨2⟩ "k" (.text "<$\x7ba\x7d>")
  let row := Value.list [Value.ofNat 1, Value.ofNat 2]
  ((w.put ⟨1⟩ "a" (.text "x")).put ⟨1⟩ "l" (.list [row, .node ⟨2⟩])).hold [⟨1⟩]

namespace World

theorem closed_shelf : shelf.Closed := by
  have hnodes := ((closed_initial ⟨true, true, 0⟩ ⟨default, []⟩).create true).create true
  have hchild := @Closed.put _ hnodes ⟨1⟩ (by decide) "child" (.node ⟨2⟩) (by decide)
  have htemplate := @Closed.put _ hchild ⟨2⟩ (by decide) "k" (.text "<$\x7ba\x7d>") (by decide)
  have htext := @Closed.put _ htemplate ⟨1⟩ (by decide) "a" (.text "x") (by decide)
  have hlist := @Closed.put _ htext ⟨1⟩ (by decide) "l"
    (.list [.list [Value.ofNat 1, Value.ofNat 2], .node ⟨2⟩]) (by decide)
  refine ⟨hlist.references, hlist.parents, ?_⟩
  decide

theorem calm_shelf : shelf.Calm := by
  have hnodes := ((calm_initial ⟨true, true, 0⟩ ⟨default, []⟩).create true).create true
  have hchild := @Calm.put _ hnodes ⟨1⟩ (by decide) "child" (.node ⟨2⟩) (by simp)
  have hcalm : Template.Calm "<$\x7ba\x7d>" := by decide +kernel
  have hplain : Template.Calm "x" := by decide +kernel
  have htemplate := @Calm.put _ hchild ⟨2⟩ (by decide) "k" (.text _) (by rintro _ ⟨⟩; exact hcalm)
  have htext := @Calm.put _ htemplate ⟨1⟩ (by decide) "a" (.text _) (by rintro _ ⟨⟩; exact hplain)
  exact @Calm.put _ htext ⟨1⟩ (by decide) "l"
    (.list [.list [Value.ofNat 1, Value.ofNat 2], .node ⟨2⟩]) (by simp)

theorem acyclic_shelf (n : NodeId) : ¬ shelf.Under n n := by
  refine acyclic_of_lt (fun x y hy => ?_) n
  by_cases hx : x.index < 3
  · have hstored : ∀ i < 3, ∀ r ∈ references (shelf.cell ⟨i⟩), i < r.index := by decide
    exact hstored x.index hx y hy
  · rw [cell_of_size_le (Nat.not_lt.mp hx)] at hy
    cases hy

end World

namespace NodeId

/-- The path leads through the list to the child and its template. -/
theorem eval_path_shelf :
    (⟨1⟩ : NodeId).eval (.ofFuel 34) "l.1.k" .shelf =
        (⟨1⟩ : NodeId).within (fun _ => (·.getD .null) <$> (⟨1⟩ : NodeId).find (.ofFuel 33) "l.1.k")
          .shelf ∧
      ∃ found, ((⟨1⟩ : NodeId).find (.ofFuel 33) "l.1.k" .shelf).1 = .done found ∧
        ((⟨1⟩ : NodeId).eval (.ofFuel 34) "l.1.k" .shelf).1 = .done (found.getD .null) := by
  have hpath : Expr.path "l" [.position 1, .name "k"] = "l.1.k" := by decide +kernel
  have hl : Expr.IsIdentifier "l" := ⟨'l', [], rfl, by decide, fun c hc => by cases hc⟩
  have hk : Expr.IsIdentifier "k" := ⟨'k', [], rfl, by decide, fun c hc => by cases hc⟩
  have hsound : ∀ s ∈ [Expr.Segment.position 1, .name "k"], s.Sound := by
    intro s hs
    simp only [List.mem_cons, List.not_mem_nil, or_false] at hs
    rcases hs with rfl | rfl
    · exact (by decide : 1 < 0x8000000000000000)
    · exact hk
  have hstored : World.shelf.Stored ["l", "1", "k"] (.node ⟨1⟩) := by
    refine ⟨id, fun list hlist => ?_⟩
    obtain rfl := Option.some.inj hlist
    refine ⟨(by decide : ¬ ("1" = "length" ∨ "1" = "size")), fun child hchild => ?_⟩
    obtain rfl := Option.some.inj hchild
    exact ⟨id, fun _ _ => trivial⟩
  obtain ⟨heval, hfind⟩ := @eval_path ⟨1⟩ .shelf 33 _ _ hl (by decide) (by decide) hsound
    (by decide) rfl rfl rfl hstored
  rw [hpath] at heval hfind
  exact ⟨heval, hfind World.closed_shelf World.acyclic_shelf World.calm_shelf (by decide)
    (by decide) (by decide)⟩

/-- Finding reads a position in a row of the list. The lexer takes the two positions for a decimal,
which names no member. -/
theorem eval_positions :
    (∀ fuel, ((⟨1⟩ : NodeId).find (.ofFuel fuel) "l.0.1" .shelf).1 =
        .done (some (Value.ofNat 2))) ∧
      ∀ fuel, ∃ cause, ((⟨1⟩ : NodeId).eval (.ofFuel (fuel + 1)) "l.0.1" .shelf).1 =
        .failed cause := by
  refine ⟨fun fuel => rfl, fun fuel => ?_⟩
  have htokens : ∃ x, Expr.tokenize "l.0.1" = .ok [.word "l", .mark .dot, .float x, .finish] :=
    ⟨(⟨['0'], some ['1'], none⟩ : Expr.Written).toFloat, rfl⟩
  obtain ⟨x, htokens⟩ := htokens
  obtain ⟨fault, hparse⟩ : ∃ fault, Expr.parse "l.0.1" = .error fault := by
    rw [Expr.parse, htokens]
    exact ⟨_, rfl⟩
  have hstatements : Script.statements "l.0.1" = ["l.0.1"] := by decide +kernel
  have hevaluate : ∀ c, (Language.ofFuel (fuel + 1)).evaluate c "l.0.1" =
      (Action.fault fault : Action Value) := by
    intro c
    simp only [Language.ofFuel, Language.evaluateStatement, hparse]
  refine ⟨.evaluation "l.0.1" (.script fault), ?_⟩
  rw [eval, hstatements]
  simp only [Language.evaluateAll_singleton, hevaluate]
  rfl

end NodeId

end ScriptTree
