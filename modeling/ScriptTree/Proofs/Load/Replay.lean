import ScriptTree.Proofs.Load.Rebuild

/-!
# Loads replayed in a twin world

One action mirrors another when it does in a twin world what the other does in the first, as long as
that is done (`Action.Mirrors`). Where no template is expanded and no script runs, reading gives
what is stored, and the loaders of literals, files, documents and properties mirror themselves, down
to the instructions of the nodes that they build (`NodeId.Replays`). So a load that is done is
done again in every world that has more of nodes and of entries that instruct no loader.
-/

set_option autoImplicit false

namespace ScriptTree

open World (Twin)

variable {v w a b : World}

/-- When the first action is done in `a`, the second is done in `b`: the worlds are twins again and
the values correspond, given how many nodes the first world has then. -/
def Action.Mirrors {α : Type} (v w a b : World) (rel : Nat → α → α → Prop) (p q : Action α) :
    Prop :=
  ∀ x a', p a = (.done x, a') → ∃ y b', q b = (.done y, b') ∧ Twin v w a' b' ∧ a.Continues a' ∧
    rel a'.cells.size x y

/-- The second run has the same value. -/
def Mirrored.Same {α : Type} (_ : Nat) (x y : α) : Prop := y = x

/-- The second run has the counterpart of a built node. -/
def Mirrored.Node (v w : World) (size : Nat) (x y : NodeId) : Prop :=
  v.cells.size ≤ x.index ∧ x.index < size ∧ y = x.moved v w

/-- The second run has the counterparts of built nodes. -/
def Mirrored.Nodes (v w : World) (size : Nat) (xs ys : List NodeId) : Prop :=
  (∀ x ∈ xs, v.cells.size ≤ x.index ∧ x.index < size) ∧ ys = xs.map (NodeId.moved v w)

namespace Action

open Mirrored (Same)

variable {α β : Type} {rel : Nat → α → α → Prop} {rel' : Nat → β → β → Prop}

theorem mirrors_pure (h : Twin v w a b) {x y : α} (hrel : rel a.cells.size x y) :
    Mirrors v w a b rel (pure x) (pure y) := by
  intro z a' hdone
  obtain ⟨hz, rfl⟩ := Prod.mk.inj hdone
  obtain rfl := Outcome.done.inj hz
  exact ⟨y, b, rfl, h, World.Continues.refl _, hrel⟩

/-- A failure has nothing to mirror. -/
theorem mirrors_of_fails {p q : Action α} (hfails : ∀ x a', p a ≠ (.done x, a')) :
    Mirrors v w a b rel p q :=
  fun x a' hdone => absurd hdone (hfails x a')

theorem mirrors_fail (cause : Failure) (q : Action α) : Mirrors v w a b rel (fail cause) q :=
  mirrors_of_fails fun _ _ hdone => nomatch (Prod.mk.inj hdone).1

theorem Mirrors.bind {p q : Action α} {f g : α → Action β} (hp : Mirrors v w a b rel p q)
    (hnext : ∀ x y a' b', Twin v w a' b' → a.Continues a' → rel a'.cells.size x y →
      Mirrors v w a' b' rel' (f x) (g y)) :
    Mirrors v w a b rel' (p >>= f) (q >>= g) := by
  intro z a₂ hdone
  -- Both parts of the first action are done, so the mirrored parts are, one after the other.
  obtain ⟨x, a₁, hfirst, hrest⟩ := bind_eq_done hdone
  obtain ⟨y, b₁, hq, htwin, hcontinues, hrel⟩ := hp x a₁ hfirst
  obtain ⟨z', b₂, hg, htwin', hcontinues', hrel'⟩ :=
    hnext x y a₁ b₁ htwin hcontinues hrel z a₂ hrest
  refine ⟨z', b₂, ?_, htwin', hcontinues.trans hcontinues', hrel'⟩
  rw [bind_apply, hq]
  exact hg

/-- What is seen in the worlds is known. -/
theorem mirrors_inspect {f g : World → α} {next next' : α → Action β}
    (h : Mirrors v w a b rel' (next (f a)) (next' (g b))) :
    Mirrors v w a b rel' (inspect f >>= next) (inspect g >>= next') :=
  h

theorem mirrors_update {f g : World → α × World} (htwin : Twin v w (f a).2 (g b).2)
    (hcontinues : a.Continues (f a).2) (hrel : rel (f a).2.cells.size (f a).1 (g b).1) :
    Mirrors v w a b rel (update f) (update g) := by
  intro x a' hdone
  obtain ⟨hx, rfl⟩ := Prod.mk.inj hdone
  obtain rfl := Outcome.done.inj hx
  exact ⟨(g b).1, (g b).2, rfl, htwin, hcontinues, hrel⟩

theorem mirrors_change {f g : World → World} (htwin : Twin v w (f a) (g b))
    (hcontinues : a.Continues (f a)) : Mirrors v w a b Same (change f) (change g) := by
  intro x a' hdone
  obtain ⟨-, rfl⟩ := Prod.mk.inj hdone
  exact ⟨(), g b, rfl, htwin, hcontinues, rfl⟩

/-- A node is held in one run and its counterpart in the other. -/
theorem mirrors_holding (h : Twin v w a b) {p q : Action α} {nodes nodes' : List NodeId}
    (hnodes : nodes' = nodes.map (NodeId.moved v w))
    (hbody : ∀ a₁ b₁, Twin v w a₁ b₁ → a₁.cells.size = a.cells.size →
      Mirrors v w a₁ b₁ rel p q) :
    Mirrors v w a b rel (holding nodes p) (holding nodes' q) := by
  have hinside : Twin v w { a with held := nodes ++ a.held }
      { b with held := nodes' ++ b.held } := by
    refine { h with held := ?_ }
    show nodes' ++ b.held = (nodes ++ a.held).map (NodeId.moved v w)
    rw [List.map_append, hnodes, h.held]
  intro x a' hdone
  obtain ⟨hx, rfl⟩ := Prod.mk.inj hdone
  obtain ⟨y, b₁, hq, htwin, hcontinues, hrel⟩ :=
    hbody _ _ hinside rfl x _ (Prod.ext hx rfl)
  refine ⟨y, { b₁ with held := b.held }, ?_, { htwin with held := h.held },
    hcontinues.held_restored, hrel⟩
  rw [holding, hq]

/-- A file is under way in both runs. -/
theorem mirrors_within_file (h : Twin v w a b) {p q : Action α} (path : String)
    (hbody : ∀ a₁ b₁, Twin v w a₁ b₁ → a₁.cells.size = a.cells.size →
      Mirrors v w a₁ b₁ rel p q) :
    Mirrors v w a b rel (within (·.enterFile path) (·.leaveFile path) p)
      (within (·.enterFile path) (·.leaveFile path) q) := by
  have hinside : Twin v w (a.enterFile path) (b.enterFile path) :=
    { h with loading := congrArg (List.cons path) h.loading }
  intro x a' hdone
  obtain ⟨hx, rfl⟩ := Prod.mk.inj hdone
  obtain ⟨y, b₁, hq, htwin, hcontinues, hrel⟩ :=
    hbody _ _ hinside rfl x _ (Prod.ext hx rfl)
  refine ⟨y, b₁.leaveFile path, ?_,
    { htwin with loading := congrArg (List.erase · path) htwin.loading },
    hcontinues.loading_restored, hrel⟩
  rw [within, hq]

theorem mirrors_forM {γ : Type} {f g : γ → Action Unit} (h : Twin v w a b) (xs : List γ)
    (hstep : ∀ x a' b', Twin v w a' b' → a.Continues a' → Mirrors v w a' b' Same (f x) (g x)) :
    Mirrors v w a b Same (xs.forM f) (xs.forM g) := by
  induction xs generalizing a b with
  | nil => exact mirrors_pure h rfl
  | cons x rest ih =>
      show Mirrors v w a b Same (f x >>= fun _ => rest.forM f) (g x >>= fun _ => rest.forM g)
      refine (hstep x a b h (World.Continues.refl a)).bind ?_
      intro _ _ a₁ b₁ h₁ hcontinues _
      refine ih h₁ ?_
      intro x a' b' h' hcontinues'
      exact hstep x a' b' h' (hcontinues.trans hcontinues')

end Action

/-! ## Reading where nothing is expanded -/

section Reading

variable (lang : Language)

theorem NodeId.expand_of_inert (ha : a.Inert) (n : NodeId) (text : String) :
    n.expand lang text a = (.done text, a) := by
  rw [NodeId.expand, Action.inspect_bind_apply, (ha n).1]
  rfl

theorem NodeId.eval_of_inert (ha : a.Inert) (n : NodeId) (text : String) :
    n.eval lang text a = (.failed (.noEvaluator text), a) := by
  rw [NodeId.eval, Action.inspect_bind_apply, (ha n).2]
  rfl

theorem NodeId.readValue_of_inert (ha : a.Inert) (n : NodeId) (value : Value) :
    n.readValue lang value a = (.done value, a) := by
  cases value with
  | text s =>
      show (n.expand lang s >>= fun s => pure (Value.text s)) a = _
      rw [Action.bind_apply, NodeId.expand_of_inert lang ha]
      rfl
  | _ => rfl

theorem NodeId.get_of_inert (ha : a.Inert) (n : NodeId) (key : String) :
    n.get lang key a = (.done (a.getRaw n key), a) := by
  rw [NodeId.get, Action.inspect_bind_apply]
  cases a.getRaw n key with
  | none => rfl
  | some value =>
      show (n.readValue lang value >>= fun value => pure (some value)) a = _
      rw [Action.bind_apply, NodeId.readValue_of_inert lang ha]
      rfl

theorem NodeId.getText_of_inert (ha : a.Inert) (n : NodeId) (key : String) :
    n.getText lang key a = (.done ((a.getRaw n key).map a.text), a) := by
  rw [NodeId.getText, Action.bind_apply, NodeId.get_of_inert lang ha]
  cases a.getRaw n key with
  | none => rfl
  | some value => rfl

/-- The nearest directory of a lineage, with the node that names it. -/
def World.namedDirectory (a : World) (lineage : List NodeId) : Option (NodeId × String) :=
  lineage.findSome? fun m =>
    match a.getRaw m directoryKey with
    | some (.text s) => some (m, s)
    | _ => none

theorem NodeId.directory_apply (n : NodeId) (a : World) :
    n.directory lang a = (match a.namedDirectory (a.lineage n) with
      | some (m, s) => Action.holding [m] (m.expand lang s)
      | none => pure ".") a := rfl

theorem NodeId.directory_of_inert (ha : a.Inert) (n : NodeId) :
    n.directory lang a = (.done (((a.namedDirectory (a.lineage n)).map Prod.snd).getD "."), a) := by
  rw [NodeId.directory_apply]
  cases a.namedDirectory (a.lineage n) with
  | none => rfl
  | some p =>
      have hinside : ({ a with held := [p.1] ++ a.held } : World).Inert := ha
      show (Action.holding [p.1] (p.1.expand lang p.2)) a = _
      rw [Action.holding, NodeId.expand_of_inert lang hinside]
      rfl

end Reading

namespace NodeId

open ScriptTree.Action Mirrored

variable {n : NodeId} (lang : Language)

/-- The nearest directories of a lineage and of that of its counterparts have the same text. -/
theorem namedDirectory_moved (h : Twin v w a b) (lineage : List NodeId) :
    b.namedDirectory (lineage.map (NodeId.moved v w)) =
      (a.namedDirectory lineage).map (Prod.map (NodeId.moved v w) id) := by
  rw [World.namedDirectory, World.namedDirectory, List.findSome?_map, List.map_findSome?]
  refine congrArg (List.findSome? · lineage) (funext fun m => ?_)
  show (match b.getRaw (m.moved v w) directoryKey with
    | some (.text s) => some (m.moved v w, s)
    | _ => none) = Option.map (Prod.map (NodeId.moved v w) id) (match a.getRaw m directoryKey with
    | some (.text s) => some (m, s)
    | _ => none)
  -- A built node has its entries renamed; one that was there has the same instructions in both.
  have hsame : b.getRaw (m.moved v w) directoryKey = a.getRaw m directoryKey ∨
      b.getRaw (m.moved v w) directoryKey =
        (a.getRaw m directoryKey).map (Value.rename (NodeId.moved v w)) := by
    by_cases hm : m.index < v.cells.size
    · rw [NodeId.moved_of_lt hm]
      exact .inl (h.getRaw_directive hm (by decide))
    · exact .inr (h.getRaw (Nat.not_lt.mp hm) directoryKey)
  obtain hsame | hsame := hsame
  · rw [hsame]
    cases a.getRaw m directoryKey with
    | none => rfl
    | some value => cases value <;> rfl
  · rw [hsame]
    cases a.getRaw m directoryKey with
    | none => rfl
    | some value => cases value <;> rfl

theorem mirrors_directory (h : Twin v w a b) (hn : n.index < a.cells.size) :
    Mirrors v w a b Same (n.directory lang) ((n.moved v w).directory lang) := by
  intro x a' hdone
  rw [directory_of_inert lang h.inert.1] at hdone
  obtain ⟨hx, rfl⟩ := Prod.mk.inj hdone
  obtain rfl := Outcome.done.inj hx
  refine ⟨_, b, directory_of_inert lang h.inert.2 _, h, World.Continues.refl _, ?_⟩
  rw [Same, h.lineage hn, namedDirectory_moved h, Option.map_map]
  rfl

/-- Reading a file name where the runs start from the same directory. -/
theorem mirrors_localFile (h : Twin v w a b) (hn : n.index < a.cells.size) (name : String) :
    Mirrors v w a b Same (n.localFile lang name) ((n.moved v w).localFile lang name) := by
  rw [localFile, localFile]
  refine mirrors_inspect ?_
  rw [h.files]
  split
  · exact mirrors_pure h rfl
  · refine (mirrors_directory lang h hn).bind ?_
    rintro _ directory a' b' h' - rfl
    dsimp only
    split
    · exact mirrors_pure h' rfl
    · exact mirrors_fail _ _

theorem mirrors_put (h : Twin v w a b) (hn : v.cells.size ≤ n.index) (key : String)
    {value value' : Value} (hvalue : value.Moved v w (n.index + 1) a.cells.size value') :
    Mirrors v w a b (fun _ _ _ => True) (n.put key value) ((n.moved v w).put key value') :=
  mirrors_update (h.putMoved hn key hvalue) (World.continues_put a n key value) trivial

theorem mirrors_setDirectory (h : Twin v w a b) (hn : v.cells.size ≤ n.index)
    (hlt : n.index < a.cells.size) (path : String) :
    Mirrors v w a b Same (n.setDirectory lang path) ((n.moved v w).setDirectory lang path) := by
  rw [setDirectory, setDirectory]
  refine mirrors_inspect ?_
  rw [h.files]
  split
  · exact mirrors_fail _ _
  · split
    · exact mirrors_fail _ _
    · refine (mirrors_directory lang h hlt).bind ?_
      rintro _ current a' b' h' - rfl
      split
      · exact mirrors_pure h' rfl
      · refine (mirrors_put h' hn directoryKey (Value.moved_text path)).bind ?_
        intro _ _ a₁ b₁ h₁ _ _
        exact mirrors_pure h₁ rfl

theorem mirrors_locateFile (h : Twin v w a b) (path : String) :
    Mirrors v w a b Same (locateFile path) (locateFile path) := by
  rw [locateFile]
  refine mirrors_inspect ?_
  rw [h.files]
  split
  · exact mirrors_fail _ _
  · refine mirrors_inspect ?_
    rw [h.loading]
    split
    · exact mirrors_fail _ _
    · exact mirrors_pure h rfl

theorem mirrors_readFile (h : Twin v w a b) (path : String) :
    Mirrors v w a b Same (readFile path) (readFile path) := by
  rw [readFile]
  refine mirrors_inspect ?_
  rw [h.files]
  split
  · exact mirrors_pure h rfl
  · exact mirrors_fail _ _

/-- A file is taken in by mirrored actions. -/
theorem mirrors_loadFile (h : Twin v w a b) (hn : v.cells.size ≤ n.index)
    (hlt : n.index < a.cells.size) (path : String) {take take' : String → String → Action Unit}
    (htake : ∀ full text a' b', Twin v w a' b' → a.cells.size ≤ a'.cells.size →
      Mirrors v w a' b' Same (take full text) (take' full text)) :
    Mirrors v w a b Same (n.loadFile lang path take) ((n.moved v w).loadFile lang path take') := by
  rw [loadFile, loadFile]
  refine (mirrors_locateFile h path).bind ?_
  rintro _ names a₁ b₁ h₁ hc₁ rfl
  -- The directory, the text and what takes it in all run while the file is marked.
  refine mirrors_within_file h₁ _ ?_
  intro a₂ b₂ h₂ hsize
  have hlt₂ : n.index < a₂.cells.size := by
    have hle := hc₁.size
    omega
  refine (mirrors_setDirectory lang h₂ hn hlt₂ _).bind ?_
  rintro _ _ a₃ b₃ h₃ hc₃ -
  refine (mirrors_readFile h₃ path).bind ?_
  rintro _ text a₄ b₄ h₄ hc₄ rfl
  refine htake _ _ a₄ b₄ h₄ ?_
  have hle := Nat.le_trans hc₁.size (Nat.le_trans (Nat.le_of_eq hsize.symm) hc₃.size)
  exact Nat.le_trans hle hc₄.size

theorem mirrors_getText (h : Twin v w a b) (hn : v.cells.size ≤ n.index) (key : String) :
    Mirrors v w a b Same (n.getText lang key) ((n.moved v w).getText lang key) := by
  intro x a' hdone
  rw [getText_of_inert lang h.inert.1] at hdone
  obtain ⟨hx, rfl⟩ := Prod.mk.inj hdone
  obtain rfl := Outcome.done.inj hx
  refine ⟨_, b, getText_of_inert lang h.inert.2 _ key, h, World.Continues.refl _, ?_⟩
  exact h.text_getRaw hn key

/-- Every file that a key of a built node lists is taken in by mirrored actions. -/
theorem mirrors_eachFile (h : Twin v w a b) (hn : v.cells.size ≤ n.index)
    (hlt : n.index < a.cells.size) (key : String) {take take' : String → Action Unit}
    (htake : ∀ path a' b', Twin v w a' b' → a.cells.size ≤ a'.cells.size →
      Mirrors v w a' b' Same (take path) (take' path)) :
    Mirrors v w a b Same (n.eachFile lang key take) ((n.moved v w).eachFile lang key take') := by
  rw [eachFile, eachFile]
  refine (mirrors_getText lang h hn key).bind ?_
  rintro _ (_ | text) a₁ b₁ h₁ hc₁ rfl
  · exact mirrors_pure h₁ rfl
  · refine mirrors_forM h₁ _ ?_
    intro name a₂ b₂ h₂ hc₂
    have hle := Nat.le_trans hc₁.size hc₂.size
    refine (mirrors_localFile lang h₂ (Nat.lt_of_lt_of_le hlt hle) name).bind ?_
    rintro _ path a₃ b₃ h₃ hc₃ rfl
    exact htake path a₃ b₃ h₃ (Nat.le_trans hle hc₃.size)

theorem mirrors_loadProperties (h : Twin v w a b) (hn : v.cells.size ≤ n.index)
    (read : String → Except Properties.Fault (List (String × String))) (path : String) :
    Mirrors v w a b Same (n.loadProperties read path)
      ((n.moved v w).loadProperties read path) := by
  rw [loadProperties, loadProperties]
  refine (mirrors_readFile h path).bind ?_
  rintro _ text a₁ b₁ h₁ - rfl
  split
  · exact mirrors_change (h₁.flatten hn _) (World.continues_flatten a₁ n _)
  · exact mirrors_fail _ _

/-! ## Literals -/

/-- Carrying out the instructions of a built node mirrors itself. -/
def Replays (v w : World) (introspect : NodeId → Action Unit) : Prop :=
  ∀ (n : NodeId) (a b : World), Twin v w a b → v.cells.size ≤ n.index → n.index < a.cells.size →
    Mirrors v w a b Same (introspect n) (introspect (n.moved v w))

section Literals

variable {introspect : NodeId → Action Unit}

mutual

theorem mirrors_materialize (hi : Replays v w introspect) (n : NodeId) :
    ∀ (json : Json) (a b : World), Twin v w a b → v.cells.size ≤ n.index →
    n.index < a.cells.size →
    Mirrors v w a b Same (n.materialize introspect json)
      ((n.moved v w).materialize introspect json)
  | .object members, a, b, h, hn, hlt => by
      obtain ⟨htwin, hchildren⟩ := h.putMembers hn members hlt
      have hput : Mirrors v w a b (Nodes v w) (update (World.putMembers n members))
          (update (World.putMembers (n.moved v w) members)) :=
        mirrors_update htwin (World.continues_putMembers n members a) hchildren
      rw [materialize, materialize]
      refine hput.bind ?_
      rintro children _ a₁ b₁ h₁ hc₁ ⟨hrange, rfl⟩
      -- Children come before their parent.
      refine (mirrors_materializeAll hi children members a₁ b₁ h₁ hrange).bind ?_
      intro _ _ a₂ b₂ h₂ hc₂ _
      have hle := Nat.le_trans hc₁.size hc₂.size
      exact hi n a₂ b₂ h₂ hn (Nat.lt_of_lt_of_le hlt hle)
  | .null, _, _, h, _, _ | .bool _, _, _, h, _, _ | .number _, _, _, h, _, _
  | .text _, _, _, h, _, _ | .array _, _, _, h, _, _ => mirrors_pure h rfl

theorem mirrors_materializeAll (hi : Replays v w introspect) :
    ∀ (children : List NodeId) (members : List (String × Json)) (a b : World), Twin v w a b →
    (∀ x ∈ children, v.cells.size ≤ x.index ∧ x.index < a.cells.size) →
    Mirrors v w a b Same (materializeAll introspect children members)
      (materializeAll introspect (children.map (NodeId.moved v w)) members)
  | _, [], _, _, h, _ => mirrors_pure h rfl
  | child :: others, (_, .object members) :: rest, a, b, h, hrange => by
      have hchild := hrange child List.mem_cons_self
      have hfill : Mirrors v w a b Same
          (holding (child :: others) (child.materialize introspect (.object members)))
          (holding ((child :: others).map (NodeId.moved v w))
            ((child.moved v w).materialize introspect (.object members))) := by
        refine mirrors_holding h rfl ?_
        intro a₁ b₁ h₁ hsize
        exact mirrors_materialize hi child (.object members) a₁ b₁ h₁ hchild.1 (by omega)
      refine hfill.bind ?_
      intro _ _ a₁ b₁ h₁ hc₁ _
      refine mirrors_materializeAll hi others rest a₁ b₁ h₁ ?_
      intro x hx
      have hx := hrange x (List.mem_cons_of_mem _ hx)
      exact ⟨hx.1, Nat.lt_of_lt_of_le hx.2 hc₁.size⟩
  | [], (_, .object _) :: rest, a, b, h, hrange => mirrors_materializeAll hi [] rest a b h hrange
  | children, (_, .null) :: rest, a, b, h, hrange =>
      mirrors_materializeAll hi children rest a b h hrange
  | children, (_, .bool _) :: rest, a, b, h, hrange =>
      mirrors_materializeAll hi children rest a b h hrange
  | children, (_, .number _) :: rest, a, b, h, hrange =>
      mirrors_materializeAll hi children rest a b h hrange
  | children, (_, .text _) :: rest, a, b, h, hrange =>
      mirrors_materializeAll hi children rest a b h hrange
  | children, (_, .array _) :: rest, a, b, h, hrange =>
      mirrors_materializeAll hi children rest a b h hrange

end

/-- A node is created under any node, later than all that were there. -/
theorem mirrors_createUnder (h : Twin v w a b) {n : NodeId} (hlt : n.index < a.cells.size) :
    Mirrors v w a b (fun size x y => a.cells.size ≤ x.index ∧ Mirrored.Node v w size x y)
      (update (World.createUnder · (some n)))
      (update (World.createUnder · (some (n.moved v w)))) := by
  obtain ⟨hindex, hsize, hnew, htwin⟩ := h.createUnder hlt
  refine mirrors_update htwin (World.continues_createUnder a (some n)) ?_
  exact ⟨Nat.le_of_eq hindex.symm, hindex ▸ h.grown, by omega, hnew⟩

/-- The node of a literal is built alike, under any node. -/
theorem mirrors_newChild (hi : Replays v w introspect) (h : Twin v w a b) {n : NodeId}
    (hlt : n.index < a.cells.size) (text : String) :
    Mirrors v w a b (fun size x y => a.cells.size ≤ x.index ∧ Mirrored.Node v w size x y)
      (n.newChild introspect text) ((n.moved v w).newChild introspect text) := by
  rw [newChild, newChild]
  split
  · exact mirrors_fail _ _
  · rename_i members _
    refine (mirrors_createUnder h hlt).bind ?_
    rintro item _ a₁ b₁ h₁ hc₁ ⟨hitem, hbuilt, hrange, rfl⟩
    have hfill : Mirrors v w a₁ b₁ Same
        (holding [item] (item.materialize introspect (.object members)))
        (holding [item.moved v w] ((item.moved v w).materialize introspect (.object members))) := by
      refine mirrors_holding h₁ rfl ?_
      intro a₂ b₂ h₂ hsize₂
      exact mirrors_materialize hi item _ a₂ b₂ h₂ hbuilt (by omega)
    refine hfill.bind ?_
    intro _ _ a₂ b₂ h₂ hc₂ _
    exact mirrors_pure h₂ ⟨hitem, hbuilt, Nat.lt_of_lt_of_le hrange hc₂.size, rfl⟩
  · exact mirrors_fail _ _

theorem mirrors_appendJson (hi : Replays v w introspect) (h : Twin v w a b) {n : NodeId}
    (hn : v.cells.size ≤ n.index) (hlt : n.index < a.cells.size) (text : String) :
    Mirrors v w a b Same (n.appendJson introspect text)
      ((n.moved v w).appendJson introspect text) := by
  rw [appendJson, appendJson]
  refine (mirrors_newChild hi h hlt text).bind ?_
  rintro item _ a₁ b₁ h₁ - ⟨hitem, -, -, rfl⟩
  exact mirrors_change (h₁.mergeFrom hn (Nat.lt_of_lt_of_le hlt hitem))
    (World.continues_merge a₁ n _)

end Literals

end NodeId

end ScriptTree
