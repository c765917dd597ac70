import ScriptTree.Proofs.Load.Growth

/-!
# What taking in files keeps

`Action.Keeps` follows an action from one world, however it ends: done, failed or out of fuel. It
says which property the world has then, what the value is when there is one, and why the action
halted when it did so over a circular load or for lack of fuel. Where no template is expanded, names
of files and directories come out as the world has them (`NodeId.localFile_of_inert`), and taking in
files keeps what marks, directories and flat properties keep (`NodeId.keeps_loadFile`,
`NodeId.keeps_eachFile`).
-/

set_option autoImplicit false

namespace ScriptTree

/-- An end of a load that is not the fault of a text or of a missing file. -/
inductive Halt where
  /-- A file was asked for that is under way. -/
  | circular (path : String)
  /-- The bound on loads inside each other was reached. -/
  | exhausted
  deriving DecidableEq

/-- The halt that a failure reports. -/
def Failure.halt? : Failure → Option Halt
  | .circular path => some (.circular path)
  | _ => none

/-- The halt that an action came to. -/
def Outcome.halt? {α : Type} : Outcome α → Option Halt
  | .done _ => none
  | .failed cause => cause.halt?
  | .exhausted => some .exhausted

/-- The action, started in `a`, leaves a world with the property `I`, however it ends. When it is
done, the value and the world are as `Q` says, and `F` holds of the halt when it comes to one. -/
structure Action.Keeps {α : Type} (I : World → Prop) (F : Halt → Prop) (p : Action α) (a : World)
    (Q : α → World → Prop) : Prop where
  kept : I (p a).2
  continues : a.Continues (p a).2
  value : ∀ x, (p a).1 = .done x → Q x (p a).2
  halts : ∀ h, (p a).1.halt? = some h → F h

/-- A world with the property, and a node of the kind in it. -/
structure World.Ready (I : World → Prop) (site : NodeId → Prop) (n : NodeId) (a : World) :
    Prop where
  holds : I a
  site : site n
  lt : n.index < a.cells.size

theorem World.Ready.later {I : World → Prop} {site : NodeId → Prop} {n : NodeId} {a a' : World}
    (h : a.Ready I site n) (hc : a.Continues a') (ha' : I a') : a'.Ready I site n :=
  ⟨ha', h.site, Nat.lt_of_lt_of_le h.lt hc.size⟩

theorem World.Ready.hold {I : World → Prop} {site : NodeId → Prop} {n : NodeId} {a : World}
    (h : a.Ready I site n) (hk : World.Kept I site) (nodes : List NodeId) :
    (a.hold nodes).Ready I site n :=
  ⟨hk.held a _ h.holds, h.site, h.lt⟩

/-- The nodes that a run holds are let go. -/
theorem World.Ready.letGo {I : World → Prop} {site : NodeId → Prop} {n : NodeId} {a : World}
    (h : a.Ready I site n) (hk : World.Kept I site) (nodes : List NodeId) :
    ({ a with held := nodes } : World).Ready I site n :=
  ⟨hk.held a _ h.holds, h.site, h.lt⟩

namespace Action

variable {α β : Type} {I : World → Prop} {F : Halt → Prop} {a : World} {Q Q' : α → World → Prop}
  {R : β → World → Prop}

theorem keeps_pure (ha : I a) {x : α} (hx : Q x a) : Keeps I F (pure x) a Q := by
  constructor
  · exact ha
  · exact World.Continues.refl a
  · intro y hy
    rcases Outcome.done.inj hy with rfl
    exact hx
  · intro h hh
    cases hh

theorem keeps_fail (ha : I a) {cause : Failure} (hcause : ∀ h, cause.halt? = some h → F h) :
    Keeps I F (fail cause) a Q := by
  constructor
  · exact ha
  · exact World.Continues.refl a
  · intro y hy
    cases hy
  · exact hcause

/-- A failure that reports no halt. -/
theorem keeps_fault (ha : I a) {cause : Failure} (hcause : cause.halt? = none) :
    Keeps I F (fail cause) a Q := by
  apply keeps_fail ha
  intro h hh
  rw [hcause] at hh
  cases hh

theorem keeps_update {f : World → α × World} (ha : I (f a).2) (hc : a.Continues (f a).2)
    (hx : Q (f a).1 (f a).2) : Keeps I F (update f) a Q := by
  constructor
  · exact ha
  · exact hc
  · intro y hy
    rcases Outcome.done.inj hy with rfl
    exact hx
  · intro h hh
    cases hh

theorem keeps_change {f : World → World} (ha : I (f a)) (hc : a.Continues (f a)) :
    Keeps I F (change f) a fun _ _ => True :=
  keeps_update (f := fun w => ((), f w)) ha hc trivial

theorem Keeps.mono {F' : Halt → Prop} {p : Action α} (hp : Keeps I F p a Q)
    (hF : ∀ h, F h → F' h) (hQ : ∀ x u, Q x u → Q' x u) : Keeps I F' p a Q' where
  kept := hp.kept
  continues := hp.continues
  value x hx := hQ _ _ (hp.value x hx)
  halts h hh := hF h (hp.halts h hh)

/-- What an action leaves that is done. -/
theorem Keeps.of_done {p : Action α} {x : α} {u : World} (h : Keeps I F p a Q)
    (hp : p a = (.done x, u)) : I u ∧ a.Continues u ∧ Q x u := by
  have hvalue := h.value x
  have hkept := h.kept
  have hcontinues := h.continues
  rw [hp] at hvalue hkept hcontinues
  exact ⟨hkept, hcontinues, hvalue rfl⟩

/-- One action after another. What the first has done is known to the second. -/
theorem Keeps.bind {p : Action α} {f : α → Action β} (hp : Keeps I F p a Q)
    (hf : ∀ x a', p a = (.done x, a') → I a' → a.Continues a' → Q x a' → Keeps I F (f x) a' R) :
    Keeps I F (p >>= f) a R := by
  obtain ⟨hkept, hcontinues, hvalue, hhalts⟩ := hp
  rcases hrun : p a with ⟨x | cause | _, a'⟩
  all_goals
    have hbind := bind_apply p f a
    rw [hrun] at hkept hcontinues hvalue hhalts hbind
  · have hrest := hf x a' hrun hkept hcontinues (hvalue x rfl)
    constructor
    · rw [hbind]
      exact hrest.kept
    · rw [hbind]
      exact hcontinues.trans hrest.continues
    · rw [hbind]
      exact hrest.value
    · rw [hbind]
      exact hrest.halts
  -- Where the first action ends without a value, the whole ends as it does.
  · constructor
    · rw [hbind]
      exact hkept
    · rw [hbind]
      exact hcontinues
    · rw [hbind]
      intro y hy
      cases hy
    · rw [hbind]
      exact hhalts
  · constructor
    · rw [hbind]
      exact hkept
    · rw [hbind]
      exact hcontinues
    · rw [hbind]
      intro y hy
      cases hy
    · rw [hbind]
      exact hhalts

/-- An action that is known to be done and to leave the world as it is. -/
theorem keeps_after {p : Action α} {f : α → Action β} {x : α} (hp : p a = (.done x, a))
    (hf : Keeps I F (f x) a R) : Keeps I F (p >>= f) a R := by
  have hbind : (p >>= f) a = f x a := by rw [bind_apply, hp]
  exact ⟨hbind ▸ hf.kept, hbind ▸ hf.continues, hbind ▸ hf.value, hbind ▸ hf.halts⟩

/-- What is seen in the world is known. -/
theorem keeps_inspect {f : World → α} {next : α → Action β} (h : Keeps I F (next (f a)) a R) :
    Keeps I F (inspect f >>= next) a R :=
  keeps_after (inspect_apply f a) h

/-- An action that ends in a known way and leaves the world as it is. -/
theorem keeps_of_eq {p : Action α} {outcome : Outcome α} (hp : p a = (outcome, a)) (ha : I a)
    (hvalue : ∀ x, outcome = .done x → Q x a) (hhalts : ∀ h, outcome.halt? = some h → F h) :
    Keeps I F p a Q := by
  constructor
  · rw [hp]
    exact ha
  · rw [hp]
    exact World.Continues.refl a
  · rw [hp]
    exact hvalue
  · rw [hp]
    exact hhalts

variable {site : NodeId → Prop}

theorem keeps_holding (hk : World.Kept I site) {p : Action α} {nodes : List NodeId}
    (hp : Keeps I F p (a.hold nodes) Q) (hQ : ∀ x u, Q x u → Q' x { u with held := a.held }) :
    Keeps I F (holding nodes p) a Q' where
  kept := hk.held _ _ hp.kept
  continues := hp.continues.held_restored
  value x hx := hQ x _ (hp.value x hx)
  halts := hp.halts

theorem keeps_within_file (hk : World.Kept I site) {p : Action α} (path : String)
    (hp : Keeps I F p (a.enterFile path) fun _ _ => True) :
    Keeps I F (within (·.enterFile path) (·.leaveFile path) p) a fun _ _ => True where
  kept := hk.loading _ _ hp.kept
  continues := hp.continues.loading_restored
  value _ _ := trivial
  halts := hp.halts

/-- An action for each item of a list. For one of them it is known what those before have done. -/
theorem keeps_forM {γ : Type} {f : γ → Action Unit} (ha : I a) (xs : List γ)
    (hf : ∀ before x after u, xs = before ++ x :: after → before.forM f a = (.done (), u) → I u →
      a.Continues u → Keeps I F (f x) u fun _ _ => True) :
    Keeps I F (xs.forM f) a fun _ _ => True := by
  suffices hrest : ∀ rest before u, xs = before ++ rest → before.forM f a = (.done (), u) → I u →
      a.Continues u → Keeps I F (rest.forM f) u fun _ _ => True from
    hrest xs [] a rfl rfl ha (World.Continues.refl a)
  intro rest
  -- The list splits into the items that are through and those to come.
  induction rest with
  | nil =>
      intro before u _ _ hu _
      exact keeps_pure hu trivial
  | cons x rest ih =>
      intro before u hxs hbefore hu hc
      show Keeps I F (f x >>= fun _ => rest.forM f) u fun _ _ => True
      apply (hf before x rest u hxs hbefore hu hc).bind
      intro _ u' hrun hu' hc' _
      apply ih (before ++ [x]) u'
      · rw [hxs, List.append_assoc, List.singleton_append]
      · have happend : (before ++ [x]).forM f = before.forM f >>= fun _ => [x].forM f :=
          List.forM_append
        rw [happend, bind_apply, hbefore]
        show (f x >>= fun _ => pure ()) u = _
        rw [bind_apply, hrun]
        rfl
      · exact hu'
      · exact hc.trans hc'

end Action

/-! ## Files where nothing is expanded -/

/-- The path that a name stands for, seen from a directory: the name as it stands when it leads to a
place, else the name in the directory. -/
def Files.Tree.resolve (t : Files.Tree) (directory name : String) : Except Failure String :=
  if t.hasPlace name then .ok name
  else if t.hasPlace (Files.joinPath directory name) then .ok (Files.joinPath directory name)
  else .error (.missingFile directory name)

/-- The directory that relative names of a node start from, where texts are not expanded. -/
def World.directoryOf (a : World) (n : NodeId) : String :=
  ((a.namedDirectory (a.lineage n)).map Prod.snd).getD "."

/-- The outcome of a result. -/
def Outcome.ofExcept {α : Type} : Except Failure α → Outcome α
  | .ok value => .done value
  | .error cause => .failed cause

section Inert

variable (lang : Language) {a : World} {n : NodeId}

theorem NodeId.localFile_of_inert (ha : a.Inert) (name : String) :
    n.localFile lang name a =
      (Outcome.ofExcept (a.files.resolve (a.directoryOf n) name), a) := by
  rw [NodeId.localFile, Action.inspect_bind_apply, Files.Tree.resolve]
  split
  · rfl
  · rw [Action.bind_apply, NodeId.directory_of_inert lang ha]
    show (if a.files.hasPlace (Files.joinPath (a.directoryOf n) name) then
      (pure (Files.joinPath (a.directoryOf n) name) : Action String)
      else Action.fail (.missingFile (a.directoryOf n) name)) a = _
    split <;> rfl

theorem NodeId.setDirectory_of_inert (ha : a.Inert) (path : String) :
    n.setDirectory lang path a =
      if !a.files.hasPlace path then (.failed (.missingDirectory path), a)
      else if !a.files.hasDirectory path then (.failed (.notDirectory path), a)
      else (.done (),
        if Files.samePath (a.directoryOf n) path then a
        else a.put n directoryKey (.text path)) := by
  rw [NodeId.setDirectory, Action.inspect_bind_apply]
  split
  · rfl
  · split
    · rfl
    · rw [Action.bind_apply, NodeId.directory_of_inert lang ha]
      show (if Files.samePath (a.directoryOf n) path then (pure () : Action Unit)
        else n.put directoryKey (.text path) >>= fun _ => pure ()) a = _
      split <;> rfl

theorem Action.readFile_apply (path : String) :
    Action.readFile path a =
      (Outcome.ofExcept ((a.files.read path).mapError fun fault =>
        .unreadableFile path (.reader fault.message)), a) := by
  rw [Action.readFile, Action.inspect_bind_apply]
  cases a.files.read path with
  | ok text => rfl
  | error fault => rfl

theorem Action.locateFile_apply (path : String) :
    Action.locateFile path a =
      (match a.files.locate path with
        | .error fault => .failed (.unreadableFile path (.reader fault.message))
        | .ok names =>
            if a.loading.contains (Files.absolute names) then
              .failed (.circular (Files.absolute names))
            else .done names, a) := by
  rw [Action.locateFile, Action.inspect_bind_apply]
  cases a.files.locate path with
  | error fault => rfl
  | ok names =>
      show (if a.loading.contains (Files.absolute names) then
        Action.fail (.circular (Files.absolute names))
        else (pure names : Action (List String))) a = _
      dsimp only
      split <;> rfl

end Inert

namespace NodeId

open World (Kept Ready)
open ScriptTree.Action

/-- Takes in the files of names, one after the other. -/
def takeNames (lang : Language) (n : NodeId) (take : String → Action Unit) (names : List String) :
    Action Unit :=
  names.forM fun name => do
    let path ← n.localFile lang name
    take path

/-- Taking in the files that a key lists comes to a path: the files before it are through. -/
structure Lists (lang : Language) (n : NodeId) (key : String) (take : String → Action Unit)
    (a : World) (path : String) (u : World) : Prop where
  exists_names : ∃ text before name after b, n.getText lang key a = (.done (some text), a) ∧
    fileList text = before ++ name :: after ∧ n.takeNames lang take before a = (.done (), b) ∧
    n.localFile lang name b = (.done path, u)

/-- Takes in the text of a file that is marked. -/
def openFile (lang : Language) (n : NodeId) (path : String) (names : List String)
    (take : String → String → Action Unit) : Action Unit := do
  n.setDirectory lang (Files.parentPath names)
  let text ← readFile path
  take (Files.absolute names) text

theorem loadFile_eq (lang : Language) (n : NodeId) (path : String)
    (take : String → String → Action Unit) :
    n.loadFile lang path take = locateFile path >>= fun names =>
      Action.within (·.enterFile (Files.absolute names)) (·.leaveFile (Files.absolute names))
        (n.openFile lang path names take) := rfl

/-- The files that a key lists are taken in, given that this holds of each, where nothing is
expanded. -/
theorem keeps_listed {I : World → Prop} {F : Halt → Prop} (lang : Language) {n : NodeId} {a : World}
    (hinert : ∀ u, I u → u.Inert) (ha : I a) (key : String) {take : String → Action Unit}
    (htake : ∀ path u, n.Lists lang key take a path u → a.Continues u → I u →
      Keeps I F (take path) u fun _ _ => True) :
    Keeps I F (n.eachFile lang key take) a fun _ _ => True := by
  rw [eachFile]
  have hread := getText_of_inert lang (hinert a ha) n key
  apply keeps_after hread
  cases htext : (a.getRaw n key).map a.text with
  | none => exact keeps_pure ha trivial
  | some text =>
      rw [htext] at hread
      apply keeps_forM ha
      intro before name after u hnames hbefore hu hc
      have hlocal := n.localFile_of_inert lang (hinert u hu) name
      apply Keeps.bind (Q := fun _ u' => u' = u)
      · apply keeps_of_eq hlocal hu
        · intro _ _
          rfl
        · intro halt hh
          -- A name that leads nowhere is reported as missing.
          rw [Files.Tree.resolve] at hh
          repeat' split at hh
          all_goals cases hh
      · rintro path u hpath - - rfl
        apply htake path u _ hc hu
        exact ⟨text, before, name, after, u, hread, hnames, hbefore, hpath⟩

section Files

variable {I : World → Prop} {site : NodeId → Prop} {F : Halt → Prop} (lang : Language)
  {n : NodeId} {a : World} (hk : Kept I site)

include hk

theorem keeps_setDirectory (h : a.Ready I site n) (path : String) :
    Keeps I F (n.setDirectory lang path) a fun _ _ => True := by
  have hrun := n.setDirectory_of_inert lang (hk.inert a h.holds) path
  have hput : I (a.put n directoryKey (.text path)) := hk.putText h.holds h.site _ _
  have hcontinues := World.continues_put a n directoryKey (.text path)
  constructor
  all_goals rw [hrun]
  · split
    · exact h.holds
    · split
      · exact h.holds
      · dsimp only
        split
        · exact h.holds
        · exact hput
  · split
    · exact World.Continues.refl a
    · split
      · exact World.Continues.refl a
      · dsimp only
        split
        · exact World.Continues.refl a
        · exact hcontinues
  · intro _ _
    trivial
  · intro h hh
    split at hh
    · cases hh
    · split at hh
      · cases hh
      · cases hh

/-- A marked file is opened, given what is done with its text. -/
theorem keeps_openFile (h : a.Ready I site n) (path : String) (names : List String)
    {take : String → String → Action Unit}
    (htake : ∀ text u, n.setDirectory lang (Files.parentPath names) a = (.done (), u) →
      readFile path u = (.done text, u) → a.Continues u → u.Ready I site n →
      Keeps I F (take (Files.absolute names) text) u fun _ _ => True) :
    Keeps I F (n.openFile lang path names take) a fun _ _ => True := by
  rw [openFile]
  apply (keeps_setDirectory lang hk h _).bind
  intro _ u hset hu hc _
  apply Keeps.bind (Q := fun _ u' => u' = u)
  · apply keeps_of_eq (readFile_apply path) hu
    · intro _ _
      rfl
    · intro halt hh
      cases hread : u.files.read path <;> rw [hread] at hh <;> cases hh
  · rintro text u hread - - rfl
    exact htake text u hset hread hc (h.later hc hu)

/-- A file is loaded, given what is done when it is marked. It is circular only when it is marked
already. -/
theorem keeps_loadFile (h : a.Ready I site n) (path : String) {take : String → String → Action Unit}
    (hcircular : ∀ names, a.files.locate path = .ok names → Files.absolute names ∈ a.loading →
      F (.circular (Files.absolute names)))
    (hopen : ∀ names, locateFile path a = (.done names, a) →
      (a.enterFile (Files.absolute names)).Ready I site n →
      Keeps I F (n.openFile lang path names take) (a.enterFile (Files.absolute names))
        fun _ _ => True) :
    Keeps I F (n.loadFile lang path take) a fun _ _ => True := by
  rw [loadFile_eq]
  have hlocate := locateFile_apply (a := a) path
  apply Keeps.bind (Q := fun _ u => u = a)
  · apply keeps_of_eq hlocate h.holds
    · intro _ _
      rfl
    · intro halt hh
      cases hnames : a.files.locate path with
      | error fault =>
          rw [hnames] at hh
          cases hh
      | ok names =>
          rw [hnames] at hh
          dsimp only at hh
          split at hh
          · -- The file is under way.
            rename_i hmarked
            rcases Option.some.inj hh with rfl
            exact hcircular names hnames (List.contains_iff_mem.mp hmarked)
          · cases hh
  · rintro names u hnames - - rfl
    apply keeps_within_file hk
    exact hopen names hnames ⟨hk.loading u _ h.holds, h.site, h.lt⟩

theorem keeps_loadProperties (h : a.Ready I site n)
    (read : String → Except Properties.Fault (List (String × String))) (path : String) :
    Keeps I F (n.loadProperties read path) a fun _ _ => True := by
  rw [loadProperties]
  apply Keeps.bind (Q := fun _ u => u = a)
  · apply keeps_of_eq (readFile_apply path) h.holds
    · intro _ _
      rfl
    · intro halt hh
      cases hread : a.files.read path <;> rw [hread] at hh <;> cases hh
  · rintro text _ - - - rfl
    split
    · rename_i properties _
      exact keeps_change (hk.flatten h.holds h.site properties) (World.continues_flatten _ n _)
    · exact keeps_fault h.holds rfl

/-- The files that a key lists are taken in, given that this holds of each. -/
theorem keeps_eachFile (h : a.Ready I site n) (key : String) {take : String → Action Unit}
    (htake : ∀ path u, n.Lists lang key take a path u → a.Continues u → u.Ready I site n →
      Keeps I F (take path) u fun _ _ => True) :
    Keeps I F (n.eachFile lang key take) a fun _ _ => True := by
  apply keeps_listed lang hk.inert h.holds
  intro path u hlists hc hu
  exact htake path u hlists hc (h.later hc hu)

/-- Taking in the files that a key lists comes to a world of the same load. -/
theorem Lists.ready {key path : String} {take : String → Action Unit} {u : World}
    (hlists : n.Lists lang key take a path u) (h : a.Ready I site n)
    (htake : ∀ path u, u.Ready I site n →
      Keeps I (fun _ => True) (take path) u fun _ _ => True) :
    u.Ready I site n ∧ a.Continues u := by
  obtain ⟨text, before, name, after, b, -, -, hbefore, hlocal⟩ := hlists.exists_names
  have hkeeps : Keeps I (fun _ => True) (n.takeNames lang take before) a fun _ _ => True := by
    apply keeps_forM h.holds
    intro _ name _ u _ _ hu hc
    apply Keeps.bind (Q := fun _ u' => u' = u)
    · apply keeps_of_eq (n.localFile_of_inert lang (hk.inert u hu) name) hu
      · intro _ _
        rfl
      · intro _ _
        trivial
    · rintro path u - - - rfl
      exact htake path u (h.later hc hu)
  obtain ⟨hb, hc, -⟩ := hkeeps.of_done hbefore
  rw [n.localFile_of_inert lang (hk.inert b hb)] at hlocal
  rcases (Prod.mk.inj hlocal).2 with rfl
  exact ⟨h.later hc hb, hc⟩

end Files

end NodeId

end ScriptTree
