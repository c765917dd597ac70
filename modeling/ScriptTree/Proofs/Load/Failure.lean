import ScriptTree.Proofs.Load.Overwriting
import ScriptTree.Proofs.Load.Passage

/-!
# Loads that fail

A load builds its nodes apart from those that were there and merges them at its end, so when it
fails, wherever that is, the nodes that were there are as before (`World.Unchanged`). Loading a file
writes one thing earlier: the directory of the file under `directoryKey` of the receiving node. An
entry that was stored there is gone then, and with it may be the parents of other nodes
(`World.UnchangedBut`). `NodeId.failed_load_keeps` says so of every load that can fail.
-/

set_option autoImplicit false

namespace ScriptTree

namespace World

/-- The nodes that were there keep their entries, their names and their parents, and what belongs to
the run as a whole is the same. -/
structure Unchanged (w w' : World) : Prop where
  cell : ∀ m : NodeId, m.index < w.cells.size → w'.cell m = w.cell m
  parent : ∀ m : NodeId, m.index < w.cells.size → w'.parent? m = w.parent? m
  static : w'.static = w.static
  frames : w'.frames = w.frames
  loading : w'.loading = w.loading

/-- The same, save that the directory of a node may have been written. A node keeps its parent,
unless that lies below the value that was the directory before. -/
structure UnchangedBut (n : NodeId) (w w' : World) : Prop where
  cell : ∀ m : NodeId, m.index < w.cells.size → m ≠ n → w'.cell m = w.cell m
  directory : w'.cell n = w.cell n ∨ ∃ path, w'.cell n =
    { w.cell n with entries := (w.cell n).entries.insert directoryKey (.text path) }
  parent : ∀ m : NodeId, m.index < w.cells.size → w'.parent? m = w.parent? m ∨
    w'.parent? m = none ∧ ∃ value p, w.getRaw n directoryKey = some value ∧
      w.parent? m = some p ∧ ∃ r ∈ value.nodes, w.Below r p
  static : w'.static = w.static
  frames : w'.frames = w.frames
  loading : w'.loading = w.loading

namespace Unchanged

variable {w w' : World}

theorem refl (w : World) : w.Unchanged w :=
  ⟨fun _ _ => rfl, fun _ _ => rfl, rfl, rfl, rfl⟩

/-- A load that has left the nodes alone that were there. -/
theorem of_grows (h : w.Grows w') (hc : w.Continues w') : w.Unchanged w' where
  cell := h.old
  parent _ hm := (h.extends_of_continues hc).parent?_eq h.closed hm
  static := hc.static
  frames := hc.frames
  loading := hc.loading

end Unchanged

/-- A world where a node has written its directory. -/
theorem unchangedBut_put {w : World} {n : NodeId} (hn : n.index < w.cells.size) (path : String) :
    UnchangedBut n w (w.put n directoryKey (.text path)) := by
  have hcontinues := continues_put w n directoryKey (.text path)
  constructor
  case cell =>
    intro m _ hne
    apply cell_put_of_ne hne.symm
    intro h
    cases h
  case directory => exact .inr ⟨path, cell_put_self hn⟩
  case parent =>
    intro m _
    exact parent?_put_text hn directoryKey path m
  case static => exact hcontinues.static
  case frames => exact hcontinues.frames
  case loading => exact hcontinues.loading

namespace UnchangedBut

variable {n : NodeId} {w w' w'' : World}

theorem of_unchanged (hn : n.index < w.cells.size) (h : w.Unchanged w') : UnchangedBut n w w' where
  cell m hm _ := h.cell m hm
  directory := .inl (h.cell n hn)
  parent m hm := .inl (h.parent m hm)
  static := h.static
  frames := h.frames
  loading := h.loading

/-- What comes after the directory leaves the nodes alone. -/
theorem trans (h : UnchangedBut n w w') (hn : n.index < w.cells.size)
    (hsize : w.cells.size ≤ w'.cells.size) (h' : w'.Unchanged w'') : UnchangedBut n w w'' where
  cell m hm hne := (h'.cell m (Nat.lt_of_lt_of_le hm hsize)).trans (h.cell m hm hne)
  directory := by
    rw [h'.cell n (Nat.lt_of_lt_of_le hn hsize)]
    exact h.directory
  parent m hm := by
    rw [h'.parent m (Nat.lt_of_lt_of_le hm hsize)]
    exact h.parent m hm
  static := h'.static.trans h.static
  frames := h'.frames.trans h.frames
  loading := h'.loading.trans h.loading

/-- The mark of a file is taken away. -/
theorem leaveFile {file : String} (h : UnchangedBut n (w.enterFile file) w') :
    UnchangedBut n w (w'.leaveFile file) where
  cell := h.cell
  directory := h.directory
  parent m hm := by
    have hbefore : (w.enterFile file).parent? m = w.parent? m := parent?_loading w _ m
    have hafter : (w'.leaveFile file).parent? m = w'.parent? m := parent?_loading w' _ m
    rw [hafter]
    rcases h.parent m hm with hsame | ⟨hnone, value, p, hvalue, hp, hbelow⟩
    · exact .inl (hsame.trans hbefore)
    · exact .inr ⟨hnone, value, p, hvalue, hbefore ▸ hp, hbelow⟩
  static := h.static
  frames := h.frames
  loading := by
    have hloading : w'.loading = file :: w.loading := h.loading
    rw [World.leaveFile, hloading, List.erase_cons_head]

end UnchangedBut

end World

namespace Action

variable {α β : Type} {I : World → Prop} {F : Halt → Prop} {w w' : World} {cause : Failure}

/-- One action after another fails where the first or the second does. -/
theorem bind_eq_failed {p : Action α} {f : α → Action β} (h : (p >>= f) w = (.failed cause, w')) :
    p w = (.failed cause, w') ∨ ∃ x u, p w = (.done x, u) ∧ f x u = (.failed cause, w') := by
  rw [bind_apply] at h
  rcases hp : p w with ⟨x | found | _, u⟩
  · rw [hp] at h
    exact .inr ⟨x, u, rfl, h⟩
  · rw [hp] at h
    obtain ⟨hcause, rfl⟩ := Prod.mk.inj h
    rcases Outcome.failed.inj hcause with rfl
    exact .inl rfl
  · rw [hp] at h
    cases (Prod.mk.inj h).1

/-- A load that keeps to new nodes leaves the others alone. -/
theorem Keeps.unchanged {p : Action α} {Q : α → World → Prop} {outcome : Outcome α}
    (h : Keeps w.Grows F p w Q) (hp : p w = (outcome, w')) : w.Unchanged w' := by
  have hkept := h.kept
  have hcontinues := h.continues
  rw [hp] at hkept hcontinues
  exact World.Unchanged.of_grows hkept hcontinues

end Action

namespace NodeId

open ScriptTree.Action

variable (lang : Language) {n : NodeId} {w w' : World} {cause : Failure}

section Failed

variable (hclosed : w.Closed) (hinert : w.Inert) (hn : n.index < w.cells.size)

include hclosed hinert hn

theorem failed_newChild {text : String}
    (h : n.newChild (introspect lang) text w = (.failed cause, w')) : w.Unchanged w' :=
  (keeps_newChild_of_upholds (World.kept_grows w) (upholds_introspect lang (World.kept_grows w))
    (World.Grows.refl hclosed hinert) hn text).unchanged h

/-- A text that is merged into a node fails before the merge. -/
theorem failed_takeText {format : CommandLine.Format} {source text : String}
    (h : n.takeText (introspect lang) lang format source text w = (.failed cause, w')) :
    w.Unchanged w' := by
  cases format with
  | json =>
      rcases bind_eq_failed h with hchild | ⟨item, u, -, hmerge⟩
      · exact failed_newChild lang hclosed hinert hn hchild
      · cases (Prod.mk.inj hmerge).1
  | xml =>
      rw [takeText, Document.append_eq] at h
      rcases bind_eq_failed h with hbuild | ⟨item, u, -, hmerge⟩
      · exact (keeps_build_of_upholds lang (World.kept_grows w)
          (upholds_introspect lang (World.kept_grows w)) (World.Grows.refl hclosed hinert) hn source
          text).unchanged hbuild
      · cases (Prod.mk.inj hmerge).1

theorem failed_insertJson {key text : String}
    (h : n.insertJson (introspect lang) key text w = (.failed cause, w')) : w.Unchanged w' := by
  rcases bind_eq_failed h with hchild | ⟨item, u, -, hstore⟩
  · exact failed_newChild lang hclosed hinert hn hchild
  · cases (Prod.mk.inj hstore).1

/-- A file that is marked has at most written its directory when it fails. -/
theorem failed_openFile {format : CommandLine.Format} {path : String} {names : List String}
    (h : n.openFile lang path names (n.takeText (introspect lang) lang format) w =
      (.failed cause, w')) : w.UnchangedBut n w' := by
  rcases bind_eq_failed h with hset | ⟨_, u, hset, hrest⟩
  · -- Where the directory cannot be set, nothing is stored.
    have hsame : w' = w := by
      rw [setDirectory_of_inert lang hinert] at hset
      split at hset
      · exact (Prod.mk.inj hset).2.symm
      · split at hset
        · exact (Prod.mk.inj hset).2.symm
        · cases (Prod.mk.inj hset).1
    rw [hsame]
    exact .of_unchanged hn (World.Unchanged.refl w)
  · have hwritten : u = w ∨ u = w.put n directoryKey (.text (Files.parentPath names)) := by
      rw [setDirectory_of_inert lang hinert] at hset
      split at hset
      · cases (Prod.mk.inj hset).1
      · split at hset
        · cases (Prod.mk.inj hset).1
        · have hu := (Prod.mk.inj hset).2
          split at hu
          · exact .inl hu.symm
          · exact .inr hu.symm
    -- What follows starts in a world like the first, with the directory or without.
    have hlater : u.Closed ∧ u.Inert ∧ w.cells.size ≤ u.cells.size ∧ w.UnchangedBut n u := by
      rcases hwritten with rfl | rfl
      · exact ⟨hclosed, hinert, Nat.le_refl _, .of_unchanged hn (World.Unchanged.refl u)⟩
      · refine ⟨hclosed.put hn directoryKey ?_, hinert.put n directoryKey _, ?_,
          World.unchangedBut_put hn _⟩
        · intro r hr
          cases hr
        · exact Nat.le_of_eq (World.size_put w n directoryKey _).symm
    obtain ⟨hclosed', hinert', hsize, hbut⟩ := hlater
    rcases bind_eq_failed hrest with hread | ⟨text, u', hread, htake⟩
    · rw [readFile_apply] at hread
      rcases (Prod.mk.inj hread).2 with rfl
      exact hbut
    · rw [readFile_apply] at hread
      rcases (Prod.mk.inj hread).2 with rfl
      exact hbut.trans hn hsize
        (failed_takeText lang hclosed' hinert' (Nat.lt_of_lt_of_le hn hsize) htake)

theorem failed_load {format : CommandLine.Format} {path : String}
    (h : CommandLine.load lang n path format w = (.failed cause, w')) : w.UnchangedBut n w' := by
  rw [load_eq_takeFile, takeFile, loadFile_eq] at h
  rcases bind_eq_failed h with hlocate | ⟨names, u, hlocate, hwithin⟩
  · rw [locateFile_apply] at hlocate
    rcases (Prod.mk.inj hlocate).2 with rfl
    exact .of_unchanged hn (World.Unchanged.refl w)
  · rw [locateFile_apply] at hlocate
    rcases (Prod.mk.inj hlocate).2 with rfl
    obtain ⟨hopened, rfl⟩ := Prod.mk.inj hwithin
    have hmarked := failed_openFile lang
      (World.closed_loading hclosed (Files.absolute names :: w.loading)) hinert hn
      (Prod.ext hopened rfl)
    exact hmarked.leaveFile

end Failed

/-- Where no template is expanded and no script runs, whatever the text and the files, and wherever
in the load the failure comes up: a literal or a document that fails to be merged or stored leaves
every node that was there as it is. A file that fails to be loaded may have written the directory
of the receiving node, and else takes no more than the parents that lie below what was stored
there. -/
theorem failed_load_keeps (hclosed : w.Closed) (hinert : w.Inert) (hn : n.index < w.cells.size)
    (key source text path : String) :
    (n.appendJson (introspect lang) text w = (.failed cause, w') → w.Unchanged w') ∧
      (Document.append (introspect lang) lang n source text w = (.failed cause, w') →
        w.Unchanged w') ∧
      (n.insertJson (introspect lang) key text w = (.failed cause, w') → w.Unchanged w') ∧
      ∀ format, CommandLine.load lang n path format w = (.failed cause, w') →
        w.UnchangedBut n w' := by
  refine ⟨?_, ?_, ?_, ?_⟩
  · intro h
    have htake : n.takeText (introspect lang) lang .json source text w = (.failed cause, w') := h
    exact failed_takeText lang hclosed hinert hn htake
  · intro h
    have htake : n.takeText (introspect lang) lang .xml source text w = (.failed cause, w') := h
    exact failed_takeText lang hclosed hinert hn htake
  · exact failed_insertJson lang hclosed hinert hn
  · intro format
    exact failed_load lang hclosed hinert hn

end NodeId

/-- The action failed. -/
def Outcome.isFailed {α : Type} : Outcome α → Bool
  | .failed _ => true
  | _ => false

theorem Action.exists_failed_of_isFailed {α : Type} {p : Action α} {w : World}
    (h : (p w).1.isFailed = true) : ∃ cause, p w = (.failed cause, (p w).2) := by
  rcases hresult : p w with ⟨value | cause | _, w'⟩
  · rw [hresult] at h
    cases h
  · exact ⟨cause, rfl⟩
  · rw [hresult] at h
    cases h

/-- A node with another one under its directory, which is the parent of a third that both hold, and
a file that holds no object. -/
def World.housed : World :=
  let w := ((World.initial ⟨false, false, 0⟩
    ⟨.directory [("bad.json", .file (some "[]"))], []⟩).create true).2
  let w := (w.create true).2.put ⟨1⟩ "d" (.node ⟨2⟩)
  let w := (w.create true).2.put ⟨3⟩ "x" (.node ⟨2⟩)
  (w.put ⟨1⟩ directoryKey (.node ⟨3⟩)).hold [⟨1⟩]

theorem World.closed_housed : World.housed.Closed := by
  have hroot := (World.closed_initial ⟨false, false, 0⟩
    ⟨.directory [("bad.json", .file (some "[]"))], []⟩).create true
  have hfirst := @Closed.put _ (hroot.create true) ⟨1⟩ (by decide) "d" (.node ⟨2⟩) (by decide)
  have hsecond := @Closed.put _ (hfirst.create true) ⟨3⟩ (by decide) "x" (.node ⟨2⟩) (by decide)
  have hthird := @Closed.put _ hsecond ⟨1⟩ (by decide) directoryKey (.node ⟨3⟩) (by decide)
  refine ⟨hthird.references, hthird.parents, ?_⟩
  decide

namespace NodeId

/-- A literal fails in a node inside it that names the file, and the file fails by itself. -/
theorem failed_load_keeps_housed :
    (∃ cause w', (⟨1⟩ : NodeId).appendJson (introspect (.ofFuel 0))
        "\x7ba: 1, b: \x7bc: \x7b$json: 'bad.json'\x7d\x7d\x7d" World.housed =
          (.failed cause, w') ∧ World.housed.Unchanged w') ∧
      ∃ cause w', CommandLine.load (.ofFuel 0) ⟨1⟩ "bad.json" .json World.housed =
          (.failed cause, w') ∧ World.housed.UnchangedBut ⟨1⟩ w' := by
  have hinert : World.housed.Inert := World.inert_of_engine rfl rfl
  constructor
  · have hfailed : ((⟨1⟩ : NodeId).appendJson (introspect (.ofFuel 0))
        "\x7ba: 1, b: \x7bc: \x7b$json: 'bad.json'\x7d\x7d\x7d"
        World.housed).1.isFailed = true := by
      decide +kernel
    obtain ⟨cause, hrun⟩ := Action.exists_failed_of_isFailed hfailed
    obtain ⟨happend, -, -, -⟩ := failed_load_keeps (n := ⟨1⟩) (.ofFuel 0) World.closed_housed
      hinert (by decide) "" "" _ ""
    exact ⟨cause, _, hrun, happend hrun⟩
  · have hfailed : (CommandLine.load (.ofFuel 0) ⟨1⟩ "bad.json" .json
        World.housed).1.isFailed = true := by
      decide +kernel
    obtain ⟨cause, hrun⟩ := Action.exists_failed_of_isFailed hfailed
    obtain ⟨-, -, -, hload⟩ := failed_load_keeps (n := ⟨1⟩) (.ofFuel 0) World.closed_housed
      hinert (by decide) "" "" "" "bad.json"
    exact ⟨cause, _, hrun, hload .json hrun⟩

/-- The directory takes the place of the node that was the parent of another one. -/
theorem failed_load_drops_parent :
    ∃ cause w', CommandLine.load (.ofFuel 0) ⟨1⟩ "bad.json" .json World.housed =
        (.failed cause, w') ∧
      World.housed.parent? ⟨2⟩ = some ⟨3⟩ ∧ w'.parent? ⟨2⟩ = none := by
  have hfailed : (CommandLine.load (.ofFuel 0) ⟨1⟩ "bad.json" .json
      World.housed).1.isFailed = true := by
    decide +kernel
  obtain ⟨cause, hrun⟩ := Action.exists_failed_of_isFailed hfailed
  refine ⟨cause, _, hrun, ?_, ?_⟩
  · decide +kernel
  · decide +kernel

end NodeId

end ScriptTree
