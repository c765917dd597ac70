import Mathlib.Logic.Relation
import ScriptTree.Proofs.Load.Passage

/-!
# Circular loads

Where no template is expanded and no script runs, a load can go on without end only by asking for a
file that is being loaded already. A load on its way is a `Stage`: the part that starts and the
world where it starts. `Leads` tells which stages a stage leads to, file by file and node by node.
No stage marks a file twice (`Stage.Within`), and a marked file counts against the bound on loads
inside each other, so the bound is never reached; a load that fails over a circular file has come to
that file from within its own load (`Load.circular_only_within`).
-/

set_option autoImplicit false

namespace ScriptTree

/-! ## The files of a tree -/

namespace Files

namespace Place

mutual

/-- The names that lead from a place to its files. -/
def filePaths : Place → List (List String)
  | .file _ => [[]]
  | .directory members => memberPaths members

/-- The names that lead to the files of the members of a directory. -/
def memberPaths : List (String × Place) → List (List String)
  | [] => []
  | (name, place) :: rest => (filePaths place).map (name :: ·) ++ memberPaths rest

end

mutual

theorem length_filePaths : ∀ place : Place, place.filePaths.length = place.countFiles
  | .file _ => by simp [filePaths, countFiles]
  | .directory members => by
      rw [filePaths, countFiles]
      exact length_memberPaths members

theorem length_memberPaths : ∀ members : List (String × Place),
    (memberPaths members).length = countMembers members
  | [] => by simp [memberPaths, countMembers]
  | (name, place) :: rest => by
      rw [memberPaths, countMembers, List.length_append, List.length_map, length_filePaths place,
        length_memberPaths rest]

end

theorem mem_memberPaths {name : String} {names : List String} {place : Place}
    (hnames : names ∈ place.filePaths) {members : List (String × Place)}
    (hmem : (name, place) ∈ members) : name :: names ∈ memberPaths members := by
  induction members with
  | nil => cases hmem
  | cons member rest ih =>
      obtain ⟨other, inner⟩ := member
      rw [memberPaths, List.mem_append]
      rcases List.mem_cons.mp hmem with heq | hmem
      · obtain ⟨rfl, rfl⟩ := Prod.mk.inj heq
        exact .inl (List.mem_map_of_mem hnames)
      · exact .inr (ih hmem)

/-- Names that lead to a file are among those of the place. -/
theorem mem_filePaths {names : List String} {content : Option String} {place : Place}
    (h : names.foldlM (fun place name => place.member? name) place = some (.file content)) :
    names ∈ place.filePaths := by
  induction names generalizing place with
  | nil =>
      rcases Option.some.inj h with rfl
      simp [filePaths]
  | cons name rest ih =>
      rw [List.foldlM_cons] at h
      cases hmember : place.member? name with
      | none =>
          rw [hmember] at h
          cases h
      | some inner =>
          rw [hmember] at h
          cases place with
          | file _ => cases hmember
          | directory members =>
              rw [filePaths]
              exact mem_memberPaths (ih h) (Entries.mem_of_get?_eq_some hmember)

end Place

namespace Tree

/-- The absolute paths of the files of a tree. -/
def filePaths (t : Tree) : List String := t.root.filePaths.map absolute

theorem length_filePaths (t : Tree) : t.filePaths.length + 1 = t.loadLimit := by
  rw [filePaths, List.length_map, Place.length_filePaths, loadLimit]

/-- A path that can be read leads to a file. -/
theorem absolute_mem_filePaths {t : Tree} {path text : String} {names : List String}
    (hlocate : t.locate path = .ok names) (hread : t.read path = .ok text) :
    absolute names ∈ t.filePaths := by
  rw [read, hlocate] at hread
  dsimp only [bind, Except.bind] at hread
  split at hread
  · rename_i found
    exact List.mem_map_of_mem (Place.mem_filePaths found)
  · cases hread
  · cases hread
  · cases hread

end Tree

end Files

/-! ## Stages of a load -/

/-- A load, or a part of one, for a node. -/
inductive Load where
  /-- The instructions of a node are carried out. -/
  | instructions (n : NodeId)
  /-- A file is asked for. -/
  | file (format : CommandLine.Format) (n : NodeId) (path : String)
  /-- A file is marked as being loaded, and is opened. -/
  | opened (format : CommandLine.Format) (n : NodeId) (path : String) (names : List String)
  /-- A text is merged into the node. -/
  | text (format : CommandLine.Format) (n : NodeId) (source text : String)
  /-- The node of a literal is stored under a key. -/
  | insertion (n : NodeId) (key text : String)
  /-- The node of a literal is built. -/
  | child (n : NodeId) (text : String)

namespace Load

/-- The node that a load is for. -/
def node : Load → NodeId
  | .instructions n => n
  | .file _ n _ => n
  | .opened _ n _ _ => n
  | .text _ n _ _ => n
  | .insertion n _ _ => n
  | .child n _ => n

/-- What a load does, given how instructions of nodes are carried out. -/
def run (introspect : NodeId → Action Unit) (lang : Language) : Load → Action Unit
  | .instructions n => introspect n
  | .file format n path => n.takeFile introspect lang format path
  | .opened format n path names =>
      n.openFile lang path names (n.takeText introspect lang format)
  | .text format n source content => n.takeText introspect lang format source content
  | .insertion n key content => n.insertJson introspect key content
  | .child n content => do
      let _ ← n.newChild introspect content
      pure ()

/-- The path and the names of a file that is marked and not open yet. -/
def pending? : Load → Option (String × List String)
  | .opened _ _ path names => some (path, names)
  | _ => none

/-- A file that is asked for is not marked yet, which the bound still allows for. -/
def unmarked : Load → Nat
  | .file _ _ _ => 1
  | _ => 0

end Load

/-- Carries out instructions with at most as many loads inside each other as the bound. Without one
it is set from the number of files. -/
def NodeId.introspectUpTo (lang : Language) : Option Nat → NodeId → Action Unit
  | none => introspect lang
  | some bound => introspectWithin lang bound

/-- A part of a load when it starts, with the bound on the loads inside each other. -/
structure Stage where
  bound : Option Nat
  load : Load
  world : World

namespace Stage

open World (Ready)
open NodeId (introspectUpTo)

/-- The file is asked for here. -/
def Asks (s : Stage) (file : String) : Prop :=
  ∃ format n path names, s.load = .file format n path ∧ s.world.files.locate path = .ok names ∧
    file = Files.absolute names

/-- The load halts here. -/
def HaltsWith (s : Stage) : Halt → Prop
  | .circular file => s.Asks file ∧ file ∈ s.world.loading
  | .exhausted => s.bound = some 0 ∧ ∃ n, s.load = .instructions n

/-- A part of a load starts with the next part, or comes to it when others are done. -/
inductive Leads (lang : Language) : Stage → Stage → Prop
  /-- The bound is set. -/
  | bounded {n : NodeId} {w : World} :
      Leads lang ⟨none, .instructions n, w⟩ ⟨some (w.files.loadLimit + 1), .instructions n, w⟩
  /-- Instructions ask for a file. -/
  | asked {bound : Nat} {n : NodeId} {format : CommandLine.Format} {path : String} {w u : World} :
      n.Requests (NodeId.introspectWithin lang bound) lang w format path u →
      Leads lang ⟨some (bound + 1), .instructions n, w⟩ ⟨some bound, .file format n path, u⟩
  /-- The file is marked. -/
  | marked {bound : Option Nat} {n : NodeId} {format : CommandLine.Format} {path : String}
      {names : List String} {w : World} :
      Action.locateFile path w = (.done names, w) →
      Leads lang ⟨bound, .file format n path, w⟩
        ⟨bound, .opened format n path names, w.enterFile (Files.absolute names)⟩
  /-- The text of the file is there. -/
  | read {bound : Option Nat} {n : NodeId} {format : CommandLine.Format} {path text : String}
      {names : List String} {w u : World} :
      n.setDirectory lang (Files.parentPath names) w = (.done (), u) →
      Action.readFile path u = (.done text, u) →
      Leads lang ⟨bound, .opened format n path names, w⟩
        ⟨bound, .text format n (Files.absolute names) text, u⟩
  /-- A literal is built before it is merged. -/
  | merged {bound : Option Nat} {n : NodeId} {w : World} (source text : String) :
      Leads lang ⟨bound, .text .json n source text, w⟩ ⟨bound, .child n text, w⟩
  /-- A literal is built before it is stored. -/
  | inserted {bound : Option Nat} {n : NodeId} {w : World} (key text : String) :
      Leads lang ⟨bound, .insertion n key text, w⟩ ⟨bound, .child n text, w⟩
  /-- A literal comes to the instructions of a node. -/
  | filled {bound : Option Nat} {n m : NodeId} {text : String} {members : List (String × Json)}
      {w u : World} :
      Json.readLenient? text = some (.object members) →
      NodeId.Fills (introspectUpTo lang bound) (w.createUnder (some n)).1 (.object members)
        ((w.createUnder (some n)).2.hold [(w.createUnder (some n)).1]) m u →
      Leads lang ⟨bound, .child n text, w⟩ ⟨bound, .instructions m, u⟩
  /-- A document comes to the instructions of a node. -/
  | closed {bound : Option Nat} {n m : NodeId} {source text : String} {w u : World} :
      Document.Setting.Closes
        ⟨introspectUpTo lang bound, lang, source, (w.createUnder (some n)).1⟩ []
        (Xml.read text).events
        ((w.createUnder (some n)).2.hold [(w.createUnder (some n)).1]) m u →
      Leads lang ⟨bound, .text .xml n source text, w⟩ ⟨bound, .instructions m, u⟩

/-- A stage where the load halts that the given one leads to. -/
def Meets (lang : Language) (s : Stage) (h : Halt) : Prop :=
  ∃ t, Relation.ReflTransGen (Leads lang) s t ∧ t.HaltsWith h

theorem Meets.of_leads {lang : Language} {s t : Stage} {h : Halt} (hlead : Leads lang s t)
    (ht : Meets lang t h) : Meets lang s h := by
  obtain ⟨u, hcome, hhalts⟩ := ht
  exact ⟨u, .head hlead hcome, hhalts⟩

/-! ## Where halts come from -/

/-- The part of the load that starts here halts only where it comes to such a stage. -/
def Sound (lang : Language) (s : Stage) : Prop :=
  Action.Keeps World.Inert (Meets lang s) (s.load.run (introspectUpTo lang s.bound) lang) s.world
    fun _ _ => True

section Sound

open ScriptTree.Action

variable {lang : Language} {bound : Option Nat} {n : NodeId} {w : World}

/-- What a stage leads to is a part of it. -/
theorem Sound.led {s t : Stage} (ht : Sound lang t) (hlead : Leads lang s t) :
    Keeps World.Inert (Meets lang s) (t.load.run (introspectUpTo lang t.bound) lang) t.world
      fun _ _ => True := by
  apply Keeps.mono ht
  · intro halt hmeets
    exact hmeets.of_leads hlead
  · intro _ _ h
    exact h

/-- No template is expanded in the world, and the node is one of it. -/
abbrev Plain (n : NodeId) (w : World) : Prop := w.Ready World.Inert (fun _ => True) n

/-- Instructions of every node halt only where they come to such a stage, with this bound. -/
def SoundAt (lang : Language) (bound : Option Nat) : Prop :=
  ∀ n w, Plain n w → Sound lang ⟨bound, .instructions n, w⟩

theorem keeps_child (hi : SoundAt lang bound) (h : Plain n w) (text : String) :
    Keeps World.Inert (Meets lang ⟨bound, .child n text, w⟩)
      (n.newChild (introspectUpTo lang bound) text) w fun item u =>
        w.cells.size ≤ item.index ∧ item.index < u.cells.size := by
  apply NodeId.keeps_newChild World.kept_inert h.holds h.lt text
  intro members m u hmembers hfills hu
  exact (hi m u hu).led (.filled hmembers hfills)

theorem sound_child (hi : SoundAt lang bound) (h : Plain n w) (text : String) :
    Sound lang ⟨bound, .child n text, w⟩ := by
  have hrun : Keeps World.Inert (Meets lang ⟨bound, .child n text, w⟩)
      (n.newChild (introspectUpTo lang bound) text >>= fun _ => pure ()) w fun _ _ => True := by
    apply (keeps_child hi h text).bind
    intro _ u _ hu _ _
    exact keeps_pure hu trivial
  exact hrun

theorem sound_text (hi : SoundAt lang bound) (h : Plain n w) (format : CommandLine.Format)
    (source text : String) : Sound lang ⟨bound, .text format n source text, w⟩ := by
  cases format with
  | json =>
      have hchild := (keeps_child hi h text).mono
        (fun _ => Meets.of_leads (.merged source text)) fun _ _ hitem => hitem
      exact NodeId.keeps_mergeFrom World.kept_inert h hchild
  | xml =>
      have hbuild : Keeps World.Inert (Meets lang ⟨bound, .text .xml n source text, w⟩)
          (Document.build (introspectUpTo lang bound) lang n source text) w fun item u =>
            w.cells.size ≤ item.index ∧ item.index < u.cells.size := by
        apply Document.keeps_build lang World.kept_inert h.holds h.lt source text
        intro m u hcloses hu
        exact (hi m u hu).led (.closed hcloses)
      have hrun := NodeId.keeps_mergeFrom World.kept_inert h hbuild
      rw [← Document.append_eq] at hrun
      exact hrun

theorem sound_insertion (hi : SoundAt lang bound) (h : Plain n w) (key text : String) :
    Sound lang ⟨bound, .insertion n key text, w⟩ := by
  have hchild := (keeps_child hi h text).mono
    (fun _ => Meets.of_leads (.inserted key text)) fun _ _ hitem => hitem
  have hrun : Keeps World.Inert (Meets lang ⟨bound, .insertion n key text, w⟩)
      (n.insertJson (introspectUpTo lang bound) key text) w fun _ _ => True := by
    apply hchild.bind
    intro item u _ hu _ _
    apply keeps_change
    · exact World.Inert.put (World.inert_modifyCell hu item rfl) n key _
    · exact (World.continues_setName u item key).trans (World.continues_put _ n key _)
  exact hrun

theorem sound_opened (hi : SoundAt lang bound) (h : Plain n w) (format : CommandLine.Format)
    (path : String) (names : List String) : Sound lang ⟨bound, .opened format n path names, w⟩ := by
  apply NodeId.keeps_openFile lang World.kept_inert h path names
  intro text u hset hread _ hu
  exact (sound_text hi hu format _ text).led (.read hset hread)

theorem sound_file (hi : SoundAt lang bound) (h : Plain n w) (format : CommandLine.Format)
    (path : String) : Sound lang ⟨bound, .file format n path, w⟩ := by
  apply NodeId.keeps_loadFile lang World.kept_inert h path
  · -- The file is under way where it is asked for.
    intro names hnames hloading
    exact ⟨_, .refl, ⟨format, n, path, names, rfl, hnames, rfl⟩, hloading⟩
  · intro names hlocate hmarked
    exact (sound_opened hi hmarked format path names).led (.marked hlocate)

theorem soundAt_some (bound : Nat) : SoundAt lang (some bound) := by
  induction bound with
  | zero =>
      intro n w h
      apply keeps_of_eq rfl h.holds
      · intro _ _
        trivial
      · intro halt hh
        rcases Option.some.inj hh with rfl
        exact ⟨_, .refl, rfl, n, rfl⟩
  | succ bound ih =>
      intro n w h
      apply NodeId.keeps_introspectWith lang World.kept_inert h
      intro format path u hrequests _ hu
      exact (sound_file ih hu format path).led (.asked hrequests)

theorem soundAt (bound : Option Nat) : SoundAt lang bound := by
  cases bound with
  | some bound => exact soundAt_some bound
  | none =>
      intro n w h
      apply keeps_inspect
      exact (soundAt_some _ n w h).led .bounded

/-- Every load halts only where it comes to a stage that halts. -/
theorem sound {s : Stage} (h : Plain s.load.node s.world) : Sound lang s := by
  obtain ⟨bound, load, w⟩ := s
  have hi : SoundAt lang bound := soundAt bound
  cases load with
  | instructions n => exact hi n w h
  | file format n path => exact sound_file hi h format path
  | opened format n path names => exact sound_opened hi h format path names
  | text format n source text => exact sound_text hi h format source text
  | insertion n key text => exact sound_insertion hi h key text
  | child n text => exact sound_child hi h text

end Sound

/-! ## What stages have marked -/

/-- The file is marked here and not open yet. -/
def Marks (s : Stage) (file : String) : Prop :=
  ∃ path names, s.load.pending? = some (path, names) ∧ s.world.files.locate path = .ok names ∧
    file = Files.absolute names

/-- What a stage has that another one leads to: it is in the same load, save that a file is marked
that was asked for and not under way. Either the bound is set, or what it allows for stays. -/
structure Advances (s t : Stage) : Prop where
  plain : Plain t.load.node t.world
  files : t.world.files = s.world.files
  fresh : ∃ fresh, t.world.loading = fresh ++ s.world.loading ∧
    (∀ file ∈ fresh, fresh = [file] ∧ s.Asks file ∧ file ∉ s.world.loading ∧ t.Marks file) ∧
    ∀ limit, t.bound = some limit → limit = s.world.files.loadLimit + 1 ∨
      ∃ before, s.bound = some before ∧
        before + s.load.unmarked ≤ limit + t.load.unmarked + fresh.length
  read : ∀ file, s.Marks file → file ∈ s.world.files.filePaths

section Advances

variable {lang : Language} {s t : Stage}

theorem upholds (lang : Language) (bound : Option Nat) :
    NodeId.Upholds World.Inert (fun _ => True) (introspectUpTo lang bound) := by
  cases bound with
  | none => exact NodeId.upholds_introspect lang World.kept_inert
  | some bound => exact NodeId.upholds_introspectWithin lang World.kept_inert bound

theorem not_marks (h : s.load.pending? = none) (file : String) : ¬ s.Marks file := by
  rintro ⟨path, names, hpending, -⟩
  rw [h] at hpending
  cases hpending

/-- A stage where nothing is marked besides. -/
theorem Advances.same (hplain : Plain t.load.node t.world) (hload : s.world.SameLoad t.world)
    (hread : ∀ file, s.Marks file → file ∈ s.world.files.filePaths)
    (hbound : ∀ limit, t.bound = some limit → limit = s.world.files.loadLimit + 1 ∨
      ∃ before, s.bound = some before ∧ before + s.load.unmarked ≤ limit + t.load.unmarked) :
    s.Advances t := by
  refine ⟨hplain, hload.files, ⟨[], hload.loading, ?_, hbound⟩, hread⟩
  intro file hfile
  cases hfile

/-- A node that is created for another one is as plain as that. -/
theorem plain_createUnder {n : NodeId} {w : World} (h : Plain n w) :
    Plain (w.createUnder (some n)).1
      ((w.createUnder (some n)).2.hold [(w.createUnder (some n)).1]) := by
  obtain ⟨hindex, hsize⟩ := World.index_createUnder w n
  have hcreated := World.kept_inert.createUnder w n h.holds h.lt
  refine ⟨hcreated, trivial, ?_⟩
  show (w.createUnder (some n)).1.index < (w.createUnder (some n)).2.cells.size
  omega

/-- A file is located where it is not under way. -/
theorem locate_of_locateFile {path : String} {names : List String} {w u : World}
    (h : Action.locateFile path w = (.done names, u)) :
    w.files.locate path = .ok names ∧ Files.absolute names ∉ w.loading := by
  rw [Action.locateFile_apply] at h
  cases hnames : w.files.locate path with
  | error fault =>
      rw [hnames] at h
      cases (Prod.mk.inj h).1
  | ok found =>
      rw [hnames] at h
      have houtcome := (Prod.mk.inj h).1
      dsimp only at houtcome
      split at houtcome
      · cases houtcome
      · rename_i hmarked
        rcases Outcome.done.inj houtcome with rfl
        exact ⟨rfl, fun hmem => hmarked (List.contains_iff_mem.mpr hmem)⟩

theorem Leads.advances (hplain : Plain s.load.node s.world) (hlead : Leads lang s t) :
    s.Advances t := by
  cases hlead with
  | bounded =>
      apply Advances.same
      · exact hplain
      · exact ⟨rfl, rfl⟩
      · exact fun file hmarks => absurd hmarks (not_marks rfl file)
      · intro limit hlimit
        exact .inl (Option.some.inj hlimit).symm
  | asked hrequests =>
      obtain ⟨hu, hsame⟩ := hrequests.ready lang World.kept_inert (upholds lang (some _)) hplain
      apply Advances.same
      · exact hu
      · exact hsame
      · exact fun file hmarks => absurd hmarks (not_marks rfl file)
      · intro limit hlimit
        rcases Option.some.inj hlimit with rfl
        exact .inr ⟨_, rfl, Nat.le_refl _⟩
  | merged source text =>
      apply Advances.same
      · exact hplain
      · exact ⟨rfl, rfl⟩
      · exact fun file hmarks => absurd hmarks (not_marks rfl file)
      · exact fun limit hlimit => .inr ⟨limit, hlimit, Nat.le_refl _⟩
  | inserted key text =>
      apply Advances.same
      · exact hplain
      · exact ⟨rfl, rfl⟩
      · exact fun file hmarks => absurd hmarks (not_marks rfl file)
      · exact fun limit hlimit => .inr ⟨limit, hlimit, Nat.le_refl _⟩
  | @filled bound n m text members w u hmembers hfills =>
      have hcreated := World.continues_createUnder w (some n)
      obtain ⟨hu, hsame⟩ := hfills.ready World.kept_inert (upholds lang bound)
        (plain_createUnder hplain)
      apply Advances.same
      · exact hu
      · exact hcreated.sameLoad.trans ⟨hsame.loading, hsame.files⟩
      · exact fun file hmarks => absurd hmarks (not_marks rfl file)
      · exact fun limit hlimit => .inr ⟨limit, hlimit, Nat.le_refl _⟩
  | @closed bound n m source text w u hcloses =>
      have hcreated := World.continues_createUnder w (some n)
      obtain ⟨hu, hsame⟩ := hcloses.ready World.kept_inert (upholds lang bound)
        (plain_createUnder hplain) fun e he => (List.not_mem_nil he).elim
      apply Advances.same
      · exact hu
      · exact hcreated.sameLoad.trans ⟨hsame.loading, hsame.files⟩
      · exact fun file hmarks => absurd hmarks (not_marks rfl file)
      · exact fun limit hlimit => .inr ⟨limit, hlimit, Nat.le_refl _⟩
  | @read bound n format path text names w u hset hread =>
      have hkeeps : Action.Keeps World.Inert (fun _ => True)
          (n.setDirectory lang (Files.parentPath names)) w fun _ _ => True :=
        NodeId.keeps_setDirectory lang World.kept_inert hplain _
      obtain ⟨hu, hc, -⟩ := hkeeps.of_done hset
      apply Advances.same
      · exact hplain.later hc hu
      · exact hc.sameLoad
      · -- What can be read is a file of the tree.
        rintro file ⟨path', names', hpending, hlocate, rfl⟩
        cases hpending
        rw [Action.readFile_apply, hc.files] at hread
        cases htext : w.files.read path with
        | ok found => exact Files.Tree.absolute_mem_filePaths hlocate htext
        | error fault =>
            rw [htext] at hread
            cases (Prod.mk.inj hread).1
      · exact fun limit hlimit => .inr ⟨limit, hlimit, Nat.le_refl _⟩
  | @marked bound n format path names w hlocate =>
      obtain ⟨hnames, hfresh⟩ := locate_of_locateFile hlocate
      refine ⟨⟨hplain.holds, trivial, hplain.lt⟩, rfl, ⟨[Files.absolute names], rfl, ?_, ?_⟩, ?_⟩
      · intro file hfile
        rcases List.mem_singleton.mp hfile with rfl
        exact ⟨rfl, ⟨format, n, path, names, rfl, hnames, rfl⟩, hfresh, path, names, rfl, hnames, rfl⟩
      · exact fun limit hlimit => .inr ⟨limit, hlimit, Nat.le_refl _⟩
      · exact fun file hmarks => absurd hmarks (not_marks rfl file)

end Advances

/-- A stage of a load from `v` has marked files behind those that were under way in `v`, none of
them twice, and each lies among the files of the tree when it is open. What is left of the bound and
the marked files are as many as it takes to mark every file. -/
structure Within (v : World) (s : Stage) : Prop where
  plain : Plain s.load.node s.world
  files : s.world.files = v.files
  entered : ∃ entered, s.world.loading = entered ++ v.loading ∧ entered.Nodup ∧
    (∀ file ∈ entered, file ∉ v.loading) ∧
    (∀ file ∈ entered, file ∈ v.files.filePaths ∨ s.Marks file) ∧
    ∀ limit, s.bound = some limit →
      v.files.loadLimit + 1 ≤ entered.length + limit + s.load.unmarked

namespace Within

variable {lang : Language} {v : World} {s t : Stage}

/-- Where a load starts. -/
theorem start {load : Load} (hplain : Plain load.node v) : Within v ⟨none, load, v⟩ := by
  refine ⟨hplain, rfl, [], rfl, List.nodup_nil, ?_, ?_, ?_⟩
  · intro file hfile
    cases hfile
  · intro file hfile
    cases hfile
  · intro limit hlimit
    cases hlimit

/-- What a stage leads to is a stage of the same load. -/
theorem step (h : s.Within v) (hlead : Leads lang s t) : t.Within v := by
  obtain ⟨hplain, hfiles, ⟨fresh, hfresh, hasked, hbound⟩, hread⟩ := hlead.advances h.plain
  obtain ⟨entered, hloading, hnodup, hnew, hentered, hpays⟩ := h.entered
  have hsplit : ∀ file ∈ fresh, file ∉ entered ∧ file ∉ v.loading := by
    intro file hfile
    have hnone := (hasked file hfile).2.2.1
    rwa [hloading, List.mem_append, not_or] at hnone
  refine ⟨hplain, hfiles.trans h.files, fresh ++ entered, ?_, ?_, ?_, ?_, ?_⟩
  · rw [hfresh, hloading, List.append_assoc]
  · -- A file is marked where it is not under way, so none is marked twice.
    refine List.nodup_append'.mpr ⟨?_, hnodup, ?_⟩
    · cases fresh with
      | nil => exact List.nodup_nil
      | cons file rest =>
          rw [(hasked file List.mem_cons_self).1]
          exact List.nodup_singleton file
    · intro file hfile
      exact (hsplit file hfile).1
  · intro file hfile
    rcases List.mem_append.mp hfile with hfile | hfile
    · exact (hsplit file hfile).2
    · exact hnew file hfile
  · intro file hfile
    rcases List.mem_append.mp hfile with hfile | hfile
    · exact .inr (hasked file hfile).2.2.2
    · rcases hentered file hfile with hmem | hmarks
      · exact .inl hmem
      · exact .inl (h.files ▸ hread file hmarks)
  · intro limit hlimit
    rw [List.length_append]
    rcases hbound limit hlimit with rfl | ⟨before, hbefore, hle⟩
    · rw [h.files]
      omega
    · have hpaid := hpays before hbefore
      omega

/-- Every stage that the start of a load comes to is one of that load. -/
theorem run (h : s.Within v) (hcome : Relation.ReflTransGen (Leads lang) s t) : t.Within v := by
  induction hcome with
  | refl => exact h
  | tail _ hlead ih => exact ih.step hlead

/-- The bound is not reached: there are not as many files as that. -/
theorem not_exhausted (h : s.Within v) : ¬ s.HaltsWith .exhausted := by
  rintro ⟨hbound, n, hload⟩
  obtain ⟨entered, -, hnodup, -, hfiles, hpays⟩ := h.entered
  have hsubset : entered ⊆ v.files.filePaths := by
    intro file hfile
    rcases hfiles file hfile with hmem | hmarks
    · exact hmem
    · exact absurd hmarks (not_marks (by rw [hload]; rfl) file)
  have hlength := (hnodup.subperm hsubset).length_le
  have hlimit := Files.Tree.length_filePaths v.files
  have hpaid := hpays 0 hbound
  have hopen : s.load.unmarked = 0 := by rw [hload]; rfl
  omega

/-- No file is under way twice when none was at the start. -/
theorem nodup (h : s.Within v) (hnodup : v.loading.Nodup) : s.world.loading.Nodup := by
  obtain ⟨entered, hloading, hentered, hnew, -, -⟩ := h.entered
  rw [hloading]
  exact List.nodup_append'.mpr ⟨hentered, hnodup, fun file hfile => hnew file hfile⟩

end Within

/-- A file that is under way at a stage, and was not at the start, was asked for at an earlier stage
that has led to this one. -/
theorem exists_asks {lang : Language} {s t : Stage} (h : s.Within s.world)
    (hcome : Relation.ReflTransGen (Leads lang) s t) {file : String}
    (hfile : file ∈ t.world.loading) (hnew : file ∉ s.world.loading) :
    ∃ outer, Relation.ReflTransGen (Leads lang) s outer ∧
      Relation.TransGen (Leads lang) outer t ∧ outer.Asks file := by
  induction hcome with
  | refl => exact absurd hfile hnew
  | tail hbefore hlead ih =>
      rename_i t u
      obtain ⟨-, -, ⟨fresh, hfresh, hasked, -⟩, -⟩ := hlead.advances (h.run hbefore).plain
      rw [hfresh, List.mem_append] at hfile
      rcases hfile with hfile | hfile
      · -- The file is marked in this very step.
        exact ⟨t, hbefore, .single hlead, (hasked file hfile).2.1⟩
      · obtain ⟨outer, hreach, hinner, hasks⟩ := ih hfile
        exact ⟨outer, hreach, hinner.tail hlead, hasks⟩

end Stage

/-- Where no template is expanded and no script runs, whatever the files hold: every load ends, the
files under way are afterwards those that were before, and meanwhile none is under way twice. When
none was under way before, the load fails over a circular file only if it has come to ask for that
file from within the load of the same file. -/
theorem Load.circular_only_within (lang : Language) (load : Load) {w : World} (hinert : w.Inert)
    (hn : load.node.index < w.cells.size) :
    (load.run (NodeId.introspect lang) lang w).1 ≠ .exhausted ∧
      (load.run (NodeId.introspect lang) lang w).2.loading = w.loading ∧
      (∀ s, Relation.ReflTransGen (Stage.Leads lang) ⟨none, load, w⟩ s →
        w.loading.Nodup → s.world.loading.Nodup) ∧
      (w.loading = [] → ∀ file,
        (load.run (NodeId.introspect lang) lang w).1 = .failed (.circular file) →
        ∃ outer inner, Relation.ReflTransGen (Stage.Leads lang) ⟨none, load, w⟩ outer ∧
          Relation.TransGen (Stage.Leads lang) outer inner ∧ outer.Asks file ∧ inner.Asks file) := by
  have hplain : Stage.Plain load.node w := ⟨hinert, trivial, hn⟩
  have hstart : Stage.Within w ⟨none, load, w⟩ := Stage.Within.start hplain
  have hsound : Stage.Sound lang ⟨none, load, w⟩ := Stage.sound hplain
  refine ⟨?_, hsound.continues.loading, ?_, ?_⟩
  · intro hexhausted
    obtain ⟨s, hcome, hhalts⟩ := hsound.halts .exhausted (congrArg Outcome.halt? hexhausted)
    exact (hstart.run hcome).not_exhausted hhalts
  · intro s hcome hnodup
    exact (hstart.run hcome).nodup hnodup
  · intro hempty file hfailed
    obtain ⟨inner, hcome, hasks, hmem⟩ :=
      hsound.halts (.circular file) (congrArg Outcome.halt? hfailed)
    have hnew : file ∉ w.loading := by simp [hempty]
    obtain ⟨outer, hreach, hinner, houter⟩ := Stage.exists_asks hstart hcome hmem hnew
    exact ⟨outer, inner, hreach, hinner, houter, hasks⟩

/-- Two files that name each other. -/
def World.crossed : World :=
  ((World.initial ⟨false, false, 0⟩
    ⟨.directory [("a.json", .file (some "\x7b$json: 'b.json'\x7d")),
      ("b.json", .file (some "\x7b$json: './a.json'\x7d"))], []⟩).create true).2

theorem Outcome.eq_failed_of_halt? {α : Type} {outcome : Outcome α} {file : String}
    (h : outcome.halt? = some (.circular file)) : outcome = .failed (.circular file) := by
  rcases outcome with value | cause | _
  · cases h
  · -- Of all causes only a circular file reports one.
    rw [Outcome.halt?] at h
    unfold Failure.halt? at h
    split at h
    · rcases Option.some.inj h with ⟨rfl⟩
      rfl
    · cases h
  · cases h

/-- Loading the first file comes back to it from the second, which spells it another way. -/
theorem Load.crossed_circular :
    ((Load.file .json ⟨1⟩ "a.json").run (NodeId.introspect (.ofFuel 0)) (.ofFuel 0)
      World.crossed).1 = .failed (.circular "/a.json") ∧
    ∃ outer inner, Relation.ReflTransGen (Stage.Leads (.ofFuel 0))
        ⟨none, .file .json ⟨1⟩ "a.json", World.crossed⟩ outer ∧
      Relation.TransGen (Stage.Leads (.ofFuel 0)) outer inner ∧ outer.Asks "/a.json" ∧
      inner.Asks "/a.json" := by
  have hhalt : ((Load.file .json ⟨1⟩ "a.json").run (NodeId.introspect (.ofFuel 0)) (.ofFuel 0)
      World.crossed).1.halt? = some (.circular "/a.json") := by
    decide +kernel
  have hfailed := Outcome.eq_failed_of_halt? hhalt
  obtain ⟨-, -, -, hwithin⟩ := circular_only_within (.ofFuel 0) (.file .json ⟨1⟩ "a.json")
    (w := World.crossed) (World.inert_of_engine rfl rfl) (by decide)
  exact ⟨hfailed, hwithin rfl "/a.json" hfailed⟩

end ScriptTree
