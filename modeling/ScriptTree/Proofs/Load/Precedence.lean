import ScriptTree.Proofs.Load.Flattening
import ScriptTree.Proofs.Load.Instructions

/-!
# Which source of an entry wins

The instructions of a node bring entries into it in two ways. Literals and documents are built as
nodes of their own and merged, so what is there first stays (`extendedBy`). Flat properties are
stored afterwards, so what comes last stays (`World.lastAt?`). A file may have files of its own
loaded while it is built, but they end up in what it brings. So the entries of a node whose
instructions were carried out are its own, extended by those of its literals and of its documents,
and then overwritten by its properties (`NodeId.introspect_precedence`).
-/

set_option autoImplicit false

namespace ScriptTree

/-! ## Entries that come first -/

/-- Entries behind which come others: those under new keys that are no instructions. -/
def extendedBy (own built : Entries Value) : Entries Value :=
  own ++ built.filter fun p => !NodeId.isDirectiveKey p.1 && !own.contains p.1

/-- The entries other than the directory of a node. -/
def besidesDirectory (entries : Entries Value) : Entries Value :=
  entries.filter fun p => p.1 != directoryKey

theorem contains_besidesDirectory (entries : Entries Value) {key : String}
    (hkey : key ≠ directoryKey) :
    (besidesDirectory entries).contains key = entries.contains key := by
  have hget : Entries.get? (besidesDirectory entries) key = entries.get? key :=
    Entries.get?_filter fun _ => bne_iff_ne.mpr hkey
  rw [Entries.contains, Entries.contains, hget]

/-- The directory of a node does not count when entries are added: it is an instruction. -/
theorem besidesDirectory_extendedBy (own built : Entries Value) :
    besidesDirectory (extendedBy own built) = extendedBy (besidesDirectory own) built := by
  have hsame : (built.filter fun p => !NodeId.isDirectiveKey p.1 && !own.contains p.1) =
      built.filter fun p =>
        !NodeId.isDirectiveKey p.1 && !(besidesDirectory own).contains p.1 := by
    refine List.filter_congr fun p _ => ?_
    by_cases hkey : p.1 = directoryKey
    · rw [hkey]
      rfl
    · rw [contains_besidesDirectory own hkey]
  rw [extendedBy, extendedBy, hsame, besidesDirectory, List.filter_append]
  congr 1
  rw [List.filter_eq_self]
  intro p hp
  -- An entry that comes behind is no instruction, so it is no directory.
  have hadded := (List.mem_filter.mp hp).2
  rw [bne_iff_ne]
  intro hkey
  rw [hkey] at hadded
  cases hadded

/-! ## Files that are built -/

/-- A file whose text has been built as a node, with the world at that moment. -/
structure BuiltFile where
  format : CommandLine.Format
  name : String
  /-- The absolute names of the place that the file's name leads to. -/
  place : List String
  text : String
  item : NodeId
  world : World

namespace BuiltFile

/-- What the file brings. -/
def entries (f : BuiltFile) : Entries Value := (f.world.cell f.item).entries

/-- The world in which the file has been merged into a node. -/
def merged (f : BuiltFile) (n : NodeId) : World :=
  (f.world.merge n f.entries).leaveFile (Files.absolute f.place)

end BuiltFile

/-- The world in which the text of a file is built for a node: the file is marked, and the node's
relative names start from its directory. -/
def World.opened (a : World) (n : NodeId) (place : List String) : World :=
  let marked := a.enterFile (Files.absolute place)
  if Files.samePath (marked.directoryOf n) (Files.parentPath place) then marked
  else marked.put n directoryKey (.text (Files.parentPath place))

namespace NodeId

open ScriptTree.Action World

/-- Builds a text of a format as a node for another. -/
def buildText (introspect : NodeId → Action Unit) (lang : Language) (n : NodeId)
    (format : CommandLine.Format) (source text : String) : Action NodeId :=
  match format with
  | .json => n.newChild introspect text
  | .xml => Document.build introspect lang n source text

/-- The file is built for a node from its text, with the files that its own instructions name. -/
structure Builds (lang : Language) (n : NodeId) (fuel : Nat) (a : World) (f : BuiltFile) :
    Prop where
  located : a.files.locate f.name = .ok f.place
  read : a.files.read f.name = .ok f.text
  built : n.buildText (introspectWithin lang fuel) lang f.format (Files.absolute f.place) f.text
    (a.opened n f.place) = (.done f.item, f.world)

/-- Files are built and merged into a node, one after the other. -/
inductive Gathers (lang : Language) (n : NodeId) (fuel : Nat) :
    List BuiltFile → World → World → Prop
  | nil {a : World} : Gathers lang n fuel [] a a
  | cons {f : BuiltFile} {files : List BuiltFile} {a b : World} :
      n.Builds lang fuel a f → Gathers lang n fuel files (f.merged n) b →
      Gathers lang n fuel (f :: files) a b

variable (lang : Language) {n item : NodeId} {fuel : Nat} {a b c w w' : World}
  {files more : List BuiltFile} {f : BuiltFile}

theorem Gathers.append (h : n.Gathers lang fuel files a b) (h' : n.Gathers lang fuel more b c) :
    n.Gathers lang fuel (files ++ more) a c := by
  induction h with
  | nil => exact h'
  | cons hbuilds _ ih => exact .cons hbuilds (ih h')

theorem takeText_eq (introspect : NodeId → Action Unit) (format : CommandLine.Format)
    (source text : String) :
    n.takeText introspect lang format source text =
      n.buildText introspect lang format source text >>= fun item => n.mergeFrom item := by
  cases format with
  | json => rfl
  | xml => exact Document.append_eq lang source text

theorem built_buildText (hs : a.Seated n) {format : CommandLine.Format} {source text : String}
    (hdone : n.buildText (introspectWithin lang fuel) lang format source text a =
      (.done item, b)) : Built a b item := by
  have hk := kept_grows a
  have hi := upholds_introspectWithin lang hk fuel
  have hgrows := Grows.refl hs.closed hs.inert
  cases format with
  | json => exact built_of_keeps (keeps_newChild_of_upholds hk hi hgrows hs.lt text) hdone
  | xml => exact built_of_keeps (keeps_build_of_upholds lang hk hi hgrows hs.lt source text) hdone

theorem seated_enterFile (hs : a.Seated n) (path : String) : (a.enterFile path).Seated n :=
  (leads_loading hs (path :: a.loading)).seated

/-- Opening a file changes nothing that is stored but the directory of the node. -/
theorem opened_spec (hs : a.Seated n) (place : List String) :
    (a.opened n place).Seated n ∧ (a.opened n place).files = a.files ∧
      (a.opened n place).cells.size = a.cells.size ∧
      besidesDirectory ((a.opened n place).cell n).entries =
        besidesDirectory (a.cell n).entries ∧
      ∀ m ≠ n, ((a.opened n place).cell m).entries = (a.cell m).entries := by
  have hmarked := seated_enterFile hs (Files.absolute place)
  rw [opened]
  split
  · exact ⟨hmarked, rfl, rfl, rfl, fun _ _ => rfl⟩
  · have hput := leads_put hmarked (Files.parentPath place)
    refine ⟨hput.seated, hput.files, size_put _ n _ _, ?_, fun m hm => entries_put_of_ne hm.symm⟩
    rw [cell_put_self hmarked.lt]
    exact Entries.filter_insert (fun _ => bne_self_eq_false _) _

/-- The directory of a file that is opened is taken. -/
theorem eq_opened (hs : a.Seated n) {place : List String}
    (hdone : n.setDirectory lang (Files.parentPath place) (a.enterFile (Files.absolute place)) =
      (.done (), b)) : b = a.opened n place := by
  rw [setDirectory_of_inert lang (seated_enterFile hs (Files.absolute place)).inert] at hdone
  split at hdone
  · cases (Prod.mk.inj hdone).1
  · split at hdone
    · cases (Prod.mk.inj hdone).1
    · exact (Prod.mk.inj hdone).2.symm

/-- A file that is taken in has been built and merged. -/
theorem exists_builds (hs : a.Seated n) {format : CommandLine.Format} {path : String}
    (hdone : n.takeFile (introspectWithin lang fuel) lang format path a = (.done (), b)) :
    ∃ f : BuiltFile, f.format = format ∧ f.name = path ∧ n.Builds lang fuel a f ∧
      b = f.merged n := by
  rw [takeFile, loadFile_eq] at hdone
  obtain ⟨place, u, hlocate, hwithin⟩ := bind_eq_done hdone
  rw [locateFile_apply] at hlocate
  cases hplace : a.files.locate path with
  | error fault =>
      rw [hplace] at hlocate
      cases (Prod.mk.inj hlocate).1
  | ok found =>
      rw [hplace] at hlocate
      obtain ⟨hfound, rfl⟩ := Prod.mk.inj hlocate
      dsimp only at hfound
      split at hfound
      · cases hfound
      · rcases Outcome.done.inj hfound with rfl
        obtain ⟨hopened, rfl⟩ := Prod.mk.inj hwithin
        obtain ⟨_, v, hset, hrest⟩ := bind_eq_done (Prod.ext hopened rfl)
        obtain ⟨text, v', hread, htake⟩ := bind_eq_done hrest
        obtain ⟨htext, rfl⟩ := read_of_readFile hread
        rcases eq_opened lang hs hset with rfl
        rw [(opened_spec hs found).2.1] at htext
        rw [takeText_eq] at htake
        obtain ⟨item, u, hbuilt, hmerged⟩ := bind_eq_done htake
        refine ⟨⟨format, path, found, text, item, u⟩, rfl, rfl, ⟨hplace, htext, hbuilt⟩, ?_⟩
        exact congrArg (World.leaveFile · (Files.absolute found)) (Prod.mk.inj hmerged).2.symm

/-! ## What merged files leave -/

/-- From the first world to the second, a node has been extended by files, and nothing else that is
stored has changed. -/
structure Gathered (n : NodeId) (files : List BuiltFile) (a b : World) : Prop where
  size : a.cells.size ≤ b.cells.size
  own : besidesDirectory (b.cell n).entries =
    files.foldl (fun own f => extendedBy own f.entries) (besidesDirectory (a.cell n).entries)
  others : ∀ m ≠ n, m.index < a.cells.size → (b.cell m).entries = (a.cell m).entries
  built : ∀ f ∈ files, f.world.cells.size ≤ b.cells.size ∧
    ∀ m ≠ n, m.index < f.world.cells.size → (b.cell m).entries = (f.world.cell m).entries

theorem Gathered.refl (n : NodeId) (a : World) : Gathered n [] a a :=
  ⟨Nat.le_refl _, rfl, fun _ _ _ => rfl, fun _ hf => (List.not_mem_nil hf).elim⟩

theorem Gathered.trans (h : Gathered n files a b) (h' : Gathered n more b c) :
    Gathered n (files ++ more) a c where
  size := Nat.le_trans h.size h'.size
  own := by rw [List.foldl_append, ← h.own, h'.own]
  others m hm hlt := (h'.others m hm (Nat.lt_of_lt_of_le hlt h.size)).trans (h.others m hm hlt)
  built := by
    intro f hf
    rcases List.mem_append.mp hf with hf | hf
    · obtain ⟨hsize, hkept⟩ := h.built f hf
      refine ⟨Nat.le_trans hsize h'.size, fun m hm hlt => ?_⟩
      exact (h'.others m hm (Nat.lt_of_lt_of_le hlt hsize)).trans (hkept m hm hlt)
    · exact h'.built f hf

/-- A file that has been built and merged has extended the node. -/
theorem gathered_merged (hs : a.Seated n) (h : n.Builds lang fuel a f) :
    Gathered n [f] a (f.merged n) := by
  obtain ⟨hopened, -, hsize, hown, hothers⟩ := opened_spec hs f.place
  have hbuilt := built_buildText lang hopened h.built
  obtain ⟨u, htwin⟩ := hbuilt.twin
  have hgrown := hbuilt.continues.size
  have hmerged : ((f.merged n).cell n).entries = extendedBy ((a.opened n f.place).cell n).entries
      f.entries := by
    have hcell := cell_merge_self (w := f.world) (Nat.lt_of_lt_of_le hopened.lt hgrown) hbuilt.keys
    -- Building the file leaves the node as it was when the file was opened.
    calc ((f.merged n).cell n).entries
        = extendedBy (f.world.cell n).entries f.entries := congrArg Cell.entries hcell
      _ = extendedBy ((a.opened n f.place).cell n).entries f.entries := by
        rw [htwin.old n hopened.lt]
  have hkept : ∀ m ≠ n, ((f.merged n).cell m).entries = (f.world.cell m).entries := fun m hm =>
    entries_merge_of_ne hm.symm f.entries
  have hmergedSize : (f.merged n).cells.size = f.world.cells.size := size_merge _ _ _
  constructor
  case size => omega
  case own =>
    rw [hmerged, besidesDirectory_extendedBy, hown]
    rfl
  case others =>
    intro m hm hlt
    have hold := htwin.old m (by omega)
    rw [hkept m hm, hold, hothers m hm]
  case built =>
    intro g hg
    rcases List.mem_singleton.mp hg with rfl
    exact ⟨Nat.le_of_eq hmergedSize.symm, fun m hm _ => hkept m hm⟩

/-! ## Files by absolute names -/

/-- An absolute name stands for itself, whatever the directory. -/
theorem eq_of_resolve_absolute {t : Files.Tree} {directory name path : String}
    (h : Files.isAbsolute name = true) (hpath : t.resolve directory name = .ok path) :
    path = name := by
  have hjoin : Files.joinPath directory name = name := by
    rw [Files.joinPath, h, Bool.true_or, if_pos rfl]
  rw [Files.Tree.resolve, hjoin] at hpath
  split at hpath
  · exact (Except.ok.inj hpath).symm
  · cases hpath

/-- Files that are taken in have been built and merged, in the order of their names. -/
theorem exists_gathers (hs : a.Seated n) {format : CommandLine.Format} {names : List String}
    (habsolute : ∀ name ∈ names, Files.isAbsolute name = true)
    (hdone : n.takeNames lang (n.takeFile (introspectWithin lang fuel) lang format) names a =
      (.done (), b)) :
    ∃ files : List BuiltFile, files.map (fun f => (f.format, f.name)) = names.map (format, ·) ∧
      n.Gathers lang fuel files a b ∧ Gathered n files a b ∧ b.files = a.files ∧ b.Seated n := by
  induction names generalizing a with
  | nil =>
      rcases (Prod.mk.inj hdone).2 with rfl
      exact ⟨[], rfl, .nil, .refl n a, rfl, hs⟩
  | cons name rest ih =>
      obtain ⟨hname, hrest⟩ := List.forall_mem_cons.mp habsolute
      obtain ⟨_, u, hfirst, hothers⟩ := bind_eq_done hdone
      obtain ⟨path, v, hlocal, htake⟩ := bind_eq_done hfirst
      obtain ⟨hresolve, rfl⟩ := resolve_of_localFile lang hs.inert hlocal
      -- Files before this one may have moved the directory, which an absolute name does not use.
      rcases eq_of_resolve_absolute hname hresolve with rfl
      have hmoved := leads_takeFile lang hs htake
      obtain ⟨f, hformat, hpath, hbuilds, rfl⟩ := exists_builds lang hs htake
      obtain ⟨files, hnames, hgathers, hgathered, hfiles, hseated⟩ :=
        ih hmoved.seated hrest hothers
      refine ⟨f :: files, ?_, .cons hbuilds hgathers,
        (gathered_merged lang hs hbuilds).trans hgathered, hfiles.trans hmoved.files, hseated⟩
      rw [List.map_cons, List.map_cons, hnames, hformat, hpath]

end NodeId

/-- The properties of a file, read in the given way. -/
def Files.Tree.properties? (t : Files.Tree) (source : Properties.Reader × String) :
    Option (List (String × String)) :=
  match t.read source.2 with
  | .ok text => (source.1 text).toOption
  | .error _ => none

theorem Files.Tree.properties?_eq_some_iff {t : Files.Tree} {read : Properties.Reader}
    {name : String} {properties : List (String × String)} :
    t.properties? (read, name) = some properties ↔
      ∃ text, t.read name = .ok text ∧ read text = .ok properties := by
  rw [properties?]
  constructor
  · intro h
    split at h
    · rename_i text htext
      have hfound : (read text).toOption = some properties := h
      cases hread : read text with
      | ok found =>
          rw [hread] at hfound
          exact ⟨text, htext, hread.trans (congrArg Except.ok (Option.some.inj hfound))⟩
      | error fault =>
          rw [hread] at hfound
          cases hfound
    · cases h
  · rintro ⟨text, htext, hread⟩
    rw [htext]
    show (read text).toOption = some properties
    rw [hread]
    rfl

theorem World.Inert.flatten {a : World} (h : a.Inert) (n : NodeId)
    (properties : List (String × String)) : (a.flatten n properties).Inert :=
  kept_inert.flatten h trivial properties

/-- The keys under which a node lists files. -/
def sourceKeys : List String := ["$json", "$xml", "$properties", "$properties-xml"]

/-- What a node holds under a key is a text with names of files, all of them absolute. -/
def World.ListsAbsolute (a : World) (n : NodeId) (key : String) : Prop :=
  ∀ value, a.getRaw n key = some value →
    ∃ text, value = .text text ∧ ∀ name ∈ fileList text, Files.isAbsolute name = true

namespace NodeId

open ScriptTree.Action World

variable (lang : Language) {n : NodeId} {a b w w' : World}

theorem listed_of_text {key text : String} (h : a.getRaw n key = some (.text text)) :
    a.listed n key = fileList text := by
  have htext : a.text (.text text) = text := by simp [World.text, Value.show]
  rw [listed, h, Option.map_some, htext]

/-- A node that holds the same text under a key lists the same files there. -/
theorem listed_of_getRaw {key : String} (hlists : w.ListsAbsolute n key)
    (hsame : a.getRaw n key = w.getRaw n key) :
    a.listed n key = w.listed n key ∧
      ∀ name ∈ w.listed n key, Files.isAbsolute name = true := by
  cases hvalue : w.getRaw n key with
  | none =>
      rw [listed, listed, hsame, hvalue]
      exact ⟨rfl, fun _ hname => (List.not_mem_nil hname).elim⟩
  | some value =>
      obtain ⟨text, rfl, habsolute⟩ := hlists value hvalue
      rw [listed_of_text hvalue, listed_of_text (hsame.trans hvalue)]
      exact ⟨rfl, habsolute⟩

/-- Files with properties that are taken in have been stored, in the order of their names. -/
theorem exists_properties (ha : a.Inert) {read : Properties.Reader} {names : List String}
    (habsolute : ∀ name ∈ names, Files.isAbsolute name = true)
    (hdone : n.takeNames lang (n.loadProperties read) names a = (.done (), b)) :
    ∃ lists : List (List (String × String)),
      (names.map (read, ·)).map a.files.properties? = lists.map some ∧
        b = a.flatten n lists.flatten := by
  induction names generalizing a with
  | nil =>
      rcases (Prod.mk.inj hdone).2 with rfl
      exact ⟨[], rfl, rfl⟩
  | cons name rest ih =>
      obtain ⟨hname, hrest⟩ := List.forall_mem_cons.mp habsolute
      obtain ⟨_, u, hfirst, hothers⟩ := bind_eq_done hdone
      obtain ⟨path, v, hlocal, hload⟩ := bind_eq_done hfirst
      obtain ⟨hresolve, rfl⟩ := resolve_of_localFile lang ha hlocal
      rcases eq_of_resolve_absolute hname hresolve with rfl
      obtain ⟨text, v, hread, hstore⟩ := bind_eq_done hload
      obtain ⟨htext, rfl⟩ := read_of_readFile hread
      cases hproperties : read text with
      | error fault =>
          rw [hproperties] at hstore
          cases (Prod.mk.inj hstore).1
      | ok properties =>
          rw [hproperties] at hstore
          rcases (Prod.mk.inj hstore).2 with rfl
          obtain ⟨lists, hlists, rfl⟩ := ih (ha.flatten n properties) hrest hothers
          refine ⟨properties :: lists, ?_, ?_⟩
          · have hfound := Files.Tree.properties?_eq_some_iff.mpr ⟨text, htext, hproperties⟩
            rw [(continues_flatten v n properties).files] at hlists
            rw [List.map_cons, List.map_cons, List.map_cons, hlists, hfound]
          · rw [List.flatten_cons, flatten_append]

/-! ## All instructions of a node -/

variable {fuel : Nat} {loaded : String → Prop}

theorem directive_of_mem_sourceKeys :
    ∀ key ∈ sourceKeys, isDirectiveKey key = true ∧ key ≠ directoryKey := by decide

/-- The files that an instruction lists at its turn are those that it listed at first. -/
theorem eachFile_of_retains (h : Retains n loaded w a) {key : String} (hkey : key ∈ sourceKeys)
    (hlists : w.ListsAbsolute n key) (take : String → Action Unit) :
    n.eachFile lang key take a = n.takeNames lang take (w.listed n key) a ∧
      ∀ name ∈ w.listed n key, Files.isAbsolute name = true := by
  obtain ⟨hdirective, hdirectory⟩ := directive_of_mem_sourceKeys key hkey
  have hsame := getRaw_of_instructions h.instructions hdirective hdirectory
  obtain ⟨hlisted, habsolute⟩ := listed_of_getRaw hlists hsame
  rw [eachFile_of_inert lang h.seated.inert, hlisted]
  exact ⟨rfl, habsolute⟩

/-- The literals or the documents that a node lists have been built and merged. The node has the
same instructions afterwards. -/
theorem exists_gathers_eachFile (h : Retains n (fun _ => True) w a) {key : String}
    (hkey : key ∈ sourceKeys) (hlists : w.ListsAbsolute n key) {format : CommandLine.Format}
    (hdone : n.eachFile lang key (n.takeFile (introspectWithin lang fuel) lang format) a =
      (.done (), b)) :
    Retains n (fun _ => True) w b ∧ ∃ files : List BuiltFile,
      files.map (fun f => (f.format, f.name)) = (w.listed n key).map (format, ·) ∧
      n.Gathers lang fuel files a b ∧ Gathered n files a b := by
  obtain ⟨hdirective, hdirectory⟩ := directive_of_mem_sourceKeys key hkey
  have htake : ∀ path u, Retains n (fun _ => True) w u → Keeps (Retains n (fun _ => True) w)
      (fun _ => True) (n.takeFile (introspectWithin lang fuel) lang format path) u
      fun _ _ => True :=
    fun path u hu => keeps_retains_takeFile lang hu fuel format trivial
  have hheeds := heeds_eachFile lang h hdirective hdirectory fun path u _ hu => htake path u hu
  refine ⟨(hheeds.keeps.of_done hdone).1, ?_⟩
  obtain ⟨hsame, habsolute⟩ := eachFile_of_retains lang h hkey hlists
    (n.takeFile (introspectWithin lang fuel) lang format)
  obtain ⟨files, hnames, hgathers, hgathered, -⟩ :=
    exists_gathers lang h.seated habsolute (hsame.symm.trans hdone)
  exact ⟨files, hnames, hgathers, hgathered⟩

/-- Without an evaluator no steps are run, so a node whose instructions are carried out has none. -/
theorem eq_of_runStored (ha : a.Inert) {stored : Option Value}
    (hdone : n.runStored lang stored a = (.done (), b)) : b = a := by
  cases stored with
  | none => exact (Prod.mk.inj hdone).2.symm
  | some steps =>
      obtain ⟨text, u, htext, hrest⟩ := bind_eq_done hdone
      rcases (Prod.mk.inj htext).2 with rfl
      obtain ⟨script, v, hexpand, hrest⟩ := bind_eq_done hrest
      rw [expand_of_inert lang ha] at hexpand
      rcases (Prod.mk.inj hexpand).2 with rfl
      obtain ⟨_, _, heval, -⟩ := bind_eq_done hrest
      rw [eval_of_inert lang ha] at heval
      cases (Prod.mk.inj heval).1

/-- The keys of all properties in the files are no instructions of the node. -/
theorem spares_of_properties {read : Properties.Reader} {names : List String}
    (hspares : ∀ name ∈ names, w.SparesFile n read name) {lists : List (List (String × String))}
    (hlists : (names.map (read, ·)).map w.files.properties? = lists.map some) :
    ∀ p ∈ lists.flatten, w.Spares n p.1 := by
  intro p hp
  obtain ⟨properties, hproperties, hmem⟩ := List.mem_flatten.mp hp
  have hsome : some properties ∈ (names.map (read, ·)).map w.files.properties? := by
    rw [hlists]
    exact List.mem_map_of_mem hproperties
  obtain ⟨source, hsource, hfound⟩ := List.mem_map.mp hsome
  obtain ⟨name, hname, rfl⟩ := List.mem_map.mp hsource
  obtain ⟨text, htext, hread⟩ := Files.Tree.properties?_eq_some_iff.mp hfound
  exact hspares name hname text properties htext hread p hmem

/-- Where no template is expanded and no script runs, a node whose instructions name files by
absolute names and are carried out holds its own entries, extended by those of the listed literals
and then of the listed documents, each in its turn and as it was built, and over them the listed
properties, those in lines before those in markup. What is there first wins against what a file
brings, and the last property of a place against all else. This needs that no key of a property
in lines leads to an instruction of the node. -/
theorem introspect_precedence (hclosed : w.Closed) (hinert : w.Inert)
    (hn : n.index < w.cells.size) (hlists : ∀ key ∈ sourceKeys, w.ListsAbsolute n key)
    (hspares : ∀ name ∈ w.listed n "$properties", w.SparesFile n Properties.ofLines name)
    (hdone : n.introspect lang w = (.done (), w')) :
    ∃ (files : List BuiltFile) (lists : List (List (String × String))) (c : World),
      files.map (fun f => (f.format, f.name)) =
        (w.listed n "$json").map (.json, ·) ++ (w.listed n "$xml").map (.xml, ·) ∧
      n.Gathers lang w.files.loadLimit files w c ∧ Gathered n files w c ∧
      ((w.listed n "$properties").map (Properties.ofLines, ·) ++
        (w.listed n "$properties-xml").map (Properties.ofMarkup, ·)).map w.files.properties? =
          lists.map some ∧
      w' = c.flatten n lists.flatten ∧
      ∀ m key, w'.getRaw m key = (c.lastAt? n lists.flatten m key).or (c.getRaw m key) := by
  replace hdone : n.introspectWith (introspectWithin lang w.files.loadLimit) lang w =
    (.done (), w') := hdone
  rw [introspectWith_eq] at hdone
  obtain ⟨_, b, hjson, hdone⟩ := bind_eq_done hdone
  obtain ⟨_, c, hxml, hdone⟩ := bind_eq_done hdone
  obtain ⟨_, d, hlines, hdone⟩ := bind_eq_done hdone
  obtain ⟨_, e, hmarkup, hdone⟩ := bind_eq_done hdone
  -- Literals and documents.
  obtain ⟨hb, literals, hliterals, hgathers, hgathered⟩ := exists_gathers_eachFile lang
    (Retains.refl ⟨hclosed, hinert, hn⟩) (by decide) (hlists "$json" (by decide)) hjson
  obtain ⟨hc, documents, hdocuments, hgathers', hgathered'⟩ := exists_gathers_eachFile lang hb
    (by decide) (hlists "$xml" (by decide)) hxml
  -- Properties in lines leave the list of those in markup as it is.
  obtain ⟨hsame, habsolute⟩ := eachFile_of_retains lang hc (by decide)
    (hlists "$properties" (by decide)) (n.loadProperties Properties.ofLines)
  obtain ⟨inLines, hinLines, rfl⟩ :=
    exists_properties lang hc.seated.inert habsolute (hsame.symm.trans hlines)
  rw [hc.files] at hinLines
  have hd := hc.flatten (spares_of_properties hspares hinLines)
  obtain ⟨hsame', habsolute'⟩ := eachFile_of_retains lang hd (by decide)
    (hlists "$properties-xml" (by decide)) (n.loadProperties Properties.ofMarkup)
  obtain ⟨inMarkup, hinMarkup, rfl⟩ :=
    exists_properties lang hd.seated.inert habsolute' (hsame'.symm.trans hmarkup)
  rw [hd.files] at hinMarkup
  -- Steps would not run.
  have he := hd.seated.inert.flatten n inMarkup.flatten
  rcases eq_of_runStored lang he hdone with rfl
  refine ⟨literals ++ documents, inLines ++ inMarkup, c, ?_, hgathers.append lang hgathers',
    hgathered.trans hgathered', ?_, ?_, ?_⟩
  · rw [List.map_append, hliterals, hdocuments]
  · rw [List.map_append, List.map_append, hinLines, hinMarkup]
  · rw [List.flatten_append, flatten_append]
  · intro m key
    rw [← flatten_append, ← List.flatten_append]
    exact getRaw_flatten hc.seated.closed hc.seated.lt _ m key

end NodeId

/-! ## A node with all kinds of files -/

theorem World.Closed.putTexts {w : World} (h : w.Closed) {n : NodeId} (hn : n.index < w.cells.size)
    (texts : List (String × String)) :
    (texts.foldl (fun w p => w.put n p.1 (.text p.2)) w).Closed := by
  induction texts generalizing w with
  | nil => exact h
  | cons p rest ih =>
      refine ih (h.put hn p.1 fun _ hr => (List.not_mem_nil hr).elim) ?_
      rw [size_put]
      exact hn

theorem World.Closed.hold {w : World} (h : w.Closed) {nodes : List NodeId}
    (hnodes : ∀ m ∈ nodes, m.index < w.cells.size) : (w.hold nodes).Closed where
  references := h.references
  parents := h.parents
  holders m hm := by
    rcases List.mem_cons.mp hm with rfl | hm
    · exact h.holders _ List.mem_cons_self
    · rcases List.mem_append.mp hm with hframe | hheld
      · exact h.holders m (List.mem_cons_of_mem _ (List.mem_append_left _ hframe))
      · rcases List.mem_append.mp hheld with hnew | hold
        · exact hnodes m hnew
        · exact h.holders m (List.mem_cons_of_mem _ (List.mem_append_right _ hold))

/-- A key of which no name is an instruction is not stored as one. -/
theorem World.spares_of_names {w : World} {n : NodeId} {key : String}
    (h : ∀ name ∈ propertyNames key, NodeId.isDirectiveKey (String.ofList name) = false) :
    w.Spares n key :=
  fun name _ hsuffix _ => h name (hsuffix.mem List.mem_cons_self)

/-- A node that lists a literal, a document, properties in lines and properties in markup, which
have keys in common. -/
def World.sourced : World :=
  let w := ((World.initial ⟨false, false, 0⟩ ⟨.directory [("d", .directory
    [("a.json", .file (some "\x7bown: 1, j: 1, k: 1, m: \x7bt: 1\x7d\x7d")),
      ("b.xml", .file (some
        "<b><text key=\"j\">2</text><text key=\"k\">2</text><text key=\"x\">2</text></b>")),
      ("p.properties", .file (some "k = 3\nm.t = 3\nm = 3")),
      ("q.xml", .file (some "<properties><entry key=\"x\">4</entry></properties>"))])], []⟩).create
    true).2
  let texts := [("$json", "/d/a.json"), ("$xml", "/d/b.xml"), ("$properties", "/d/p.properties"),
    ("$properties-xml", "/d/q.xml"), ("own", "0")]
  (texts.foldl (fun w p => w.put ⟨1⟩ p.1 (.text p.2)) w).hold [⟨1⟩]

/-- The text in the place that a property with the key has in the tree of the node. -/
def World.sourcedText? (w : World) (key : String) : Option String := do
  let (m, key) ← w.placeOf? ⟨1⟩ (propertyNames key)
  let value ← w.getRaw m key
  return w.text value

theorem World.closed_sourced : World.sourced.Closed :=
  (((World.closed_initial _ _).create true).putTexts (Nat.lt_succ_self 1) _).hold (by decide)

namespace NodeId

open ScriptTree.Action World

/-- What the node has stays, the literal wins against the document, and properties win against
both, but not against a node. -/
theorem introspect_precedence_sourced : ∃ w',
    (⟨1⟩ : NodeId).introspect (.ofFuel 0) sourced = (.done (), w') ∧
    (∃ (files : List BuiltFile) (lists : List (List (String × String))) (c : World),
      files.map (fun f => (f.format, f.name)) = [(.json, "/d/a.json"), (.xml, "/d/b.xml")] ∧
      Gathered ⟨1⟩ files sourced c ∧ w' = c.flatten ⟨1⟩ lists.flatten) ∧
    ["own", "j", "k", "x", "m.t"].map w'.sourcedText? =
      [some "0", some "1", some "3", some "4", some "3"] := by
  have hlists : ∀ key ∈ sourceKeys, sourced.ListsAbsolute ⟨1⟩ key := by
    have hheld : ∀ key ∈ sourceKeys, ∃ text, sourced.getRaw ⟨1⟩ key = some (.text text) ∧
        ∀ name ∈ fileList text, Files.isAbsolute name = true := by
      intro key hkey
      simp only [sourceKeys, List.mem_cons, List.not_mem_nil, or_false] at hkey
      rcases hkey with rfl | rfl | rfl | rfl
      all_goals exact ⟨_, rfl, by decide⟩
    intro key hkey value hvalue
    obtain ⟨text, htext, habsolute⟩ := hheld key hkey
    exact ⟨text, Option.some.inj (hvalue.symm.trans htext), habsolute⟩
  have hspares : ∀ name ∈ sourced.listed ⟨1⟩ "$properties",
      sourced.SparesFile ⟨1⟩ Properties.ofLines name := by
    intro name hname text properties htext hproperties
    rw [show sourced.listed ⟨1⟩ "$properties" = ["/d/p.properties"] by decide +kernel] at hname
    rcases List.mem_singleton.mp hname with rfl
    have hread : sourced.files.read "/d/p.properties" = .ok "k = 3\nm.t = 3\nm = 3" :=
      Except.eq_ok_of_toOption (by decide +kernel)
    rcases Except.ok.inj (htext.symm.trans hread) with rfl
    have hparsed : Properties.ofLines "k = 3\nm.t = 3\nm = 3" =
        .ok [("k", "3"), ("m.t", "3"), ("m", "3")] :=
      Except.eq_ok_of_toOption (by decide +kernel)
    rcases Except.ok.inj (hproperties.symm.trans hparsed) with rfl
    have hnames : ∀ p ∈ [("k", "3"), ("m.t", "3"), ("m", "3")], ∀ name ∈ propertyNames p.1,
        isDirectiveKey (String.ofList name) = false := by decide
    exact fun p hp => spares_of_names (hnames p hp)
  have hruns : (((⟨1⟩ : NodeId).introspect (.ofFuel 0) sourced).1.isDone = true) ∧
      ["own", "j", "k", "x", "m.t"].map
        ((⟨1⟩ : NodeId).introspect (.ofFuel 0) sourced).2.sourcedText? =
          [some "0", some "1", some "3", some "4", some "3"] := by
    decide +kernel
  have hdone := eq_done_of_isDone hruns.1
  obtain ⟨files, lists, c, hnames, -, hgathered, -, hflat, -⟩ := introspect_precedence (.ofFuel 0)
    closed_sourced (inert_of_engine rfl rfl) (by decide) hlists hspares hdone
  rw [show sourced.listed ⟨1⟩ "$json" = ["/d/a.json"] by decide +kernel,
    show sourced.listed ⟨1⟩ "$xml" = ["/d/b.xml"] by decide +kernel] at hnames
  exact ⟨_, hdone, ⟨files, lists, c, hnames, hgathered, hflat⟩, hruns.2⟩

end NodeId

end ScriptTree
