import ScriptTree.Proofs.Load.Failure

/-!
# Directories along a load

The files that a node lists are found one after the other, each from the directory that the node has
at that moment. Loading a literal or a document moves the directory to that of its file
(`Files.Tree.moveTo`), and merging what it holds does not. So the directory that a name is seen from
follows from the names before it (`Files.Tree.directoryAfter`). Flat properties leave it where it
is, unless they store a directory themselves. `NodeId.localFile_at_turn` says so of every name that
carrying out the instructions of a node comes to.
-/

set_option autoImplicit false

namespace ScriptTree

/-- A way to read the properties of a text. -/
abbrev Properties.Reader : Type := String → Except Properties.Fault (List (String × String))

namespace Files.Tree

/-- The directory of a node after it has loaded the file that a path leads to. The one before stays
as it is written when it has the same components. -/
def moveTo (t : Tree) (directory path : String) : String :=
  match t.locate path with
  | .ok names =>
      if samePath directory (parentPath names) then directory else parentPath names
  | .error _ => directory

/-- The directory of a node after it has loaded the files of names, one after the other. -/
def directoryAfter (t : Tree) (directory : String) (names : List String) : String :=
  names.foldl
    (fun directory name =>
      match t.resolve directory name with
      | .ok path => t.moveTo directory path
      | .error _ => directory)
    directory

/-- The properties of a file, read in the given way, have none that is the directory of a node. -/
def KeepsDirectory (t : Tree) (read : Properties.Reader) (path : String) : Prop :=
  ∀ text properties, t.read path = .ok text → read text = .ok properties →
    ∀ p ∈ properties, World.propertyNames p.1 ≠ [directoryKey.toList]

end Files.Tree

namespace World

/-- A node of a world that has no loose ends and where nothing is expanded or run. -/
structure Seated (n : NodeId) (a : World) : Prop where
  closed : a.Closed
  inert : a.Inert
  lt : n.index < a.cells.size

/-- From the first world to the second, a node has come to the directory. A node that was apart from
what lies above it still is. -/
structure Leads (n : NodeId) (a a' : World) (directory : String) : Prop where
  seated : a'.Seated n
  files : a'.files = a.files
  directory : a'.directoryOf n = directory
  apart : a.Apart n → a'.Apart n

variable {a a' a'' : World} {n : NodeId}

theorem Leads.refl (h : a.Seated n) : a.Leads n a (a.directoryOf n) := ⟨h, rfl, rfl, id⟩

theorem Leads.trans {before directory : String} (h : a.Leads n a' before)
    (h' : a'.Leads n a'' directory) : a.Leads n a'' directory where
  seated := h'.seated
  files := h'.files.trans h.files
  directory := h'.directory
  apart hapart := h'.apart (h.apart hapart)

/-! ## What moves the directory -/

theorem directoryOf_of_text {path : String} (h : a.getRaw n directoryKey = some (.text path)) :
    a.directoryOf n = path := by
  rw [directoryOf, lineage, namedDirectory, List.findSome?_cons, h]
  rfl

/-- The directory is the same where the lineage is and each node of it names the same one. -/
theorem directoryOf_congr (hlineage : a'.lineage n = a.lineage n)
    (hraw : ∀ m ∈ a.lineage n, a'.getRaw m directoryKey = a.getRaw m directoryKey) :
    a'.directoryOf n = a.directoryOf n := by
  have hnamed : ∀ nodes : List NodeId,
      (∀ m ∈ nodes, a'.getRaw m directoryKey = a.getRaw m directoryKey) →
        a'.namedDirectory nodes = a.namedDirectory nodes := by
    intro nodes hnodes
    induction nodes with
    | nil => rfl
    | cons m rest ih =>
        have hrest := ih fun m hm => hnodes m (List.mem_cons_of_mem _ hm)
        simp only [namedDirectory, List.findSome?_cons] at hrest ⊢
        rw [hnodes m List.mem_cons_self, hrest]
  rw [directoryOf, directoryOf, hlineage, hnamed _ hraw]

/-- Marks of files move nothing. -/
theorem leads_loading (h : a.Seated n) (files : List String) :
    a.Leads n { a with loading := files } (a.directoryOf n) := by
  have hlineage : ({ a with loading := files } : World).lineage n = a.lineage n :=
    @lineage_eq_of_above a _ n rfl fun m _ => parent?_loading a files m
  constructor
  case seated => exact ⟨closed_loading h.closed files, h.inert, h.lt⟩
  case files => rfl
  case directory => exact directoryOf_congr hlineage fun _ _ => rfl
  case apart =>
    intro hapart
    apply hapart.transfer
    · intro m _
      exact parent?_loading a files m
    · intro m hunder _
      exact hunder

theorem Seated.put_text (h : a.Seated n) {x : NodeId} (hx : x.index < a.cells.size)
    (key text : String) : (a.put x key (.text text)).Seated n := by
  refine ⟨h.closed.put hx key ?_, h.inert.put x key _, ?_⟩
  · intro r hr
    cases hr
  · rw [size_put]
    exact h.lt

/-- The node takes a directory. -/
theorem leads_put (h : a.Seated n) (path : String) :
    a.Leads n (a.put n directoryKey (.text path)) path where
  seated := h.put_text h.lt directoryKey path
  files := (continues_put a n directoryKey _).files
  directory := by
    apply directoryOf_of_text
    rw [getRaw_put_self a _ _ _ h.lt, if_pos (beq_self_eq_true _)]
  apart hapart := (hapart.put_text h.lt .refl directoryKey path).2

/-- A text that is no directory of the node is stored in it or below it. -/
theorem leads_put_beneath (h : a.Seated n) (hapart : a.Apart n) {x : NodeId}
    (hx : x.index < a.cells.size) (hbeneath : a.Below n x) {key : String}
    (hkey : x = n → key ≠ directoryKey) (text : String) :
    a.Leads n (a.put x key (.text text)) (a.directoryOf n) := by
  obtain ⟨hparent, hapart'⟩ := hapart.put_text hx hbeneath key text
  have hlineage := lineage_eq_of_above (size_put a x key _) hparent
  refine ⟨h.put_text hx key text, (continues_put a x key _).files, ?_, fun _ => hapart'⟩
  apply directoryOf_congr hlineage
  intro m hm
  by_cases hxm : x = m
  · subst hxm
    rw [getRaw_put_self a _ _ _ hx, if_neg]
    intro heq
    -- A node that is above and below is the node itself.
    rcases Relation.reflTransGen_iff_eq_or_transGen.mp hbeneath with heq' | hunder
    · exact hkey heq' (eq_of_beq heq)
    · exact hapart x (above_of_mem_lineage hm) hunder
  · exact getRaw_put_of_ne a _ _ _ hxm

/-- What has been merged into a node moves nothing: no entry that is added is an instruction, and
nothing that was there is below an added one. -/
theorem Extends.leads (h : a.Extends a') (hs : a.Seated n) (hclosed : a'.Closed)
    (hinert : a'.Inert) : a.Leads n a' (a.directoryOf n) := by
  have htwin := Twin.start hs.closed hs.inert hinert h
  have hsame : n.moved a a' = n := NodeId.moved_of_lt hs.lt
  have habove : ∀ m, a.Above n m → m.index < a.cells.size := by
    intro m hm
    induction hm with
    | refl => exact hs.lt
    | tail _ hp _ => exact hs.closed.parents _ _ (Option.mem_filter_iff.mp hp).1
  constructor
  case seated => exact ⟨hclosed, hinert, Nat.lt_of_lt_of_le hs.lt h.size⟩
  case files => exact h.files
  case directory =>
    have hlineage := htwin.lineage hs.lt
    rw [hsame] at hlineage
    rw [directoryOf, hlineage, NodeId.namedDirectory_moved htwin, Option.map_map]
    rfl
  case apart =>
    intro hapart
    apply hapart.transfer
    · intro m hm
      exact h.parent?_eq hs.closed (habove m hm)
    · intro m hunder hm
      -- Entries lead from new nodes to new nodes only.
      have hold : m.index < a.cells.size → a.Under n m := by
        clear hm
        have hstep : ∀ x y, y ∈ references (a'.cell x) → y.index < a.cells.size →
            x.index < a.cells.size ∧ y ∈ references (a.cell x) := by
          intro x y href hy
          by_cases hx : x.index < a.cells.size
          · refine ⟨hx, ?_⟩
            obtain ⟨extra, hcell, hextra⟩ := h.old x hx
            rw [hcell] at href
            obtain ⟨p, hp, hin⟩ := List.mem_flatMap.mp href
            rcases List.mem_append.mp hp with hp | hp
            · exact List.mem_flatMap.mpr ⟨p, hp, hin⟩
            · have hnew := (hextra p hp).2 y hin
              omega
          · have hnew := h.new x (Nat.not_lt.mp hx) y href
            omega
        induction hunder with
        | single href =>
            intro hm
            exact .single (hstep _ _ href hm).2
        | tail _ href ih =>
            intro hm
            obtain ⟨hx, href⟩ := hstep _ _ href hm
            exact .tail (ih hx) href
      exact hold (habove m hm)

end World

namespace NodeId

open ScriptTree.Action World

variable (lang : Language) {n item : NodeId} {a a' w₁ : World} {fuel : Nat}
  {format : CommandLine.Format}

theorem resolve_of_localFile (ha : a.Inert) {name path : String} {u : World}
    (hdone : n.localFile lang name a = (.done path, u)) :
    a.files.resolve (a.directoryOf n) name = .ok path ∧ u = a := by
  rw [localFile_of_inert lang ha] at hdone
  obtain ⟨hpath, hworld⟩ := Prod.mk.inj hdone
  refine ⟨?_, hworld.symm⟩
  cases hresolve : a.files.resolve (a.directoryOf n) name with
  | error cause =>
      rw [hresolve] at hpath
      cases hpath
  | ok found =>
      rw [hresolve] at hpath
      rw [Outcome.done.inj hpath]

theorem read_of_readFile {path text : String} {u : World}
    (hdone : readFile path a = (.done text, u)) : a.files.read path = .ok text ∧ u = a := by
  rw [readFile_apply] at hdone
  obtain ⟨htext, hworld⟩ := Prod.mk.inj hdone
  refine ⟨?_, hworld.symm⟩
  cases hread : a.files.read path with
  | error fault =>
      rw [hread] at htext
      cases htext
  | ok found =>
      rw [hread] at htext
      rw [Outcome.done.inj htext]

/-! ## Files that are loaded -/

theorem built_of_keeps {F : Halt → Prop} {p : Action NodeId}
    (h : Keeps a.Grows F p a fun item u => a.cells.size ≤ item.index ∧ item.index < u.cells.size)
    (hp : p a = (.done item, w₁)) : Built a w₁ item := by
  obtain ⟨hgrows, hcontinues, hitem, -⟩ := h.of_done hp
  refine ⟨⟨w₁, hgrows⟩, hcontinues, hitem, hgrows.keys item hitem, ?_⟩
  intro p hp r hr
  have hrange := hgrows.references item hitem r (List.mem_flatMap.mpr ⟨p, hp, hr⟩)
  omega

/-- The text of a file is merged into the node: the directory stays. -/
theorem leads_takeText (hs : a.Seated n) {source text : String}
    (hdone : n.takeText (introspectWithin lang fuel) lang format source text a = (.done (), a')) :
    a.Leads n a' (a.directoryOf n) := by
  have hk := World.kept_grows a
  have hi := upholds_introspectWithin lang hk fuel
  have hgrows := Grows.refl hs.closed hs.inert
  obtain ⟨item, w₁, hbuilt, rfl⟩ : ∃ item w₁, Built a w₁ item ∧
      a' = w₁.merge n (w₁.cell item).entries := by
    cases format with
    | json =>
        obtain ⟨item, w₁, hchild, hmerge⟩ := bind_eq_done hdone
        have hkeeps := keeps_newChild_of_upholds hk hi hgrows hs.lt text
        exact ⟨item, w₁, built_of_keeps hkeeps hchild, (Prod.mk.inj hmerge).2.symm⟩
    | xml =>
        rw [takeText, Document.append_eq] at hdone
        obtain ⟨item, w₁, hbuild, hmerge⟩ := bind_eq_done hdone
        have hkeeps := keeps_build_of_upholds lang hk hi hgrows hs.lt source text
        exact ⟨item, w₁, built_of_keeps hkeeps hbuild, (Prod.mk.inj hmerge).2.symm⟩
  obtain ⟨b, htwin⟩ := hbuilt.twin
  have hextends := htwin.extends_merge hbuilt.continues hs.lt hbuilt.keys hbuilt.entries
  have hclosed := htwin.closed_merge hbuilt.continues hs.lt hbuilt.keys hbuilt.entries
  exact hextends.leads hs hclosed (htwin.inert.1.merge n _)

theorem leads_setDirectory (hs : a.Seated n) {path : String}
    (hdone : n.setDirectory lang path a = (.done (), a')) :
    a.Leads n a' (if Files.samePath (a.directoryOf n) path then a.directoryOf n else path) := by
  rw [setDirectory_of_inert lang hs.inert] at hdone
  split at hdone
  · cases (Prod.mk.inj hdone).1
  · split at hdone
    · cases (Prod.mk.inj hdone).1
    · rcases (Prod.mk.inj hdone).2 with rfl
      split
      · exact Leads.refl hs
      · exact leads_put hs path

/-- A marked file is opened: the directory is taken, and the text is merged. -/
theorem leads_openFile (hs : a.Seated n) {path : String} {names : List String}
    (hdone : n.openFile lang path names
      (n.takeText (introspectWithin lang fuel) lang format) a = (.done (), a')) :
    a.Leads n a' (if Files.samePath (a.directoryOf n) (Files.parentPath names) then
      a.directoryOf n else Files.parentPath names) := by
  obtain ⟨_, b, hset, hrest⟩ := bind_eq_done hdone
  obtain ⟨text, c, hread, htake⟩ := bind_eq_done hrest
  obtain ⟨-, rfl⟩ := read_of_readFile hread
  have htaken := leads_setDirectory lang hs hset
  have hmerged := leads_takeText lang htaken.seated htake
  rw [htaken.directory] at hmerged
  exact htaken.trans hmerged

/-- A file is loaded: the directory is that of the file. -/
theorem leads_takeFile (hs : a.Seated n) {path : String}
    (hdone : n.takeFile (introspectWithin lang fuel) lang format path a = (.done (), a')) :
    a.Leads n a' (a.files.moveTo (a.directoryOf n) path) := by
  rw [takeFile, loadFile_eq] at hdone
  obtain ⟨names, u, hlocate, hwithin⟩ := bind_eq_done hdone
  rw [locateFile_apply] at hlocate
  cases hnames : a.files.locate path with
  | error fault =>
      rw [hnames] at hlocate
      cases (Prod.mk.inj hlocate).1
  | ok found =>
      rw [hnames] at hlocate
      obtain ⟨hfound, rfl⟩ := Prod.mk.inj hlocate
      dsimp only at hfound
      split at hfound
      · cases hfound
      · rcases Outcome.done.inj hfound with rfl
        obtain ⟨hopened, rfl⟩ := Prod.mk.inj hwithin
        -- Marks are set and taken away around what the file does.
        have hmarked := leads_loading hs (Files.absolute found :: a.loading)
        have hopen := leads_openFile lang hmarked.seated (Prod.ext hopened rfl)
        rw [hmarked.directory] at hopen
        have hleft := leads_loading hopen.seated
        simp only [hopen.directory] at hleft
        rw [Files.Tree.moveTo, hnames]
        exact (hmarked.trans hopen).trans (hleft _)

/-- Files are loaded one after the other. -/
theorem leads_takeNames (hs : a.Seated n) {names : List String}
    (hdone : n.takeNames lang (n.takeFile (introspectWithin lang fuel) lang format) names a =
      (.done (), a')) :
    a.Leads n a' (a.files.directoryAfter (a.directoryOf n) names) := by
  induction names generalizing a with
  | nil =>
      rcases (Prod.mk.inj hdone).2 with rfl
      exact Leads.refl hs
  | cons name rest ih =>
      obtain ⟨_, b, hfirst, hrest⟩ := bind_eq_done hdone
      obtain ⟨path, c, hlocal, htake⟩ := bind_eq_done hfirst
      obtain ⟨hresolve, rfl⟩ := resolve_of_localFile lang hs.inert hlocal
      have hmoved := leads_takeFile lang hs htake
      have hlater := ih hmoved.seated hrest
      rw [hmoved.files, hmoved.directory] at hlater
      rw [Files.Tree.directoryAfter, List.foldl_cons, hresolve]
      exact hmoved.trans hlater

/-! ## Flat properties -/

/-- Only the name of the directory itself is stored as the directory: it has no points. -/
theorem names_of_join_eq {names : List (List Char)}
    (h : String.ofList (Text.join ['.'] names) = directoryKey) :
    names = [directoryKey.toList] := by
  have hchars : Text.join ['.'] names = directoryKey.toList := by
    rw [← h, String.toList_ofList]
  match names with
  | [] => exact absurd hchars (by decide)
  | [name] => rw [← hchars, Text.join]
  | name :: next :: rest =>
      have hpoint : '.' ∈ directoryKey.toList := by
        rw [← hchars, Text.join]
        exact List.mem_append_left _ (List.mem_append_right _ List.mem_cons_self)
      exact absurd hpoint (by decide)

theorem leads_storeProperty (hs : a.Seated n) (hapart : a.Apart n) (value : String) :
    ∀ (names : List (List Char)) (x : NodeId), a.Below n x → x.index < a.cells.size →
      (x = n → names ≠ [directoryKey.toList]) →
      a.Leads n (a.storeProperty x value names) (a.directoryOf n)
  | [], _, _, _, _ => Leads.refl hs
  | name :: rest, x, hbelow, hx, hnames => by
      rw [World.storeProperty]
      split
      · -- The names lead on to a node below, which is not the node itself.
        rename_i next hnext
        have href : next ∈ World.references (a.cell x) :=
          List.mem_flatMap.mpr ⟨_, Entries.mem_of_get?_eq_some hnext, List.mem_cons_self⟩
        apply leads_storeProperty hs hapart value rest next (hbelow.tail href)
        · exact hs.closed.references x next href
        · rintro rfl
          exact absurd (Relation.TransGen.tail' hbelow href) (hapart next .refl)
      · apply leads_put_beneath hs hapart hx hbelow
        intro hxn hkey
        exact hnames hxn (names_of_join_eq hkey)

theorem leads_flatten (hs : a.Seated n) (hapart : a.Apart n) {properties : List (String × String)}
    (hkeys : ∀ p ∈ properties, World.propertyNames p.1 ≠ [directoryKey.toList]) :
    a.Leads n (a.flatten n properties) (a.directoryOf n) := by
  induction properties generalizing a with
  | nil => exact Leads.refl hs
  | cons p rest ih =>
      have hfirst := leads_storeProperty hs hapart (World.propertyValue p.2)
        (World.propertyNames p.1) n .refl hs.lt fun _ => hkeys p List.mem_cons_self
      have hrest := ih hfirst.seated (hfirst.apart hapart) fun q hq =>
        hkeys q (List.mem_cons_of_mem _ hq)
      rw [hfirst.directory] at hrest
      exact hfirst.trans hrest

/-- The properties of a file are stored: the directory stays. -/
theorem leads_loadProperties (hs : a.Seated n) (hapart : a.Apart n)
    {read : Properties.Reader} {path : String}
    (hkeeps : a.files.KeepsDirectory read path)
    (hdone : n.loadProperties read path a = (.done (), a')) : a.Leads n a' (a.directoryOf n) := by
  obtain ⟨text, b, hread, hstore⟩ := bind_eq_done hdone
  obtain ⟨htext, rfl⟩ := read_of_readFile hread
  cases hproperties : read text with
  | error fault =>
      rw [hproperties] at hstore
      cases (Prod.mk.inj hstore).1
  | ok properties =>
      rw [hproperties] at hstore
      rcases (Prod.mk.inj hstore).2 with rfl
      exact leads_flatten hs hapart (hkeeps text properties htext hproperties)

/-- Files with properties are taken in one after the other. -/
theorem leads_takeProperties (hs : a.Seated n) {read : Properties.Reader} {names : List String}
    (hapart : names ≠ [] → a.Apart n)
    (hkeeps : ∀ name ∈ names, ∀ path, a.files.resolve (a.directoryOf n) name = .ok path →
      a.files.KeepsDirectory read path)
    (hdone : n.takeNames lang (n.loadProperties read) names a = (.done (), a')) :
    a.Leads n a' (a.directoryOf n) := by
  induction names generalizing a with
  | nil =>
      rcases (Prod.mk.inj hdone).2 with rfl
      exact Leads.refl hs
  | cons name rest ih =>
      obtain ⟨_, b, hfirst, hrest⟩ := bind_eq_done hdone
      obtain ⟨path, c, hlocal, htake⟩ := bind_eq_done hfirst
      obtain ⟨hresolve, rfl⟩ := resolve_of_localFile lang hs.inert hlocal
      have hfirst' := hapart (List.cons_ne_nil _ _)
      have hstored := leads_loadProperties hs hfirst'
        (hkeeps name List.mem_cons_self path hresolve) htake
      have hothers : ∀ other ∈ rest, ∀ path,
          b.files.resolve (b.directoryOf n) other = .ok path → b.files.KeepsDirectory read path := by
        rw [hstored.files, hstored.directory]
        intro other hother
        exact hkeeps other (List.mem_cons_of_mem _ hother)
      have hlater := ih hstored.seated (fun _ => hstored.apart hfirst') hothers hrest
      rw [hstored.directory] at hlater
      exact hstored.trans hlater

end NodeId

/-! ## The turn of a name -/

/-- The names of files that a node lists under a key. -/
def World.listed (a : World) (n : NodeId) (key : String) : List String :=
  match (a.getRaw n key).map a.text with
  | none => []
  | some text => fileList text

namespace NodeId

open ScriptTree.Action World

variable (lang : Language) {n : NodeId} {a a' w u : World} {fuel : Nat}

theorem eachFile_of_inert (ha : a.Inert) (key : String) (take : String → Action Unit) :
    n.eachFile lang key take a = n.takeNames lang take (a.listed n key) a := by
  rw [eachFile, bind_apply, getText_of_inert lang ha, listed]
  cases (a.getRaw n key).map a.text with
  | none => rfl
  | some text => rfl

/-- Taking in the files that a key lists comes to a name: those before it are through. -/
structure Arrives (lang : Language) (n : NodeId) (key : String) (take : String → Action Unit)
    (a : World) (before : List String) (name : String) (u : World) : Prop where
  listed : ∃ after, a.listed n key = before ++ name :: after
  through : n.takeNames lang take before a = (.done (), u)

/-- Carrying out the instructions of a node comes to a name in one of its lists. The files that have
been loaded until then are those of the names `moved`, and the properties that have been stored are
those of the names `stored`, with the way in which they were read. -/
inductive Turn (lang : Language) (n : NodeId) (fuel : Nat) (w : World) :
    List String → List (Properties.Reader × String) → String → World → Prop
  | json {before : List String} {name : String} {u : World} :
      n.Arrives lang "$json" (n.takeFile (introspectWithin lang fuel) lang .json) w before name u →
      Turn lang n fuel w before [] name u
  | xml {before : List String} {name : String} {b u : World} :
      n.eachFile lang "$json" (n.takeFile (introspectWithin lang fuel) lang .json) w =
        (.done (), b) →
      n.Arrives lang "$xml" (n.takeFile (introspectWithin lang fuel) lang .xml) b before name u →
      Turn lang n fuel w (w.listed n "$json" ++ before) [] name u
  | lines {before : List String} {name : String} {b c u : World} :
      n.eachFile lang "$json" (n.takeFile (introspectWithin lang fuel) lang .json) w =
        (.done (), b) →
      n.eachFile lang "$xml" (n.takeFile (introspectWithin lang fuel) lang .xml) b =
        (.done (), c) →
      n.Arrives lang "$properties" (n.loadProperties Properties.ofLines) c before name u →
      Turn lang n fuel w (w.listed n "$json" ++ b.listed n "$xml")
        (before.map (Properties.ofLines, ·)) name u
  | markup {before : List String} {name : String} {b c d u : World} :
      n.eachFile lang "$json" (n.takeFile (introspectWithin lang fuel) lang .json) w =
        (.done (), b) →
      n.eachFile lang "$xml" (n.takeFile (introspectWithin lang fuel) lang .xml) b =
        (.done (), c) →
      n.eachFile lang "$properties" (n.loadProperties Properties.ofLines) c = (.done (), d) →
      n.Arrives lang "$properties-xml" (n.loadProperties Properties.ofMarkup) d before name u →
      Turn lang n fuel w (w.listed n "$json" ++ b.listed n "$xml")
        ((c.listed n "$properties").map (Properties.ofLines, ·) ++
          before.map (Properties.ofMarkup, ·)) name u

theorem leads_eachFile (hs : a.Seated n) {format : CommandLine.Format} {key : String}
    (hdone : n.eachFile lang key (n.takeFile (introspectWithin lang fuel) lang format) a =
      (.done (), a')) :
    a.Leads n a' (a.files.directoryAfter (a.directoryOf n) (a.listed n key)) := by
  rw [eachFile_of_inert lang hs.inert] at hdone
  exact leads_takeNames lang hs hdone

/-- The files of two lists are loaded, the second after the first. -/
theorem leads_append {names more : List String}
    (h : w.Leads n a (w.files.directoryAfter (w.directoryOf n) names))
    (h' : a.Leads n a' (a.files.directoryAfter (a.directoryOf n) more)) :
    w.Leads n a' (w.files.directoryAfter (w.directoryOf n) (names ++ more)) := by
  rw [h.files, h.directory, Files.Tree.directoryAfter, Files.Tree.directoryAfter,
    ← List.foldl_append] at h'
  exact h.trans h'

/-- Files with properties are taken in after others. -/
theorem leads_then_properties {directory : String} {read : Properties.Reader} {names : List String}
    (h : w.Leads n a directory) (hapart : names ≠ [] → w.Apart n)
    (hkeeps : ∀ name ∈ names, ∀ path, w.files.resolve directory name = .ok path →
      w.files.KeepsDirectory read path)
    (hdone : n.takeNames lang (n.loadProperties read) names a = (.done (), a')) :
    w.Leads n a' directory := by
  have hlater : a.Leads n a' (a.directoryOf n) := by
    apply leads_takeProperties lang h.seated _ _ hdone
    · exact fun hnames => h.apart (hapart hnames)
    · rw [h.files, h.directory]
      exact hkeeps
  rw [h.directory] at hlater
  exact h.trans hlater

/-- When the turn of a name comes, the node has the directory that the files loaded before lead
to. -/
theorem Turn.leads (hs : w.Seated n) {moved : List String}
    {stored : List (Properties.Reader × String)} {name : String}
    (hturn : n.Turn lang fuel w moved stored name u) (hapart : stored ≠ [] → w.Apart n)
    (hkeeps : ∀ p ∈ stored, ∀ path,
      w.files.resolve (w.files.directoryAfter (w.directoryOf n) moved) p.2 = .ok path →
        w.files.KeepsDirectory p.1 path) :
    w.Leads n u (w.files.directoryAfter (w.directoryOf n) moved) := by
  cases hturn with
  | json harrives => exact leads_takeNames lang hs harrives.through
  | xml hjson harrives =>
      have hb := leads_eachFile lang hs hjson
      exact leads_append hb (leads_takeNames lang hb.seated harrives.through)
  | lines hjson hxml harrives =>
      have hb := leads_eachFile lang hs hjson
      have hc := leads_append hb (leads_eachFile lang hb.seated hxml)
      apply leads_then_properties lang hc _ _ harrives.through
      · intro hbefore
        exact hapart fun hnil => hbefore (List.map_eq_nil_iff.mp hnil)
      · intro earlier hearlier
        exact hkeeps (Properties.ofLines, earlier) (List.mem_map_of_mem hearlier)
  | markup hjson hxml hlines harrives =>
      have hb := leads_eachFile lang hs hjson
      have hc := leads_append hb (leads_eachFile lang hb.seated hxml)
      rw [eachFile_of_inert lang hc.seated.inert] at hlines
      -- The properties in lines come before those in markup, and both were stored.
      have hd := leads_then_properties lang hc
        (fun hlisted => hapart fun hnil =>
          hlisted (List.map_eq_nil_iff.mp (List.append_eq_nil_iff.mp hnil).1))
        (fun earlier hearlier => hkeeps (Properties.ofLines, earlier)
          (List.mem_append_left _ (List.mem_map_of_mem hearlier))) hlines
      apply leads_then_properties lang hd _ _ harrives.through
      · intro hbefore
        exact hapart fun hnil =>
          hbefore (List.map_eq_nil_iff.mp (List.append_eq_nil_iff.mp hnil).2)
      · intro earlier hearlier
        exact hkeeps (Properties.ofMarkup, earlier)
          (List.mem_append_right _ (List.mem_map_of_mem hearlier))

/-- Where no template is expanded and no script runs, each name that the instructions of a node list
is looked up from one directory: from the one that the node had at first, each literal and each
document that was loaded until then has led on to the directory of its file. Properties that were
stored until then count for nothing, when none of them is the directory itself and the node is in a
tree. -/
theorem localFile_at_turn (hclosed : w.Closed) (hinert : w.Inert) (hn : n.index < w.cells.size)
    {moved : List String} {stored : List (Properties.Reader × String)} {name : String}
    (hturn : n.Turn lang fuel w moved stored name u) (hapart : stored ≠ [] → w.Apart n)
    (hkeeps : ∀ p ∈ stored, ∀ path,
      w.files.resolve (w.files.directoryAfter (w.directoryOf n) moved) p.2 = .ok path →
        w.files.KeepsDirectory p.1 path) :
    n.localFile lang name u =
      (Outcome.ofExcept
        (w.files.resolve (w.files.directoryAfter (w.directoryOf n) moved) name), u) := by
  have hleads := hturn.leads lang ⟨hclosed, hinert, hn⟩ hapart hkeeps
  rw [localFile_of_inert lang hleads.seated.inert, hleads.files, hleads.directory]

end NodeId

/-- A node in a directory with two files that have the same name in a directory inside it. The node
lists a file there, one of the two, and properties that are there only. -/
def World.shelved : World :=
  let w := ((World.initial ⟨false, false, 0⟩ ⟨.directory [("d", .directory
    [("a", .directory
      [("x.json", .file (some "\x7b\x7d")),
        ("y.json", .file (some "\x7bat: 'moved'\x7d")),
        ("p.properties", .file (some "k = 1")),
        ("q.properties", .file (some "l = 2"))]),
      ("y.json", .file (some "\x7bat: 'start'\x7d"))])], []⟩).create true).2
  let w := w.put ⟨1⟩ directoryKey (.text "/d")
  let w := w.put ⟨1⟩ "$json" (.text "a/x.json, y.json")
  (w.put ⟨1⟩ "$properties" (.text "p.properties, q.properties")).hold [⟨1⟩]

/-- Taking in a file of a format there. -/
abbrev NodeId.takeShelved (format : CommandLine.Format) : String → Action Unit :=
  (⟨1⟩ : NodeId).takeFile (introspectWithin (.ofFuel 0) World.shelved.files.loadLimit) (.ofFuel 0)
    format

theorem World.closed_shelved : World.shelved.Closed := by
  have hfree : ∀ text : String, ∀ r ∈ (Value.text text).nodes, r.index < 2 :=
    fun _ _ hr => (List.not_mem_nil hr).elim
  have hcreated := (World.closed_initial ⟨false, false, 0⟩ World.shelved.files).create true
  have hfirst := @Closed.put _ hcreated ⟨1⟩ (by decide) directoryKey _ (hfree "/d")
  have hsecond := @Closed.put _ hfirst ⟨1⟩ (by decide) "$json" _ (hfree "a/x.json, y.json")
  have hthird := @Closed.put _ hsecond ⟨1⟩ (by decide) "$properties" _
    (hfree "p.properties, q.properties")
  refine ⟨hthird.references, hthird.parents, ?_⟩
  decide

/-- The node holds no node, so nothing lies below it. -/
theorem World.apart_shelved : World.shelved.Apart ⟨1⟩ := by
  intro m _ hunder
  obtain ⟨y, href, -⟩ := Relation.TransGen.head'_iff.mp hunder
  have hnone : World.references (World.shelved.cell ⟨1⟩) = [] := by decide
  rw [hnone] at href
  cases href

theorem Except.eq_ok_of_toOption {ε α : Type} {e : Except ε α} {x : α}
    (h : e.toOption = some x) : e = .ok x := by
  cases e with
  | error _ => cases h
  | ok _ => exact congrArg Except.ok (Option.some.inj h)

namespace NodeId

open ScriptTree.Action World

/-- The second file with properties is looked up from the directory of the last literal. -/
theorem localFile_at_turn_shelved : ∃ u,
    (⟨1⟩ : NodeId).Turn (.ofFuel 0) World.shelved.files.loadLimit World.shelved
      ["a/x.json", "y.json"] [(Properties.ofLines, "p.properties")] "q.properties" u ∧
    (⟨1⟩ : NodeId).localFile (.ofFuel 0) "q.properties" u =
      (Outcome.ofExcept (World.shelved.files.resolve
        (World.shelved.files.directoryAfter (World.shelved.directoryOf ⟨1⟩) ["a/x.json", "y.json"])
        "q.properties"), u) := by
  obtain ⟨b, hb⟩ : ∃ b, b = ((⟨1⟩ : NodeId).eachFile (.ofFuel 0) "$json" (takeShelved .json)
      World.shelved).2 := ⟨_, rfl⟩
  obtain ⟨c, hc⟩ : ∃ c, c = ((⟨1⟩ : NodeId).eachFile (.ofFuel 0) "$xml" (takeShelved .xml) b).2 :=
    ⟨_, rfl⟩
  have hjson := @eq_done_of_isDone ((⟨1⟩ : NodeId).eachFile (.ofFuel 0) "$json"
    (takeShelved .json)) World.shelved (by decide +kernel)
  have hxml := @eq_done_of_isDone ((⟨1⟩ : NodeId).eachFile (.ofFuel 0) "$xml" (takeShelved .xml)) b
    (by rw [hb]; decide +kernel)
  have hbefore := @eq_done_of_isDone ((⟨1⟩ : NodeId).takeNames (.ofFuel 0)
    ((⟨1⟩ : NodeId).loadProperties Properties.ofLines) ["p.properties"]) c
    (by rw [hc, hb]; decide +kernel)
  rw [← hb] at hjson
  rw [← hc] at hxml
  have hlisted : c.listed ⟨1⟩ "$properties" = ["p.properties", "q.properties"] := by
    rw [hc, hb]
    decide +kernel
  have hturn := Turn.lines hjson hxml ⟨⟨[], hlisted⟩, hbefore⟩
  have hmoved : World.shelved.listed ⟨1⟩ "$json" ++ b.listed ⟨1⟩ "$xml" =
      ["a/x.json", "y.json"] := by
    rw [hb]
    decide +kernel
  rw [hmoved] at hturn
  refine ⟨_, hturn, localFile_at_turn (.ofFuel 0) World.closed_shelved
    (World.inert_of_engine rfl rfl) (by decide) hturn (fun _ => World.apart_shelved) ?_⟩
  -- The one file that was read before holds a property that is no directory.
  intro p hp path hpath text properties htext hproperties q hq
  rcases List.mem_singleton.mp hp with rfl
  have hfound : World.shelved.files.resolve (World.shelved.files.directoryAfter
      (World.shelved.directoryOf ⟨1⟩) ["a/x.json", "y.json"]) "p.properties" =
        .ok "/d/a/p.properties" :=
    Except.eq_ok_of_toOption (by decide +kernel)
  rcases Except.ok.inj (hpath.symm.trans hfound) with rfl
  have hread : World.shelved.files.read "/d/a/p.properties" = .ok "k = 1" :=
    Except.eq_ok_of_toOption (by decide +kernel)
  rcases Except.ok.inj (htext.symm.trans hread) with rfl
  have hparsed : Properties.ofLines "k = 1" = .ok [("k", "1")] :=
    Except.eq_ok_of_toOption (by decide +kernel)
  rcases Except.ok.inj (hproperties.symm.trans hparsed) with rfl
  rcases List.mem_singleton.mp hq with rfl
  decide +kernel

/-- The second file of a list is looked up from the directory of the first, where another file has
its name, and not from the directory that the node had. -/
theorem listed_file_elsewhere : ∃ u w',
    (⟨1⟩ : NodeId).Turn (.ofFuel 0) World.shelved.files.loadLimit World.shelved ["a/x.json"] []
      "y.json" u ∧
    World.shelved.files.resolve (World.shelved.directoryOf ⟨1⟩) "y.json" = .ok "/d/y.json" ∧
    (⟨1⟩ : NodeId).localFile (.ofFuel 0) "y.json" u = (.done "/d/a/y.json", u) ∧
    (⟨1⟩ : NodeId).introspect (.ofFuel 0) World.shelved = (.done (), w') ∧
    (w'.getRaw ⟨1⟩ "at").map w'.text = some "moved" := by
  obtain ⟨u, hu⟩ : ∃ u, u = ((⟨1⟩ : NodeId).takeNames (.ofFuel 0) (takeShelved .json)
      ["a/x.json"] World.shelved).2 := ⟨_, rfl⟩
  have hbefore := @eq_done_of_isDone ((⟨1⟩ : NodeId).takeNames (.ofFuel 0) (takeShelved .json)
    ["a/x.json"]) World.shelved (by decide +kernel)
  rw [← hu] at hbefore
  have hleads := leads_takeNames (.ofFuel 0)
    ⟨World.closed_shelved, World.inert_of_engine rfl rfl, by decide⟩ hbefore
  have hpath : u.files.resolve (u.directoryOf ⟨1⟩) "y.json" = .ok "/d/a/y.json" := by
    apply Except.eq_ok_of_toOption
    rw [hu]
    decide +kernel
  have hdone := @eq_done_of_isDone ((⟨1⟩ : NodeId).introspect (.ofFuel 0)) World.shelved
    (by decide +kernel)
  refine ⟨u, _, .json ⟨⟨[], ?_⟩, hbefore⟩, Except.eq_ok_of_toOption ?_, ?_, hdone, ?_⟩
  · decide +kernel
  · decide +kernel
  · rw [localFile_of_inert (.ofFuel 0) hleads.seated.inert, hpath]
    rfl
  · decide +kernel

end NodeId

end ScriptTree
