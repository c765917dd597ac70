import ScriptTree.Proofs.Load.Directories

/-!
# Instructions that a node holds

Carrying out the instructions of a node reads them one after the other from the node itself, while
the files that they name are taken in. Literals and documents are merged, which skips instructions,
but flat properties are stored under any key. `World.Spares` says of a key of a property that it
does not lead to an instruction of the node. Where all keys of the properties files are such, a node
has the instructions afterwards that it had before, up to the directory of a file (`World.Retains`),
and those are the ones that are carried out (`NodeId.introspect_eq_carryOutWith`). Any other key
makes the node carry out an instruction that came out of a file.
-/

set_option autoImplicit false

namespace ScriptTree

namespace Entries

variable {α : Type} {entries : Entries α} {key : String} {keep : String × α → Bool}

/-- An entry that is filtered out may be stored at will. -/
theorem filter_insert (hkeep : ∀ value, keep (key, value) = false) (value : α) :
    (entries.insert key value).filter keep = entries.filter keep := by
  induction entries with
  | nil => exact List.filter_cons_of_neg (by simp [hkeep])
  | cons p rest ih =>
      obtain ⟨k, v⟩ := p
      rw [insert]
      split
      · rename_i hk
        rcases eq_of_beq hk with rfl
        rw [List.filter_cons_of_neg (by simp [hkeep]), List.filter_cons_of_neg (by simp [hkeep])]
      · rw [List.filter_cons, List.filter_cons, ih]

theorem get?_filter (hkeep : ∀ value, keep (key, value) = true) :
    get? (entries.filter keep) key = entries.get? key := by
  induction entries with
  | nil => rfl
  | cons p rest ih =>
      obtain ⟨k, v⟩ := p
      by_cases hk : k = key
      · subst hk
        rw [List.filter_cons_of_pos (hkeep v), get?_cons, get?_cons, if_pos (beq_self_eq_true k),
          if_pos (beq_self_eq_true k)]
      · have hne : ¬ (k == key) = true := fun heq => hk (eq_of_beq heq)
        rw [List.filter_cons, get?_cons, if_neg hne]
        split
        · rw [get?_cons, if_neg hne, ih]
        · exact ih

end Entries

namespace NodeId

/-- A part of a text before a separator begins as the text does. -/
theorem isPrefix_of_isPrefix_join {start name : List Char} {rest : List (List Char)}
    (hpoint : '.' ∉ start) (h : start <+: Text.join ['.'] (name :: rest)) : start <+: name := by
  cases rest with
  | nil => rwa [Text.join] at h
  | cons next rest =>
      rw [Text.join, List.append_assoc] at h
      rcases List.prefix_or_prefix_of_prefix h (List.prefix_append name _) with hstart | ⟨s, rfl⟩
      · exact hstart
      · cases s with
        | nil => rw [List.append_nil]
        | cons c s =>
            -- The start would go on to the separator.
            have hc := (List.cons_prefix_cons.mp ((List.prefix_append_right_inj name).mp h)).1
            subst hc
            exact absurd (List.mem_append_right name List.mem_cons_self) hpoint

/-- A key is an instruction only when its first name starts like one. -/
theorem isDirectiveKey_join {name : List Char} (rest : List (List Char))
    (h : isDirectiveKey (String.ofList name) = false) :
    isDirectiveKey (String.ofList (Text.join ['.'] (name :: rest))) = false := by
  rw [isDirectiveKey, List.any_eq_false] at h ⊢
  intro start hstart hprefix
  apply h start hstart
  have hpoint : ∀ start ∈ directiveStarts, '.' ∉ start.toList := by decide
  rw [List.isPrefixOf_iff_prefix, String.toList_ofList] at hprefix ⊢
  exact isPrefix_of_isPrefix_join (hpoint start hstart) hprefix

end NodeId

namespace World

/-- The entry is an instruction, and not the directory of a node. -/
def isInstruction (p : String × Value) : Bool :=
  NodeId.isDirectiveKey p.1 && p.1 != directoryKey

/-- The instructions of a node, other than its directory. -/
def instructions (a : World) (n : NodeId) : Entries Value := (a.cell n).entries.filter isInstruction

/-- A property with the key is not stored in the node as an instruction. Its first name does not
start like one. Nor do the others, unless the node is in a tree, where no names lead back to it. -/
def Spares (a : World) (n : NodeId) (key : String) : Prop :=
  ∀ name rest, name :: rest <:+ propertyNames key →
    (a.Apart n → name :: rest = propertyNames key) →
      NodeId.isDirectiveKey (String.ofList name) = false

/-- The properties of a file are not stored in the node as instructions. -/
def SparesFile (a : World) (n : NodeId) (read : Properties.Reader) (path : String) : Prop :=
  ∀ text properties, a.files.read path = .ok text → read text = .ok properties →
    ∀ p ∈ properties, a.Spares n p.1

/-- From the first world to the second, a node has got no instruction. Only its directory may be
new, as that of a file that has been loaded. -/
structure Retains (n : NodeId) (loaded : String → Prop) (w a : World) : Prop where
  seated : a.Seated n
  files : a.files = w.files
  apart : w.Apart n → a.Apart n
  instructions : a.instructions n = w.instructions n
  directory : ∀ p ∈ (a.cell n).entries, p.1 = directoryKey → p ∈ (w.cell n).entries ∨
    ∃ path names, loaded path ∧ w.files.locate path = .ok names ∧
      p.2 = .text (Files.parentPath names)

variable {n : NodeId} {loaded : String → Prop} {w a u : World}

/-- A node that has the same instructions has the same value under each. -/
theorem getRaw_of_instructions (h : a.instructions n = w.instructions n) {key : String}
    (hkey : NodeId.isDirectiveKey key = true) (hdirectory : key ≠ directoryKey) :
    a.getRaw n key = w.getRaw n key := by
  have hkeep : ∀ value : Value, isInstruction (key, value) = true := by
    intro _
    rw [isInstruction, hkey, bne_iff_ne.mpr hdirectory]
    rfl
  calc (a.cell n).entries.get? key
      = Entries.get? (a.instructions n) key := (Entries.get?_filter hkeep).symm
    _ = Entries.get? (w.instructions n) key := by rw [h]
    _ = (w.cell n).entries.get? key := Entries.get?_filter hkeep

namespace Retains

theorem refl (h : w.Seated n) : Retains n loaded w w :=
  ⟨h, rfl, id, rfl, fun _ hp _ => .inl hp⟩

/-- Marks of files count for nothing. -/
theorem marked (h : Retains n loaded w a) (files : List String) :
    Retains n loaded w { a with loading := files } where
  seated := (leads_loading h.seated files).seated
  files := h.files
  apart hapart := (leads_loading h.seated files).apart (h.apart hapart)
  instructions := h.instructions
  directory := h.directory

/-- What has been merged into the node adds no instruction. -/
theorem extended (h : Retains n loaded w a) (he : a.Extends u) (hclosed : u.Closed)
    (hinert : u.Inert) : Retains n loaded w u := by
  have hleads := he.leads h.seated hclosed hinert
  obtain ⟨extra, hcell, hextra⟩ := he.old n h.seated.lt
  constructor
  case seated => exact hleads.seated
  case files => exact hleads.files.trans h.files
  case apart => exact fun hapart => hleads.apart (h.apart hapart)
  case instructions =>
    rw [← h.instructions, World.instructions, World.instructions, hcell, List.filter_append]
    have hnone : extra.filter isInstruction = [] := by
      rw [List.filter_eq_nil_iff]
      intro p hp
      simp [isInstruction, (hextra p hp).1]
    rw [hnone, List.append_nil]
  case directory =>
    intro p hp hkey
    rw [hcell] at hp
    rcases List.mem_append.mp hp with hp | hp
    · exact h.directory p hp hkey
    · have hother := (hextra p hp).1
      rw [hkey] at hother
      exact absurd hother (by decide)

/-- A run that has left the nodes alone has left the instructions alone. -/
theorem grown (h : Retains n loaded w a) (hgrows : a.Grows u) (hc : a.Continues u) :
    Retains n loaded w u := by
  have hnone : ∀ p ∈ ([] : Entries Value), ∀ r ∈ p.2.nodes,
      a.cells.size ≤ r.index ∧ r.index < u.cells.size := fun _ hp => absurd hp List.not_mem_nil
  -- Nothing is merged here.
  have hextends : a.Extends (u.merge n []) :=
    hgrows.extends_merge hc h.seated.lt List.nodup_nil hnone
  have hclosed : (u.merge n []).Closed :=
    hgrows.closed_merge hc h.seated.lt List.nodup_nil hnone
  exact h.extended hextends hclosed hgrows.inert.1

/-- The node takes the directory of a file. -/
theorem putDirectory (h : Retains n loaded w a) {path : String} {names : List String}
    (hpath : loaded path) (hnames : w.files.locate path = .ok names) :
    Retains n loaded w (a.put n directoryKey (.text (Files.parentPath names))) := by
  have hleads := leads_put h.seated (Files.parentPath names)
  have hcell : (a.put n directoryKey (.text (Files.parentPath names))).cell n = _ :=
    cell_put_self h.seated.lt
  constructor
  case seated => exact hleads.seated
  case files => exact hleads.files.trans h.files
  case apart => exact fun hapart => hleads.apart (h.apart hapart)
  case instructions =>
    rw [← h.instructions, World.instructions, World.instructions, hcell]
    exact Entries.filter_insert (fun _ => by simp [isInstruction]) _
  case directory =>
    intro p hp hkey
    rw [hcell] at hp
    rcases Entries.mem_insert hp with rfl | hold
    · exact .inr ⟨path, names, hpath, hnames, rfl⟩
    · exact h.directory p hold hkey

/-- A text is stored in the node or below it, and in the node not as an instruction. -/
theorem putText (h : Retains n loaded w a) {x : NodeId} (hx : x.index < a.cells.size)
    (hbelow : a.Below n x) {key : String} (hkey : x = n → NodeId.isDirectiveKey key = false)
    (text : String) : Retains n loaded w (a.put x key (.text text)) := by
  constructor
  case seated => exact h.seated.put_text hx key text
  case files => exact ((continues_put a x key _).files).trans h.files
  case apart => exact fun hapart => ((h.apart hapart).put_text hx hbelow key text).2
  case instructions =>
    rw [← h.instructions, World.instructions, World.instructions]
    by_cases hxn : x = n
    · subst hxn
      rw [cell_put_self hx]
      exact Entries.filter_insert (fun _ => by simp [isInstruction, hkey rfl]) _
    · rw [entries_put_of_ne hxn]
  case directory =>
    intro p hp hdirectory
    by_cases hxn : x = n
    · subst hxn
      rw [cell_put_self hx] at hp
      rcases Entries.mem_insert hp with rfl | hold
      · -- The directory is an instruction.
        have hother := hkey rfl
        rw [show key = directoryKey from hdirectory] at hother
        exact absurd hother (by decide)
      · exact h.directory p hold hdirectory
    · rw [entries_put_of_ne hxn] at hp
      exact h.directory p hp hdirectory

/-- A property is stored. The names that are left at the node itself are all of them when the node
is in a tree. -/
theorem storeProperty (h : Retains n loaded w a) (value : String) :
    ∀ (names : List (List Char)) (x : NodeId), a.Below n x → x.index < a.cells.size →
      (∀ name rest, name :: rest <:+ names → (w.Apart n → x = n ∧ name :: rest = names) →
        NodeId.isDirectiveKey (String.ofList name) = false) →
      Retains n loaded w (a.storeProperty x value names)
  | [], _, _, _, _ => h
  | name :: rest, x, hbelow, hx, hnames => by
      rw [World.storeProperty]
      split
      · rename_i next hnext
        have href : next ∈ World.references (a.cell x) :=
          List.mem_flatMap.mpr ⟨_, Entries.mem_of_get?_eq_some hnext, List.mem_cons_self⟩
        apply storeProperty h value rest next (hbelow.tail href)
        · exact h.seated.closed.references x next href
        · intro name' rest' hsuffix hwhole
          apply hnames name' rest' (hsuffix.trans (List.suffix_cons name rest))
          intro hapart
          -- In a tree the names do not lead back to the node.
          rcases hwhole hapart with ⟨rfl, -⟩
          exact absurd (Relation.TransGen.tail' hbelow href) (h.apart hapart next .refl)
      · apply h.putText hx hbelow
        intro hxn
        exact NodeId.isDirectiveKey_join rest
          (hnames name rest (List.suffix_refl _) fun _ => ⟨hxn, rfl⟩)

theorem flatten (h : Retains n loaded w a) {properties : List (String × String)}
    (hkeys : ∀ p ∈ properties, w.Spares n p.1) :
    Retains n loaded w (a.flatten n properties) := by
  induction properties generalizing a with
  | nil => exact h
  | cons p rest ih =>
      apply ih
      · apply h.storeProperty _ _ n .refl h.seated.lt
        intro name names hsuffix hwhole
        exact hkeys p List.mem_cons_self name names hsuffix fun hapart => (hwhole hapart).2
      · exact fun q hq => hkeys q (List.mem_cons_of_mem _ hq)

end Retains

end World

namespace NodeId

open ScriptTree.Action World

/-! ## Files, however they end -/

section Files

variable (lang : Language) {n : NodeId} {loaded : String → Prop} {w a : World} {F : Halt → Prop}

/-- Building a node leaves the instructions of the others alone. -/
theorem keeps_retains_of_grows {p : Action NodeId} (h : Retains n loaded w a)
    (hp : Keeps a.Grows F p a fun item u =>
      a.cells.size ≤ item.index ∧ item.index < u.cells.size) :
    Keeps (Retains n loaded w) F p a fun item u => Built a u item where
  kept := h.grown hp.kept hp.continues
  continues := hp.continues
  value _ hitem := built_of_keeps hp (Prod.ext hitem rfl)
  halts := hp.halts

/-- The text of a file is merged into the node. -/
theorem keeps_retains_takeText (h : Retains n loaded w a) (fuel : Nat)
    (format : CommandLine.Format) (source text : String) :
    Keeps (Retains n loaded w) (fun _ => True)
      (n.takeText (introspectWithin lang fuel) lang format source text) a fun _ _ => True := by
  have hk := kept_grows a
  have hi := upholds_introspectWithin lang hk fuel
  have hgrows := Grows.refl h.seated.closed h.seated.inert
  have hmerge : ∀ p : Action NodeId,
      Keeps (Retains n loaded w) (fun _ => True) p a (fun item u => Built a u item) →
        Keeps (Retains n loaded w) (fun _ => True) (p >>= fun item => n.mergeFrom item) a
          fun _ _ => True := by
    intro p hp
    apply hp.bind
    intro item u _ hu hc hbuilt
    obtain ⟨b, htwin⟩ := hbuilt.twin
    have hextends := htwin.extends_merge hc h.seated.lt hbuilt.keys hbuilt.entries
    have hclosed := htwin.closed_merge hc h.seated.lt hbuilt.keys hbuilt.entries
    exact keeps_change (h.extended hextends hclosed (hu.seated.inert.merge n _))
      (continues_merge u n _)
  cases format with
  | json =>
      apply hmerge
      exact keeps_retains_of_grows h (keeps_newChild_of_upholds hk hi hgrows h.seated.lt text)
  | xml =>
      rw [takeText, Document.append_eq]
      apply hmerge
      exact keeps_retains_of_grows h
        (keeps_build_of_upholds lang hk hi hgrows h.seated.lt source text)

theorem keeps_retains_setDirectory (h : Retains n loaded w a) {path : String} {names : List String}
    (hpath : loaded path) (hnames : w.files.locate path = .ok names) :
    Keeps (Retains n loaded w) F (n.setDirectory lang (Files.parentPath names)) a
      fun _ _ => True := by
  have hput := h.putDirectory hpath hnames
  have hrun := n.setDirectory_of_inert lang h.seated.inert (Files.parentPath names)
  split at hrun
  · exact keeps_of_eq hrun h (fun _ _ => trivial) fun _ hh => nomatch hh
  · split at hrun
    · exact keeps_of_eq hrun h (fun _ _ => trivial) fun _ hh => nomatch hh
    · split at hrun
      · exact keeps_of_eq hrun h (fun _ _ => trivial) fun _ hh => nomatch hh
      · constructor
        all_goals rw [hrun]
        · exact hput
        · exact continues_put a n directoryKey _
        · exact fun _ _ => trivial
        · exact fun _ hh => nomatch hh

theorem keeps_retains_readFile (h : Retains n loaded w a) (path : String) :
    Keeps (Retains n loaded w) F (readFile path) a fun text u =>
      a.files.read path = .ok text ∧ u = a := by
  apply keeps_of_eq (readFile_apply path) h
  · intro text htext
    cases hread : a.files.read path with
    | error fault =>
        rw [hread] at htext
        cases htext
    | ok found =>
        rw [hread] at htext
        rw [Outcome.done.inj htext]
        exact ⟨rfl, rfl⟩
  · intro halt hh
    cases hread : a.files.read path <;> rw [hread] at hh <;> cases hh

/-- A file is loaded into the node: it leaves no instruction there but its directory. -/
theorem keeps_retains_takeFile (h : Retains n loaded w a) (fuel : Nat)
    (format : CommandLine.Format) {path : String} (hpath : loaded path) :
    Keeps (Retains n loaded w) (fun _ => True)
      (n.takeFile (introspectWithin lang fuel) lang format path) a fun _ _ => True := by
  rw [takeFile, loadFile_eq]
  apply Keeps.bind (Q := fun names u => w.files.locate path = .ok names ∧ u = a)
  · apply keeps_of_eq (locateFile_apply path) h
    · intro names hnames
      rw [← h.files]
      refine ⟨?_, rfl⟩
      split at hnames
      · cases hnames
      · rename_i found hfound
        split at hnames
        · cases hnames
        · rw [hfound, Outcome.done.inj hnames]
    · exact fun _ _ => trivial
  · rintro names u - - - ⟨hnames, rfl⟩
    have hmarked := h.marked (Files.absolute names :: u.loading)
    have hopen : Keeps (Retains n loaded w) (fun _ => True)
        (n.openFile lang path names (n.takeText (introspectWithin lang fuel) lang format))
        (u.enterFile (Files.absolute names)) fun _ _ => True := by
      rw [openFile]
      apply (keeps_retains_setDirectory lang hmarked hpath hnames).bind
      intro _ b _ hb _ _
      apply (keeps_retains_readFile hb path).bind
      rintro text c - hc - -
      exact keeps_retains_takeText lang hc fuel format _ text
    exact ⟨hopen.kept.marked _, hopen.continues.loading_restored, fun _ _ => trivial,
      fun _ _ => trivial⟩

/-- The properties of a file are stored in the node. -/
theorem keeps_retains_loadProperties (h : Retains n loaded w a) {read : Properties.Reader}
    {path : String} (hspares : w.SparesFile n read path) :
    Keeps (Retains n loaded w) F (n.loadProperties read path) a fun _ _ => True := by
  rw [loadProperties]
  apply (keeps_retains_readFile h path).bind
  rintro text u - - - ⟨htext, rfl⟩
  rw [h.files] at htext
  split
  · rename_i properties hproperties
    exact keeps_change (h.flatten (hspares text properties htext hproperties))
      (continues_flatten _ n _)
  · exact keeps_fault h rfl

end Files

/-! ## All instructions -/

/-- Takes in every file that a stored value lists. -/
def takeValue (lang : Language) (n : NodeId) (stored : Option Value)
    (take : String → Action Unit) : Action Unit := do
  match stored with
  | none => pure ()
  | some stored =>
      let value ← n.readValue lang stored
      let text ← Action.inspect (·.text value)
      n.takeNames lang take (fileList text)

/-- Runs the steps that a stored value holds. -/
def runStored (lang : Language) (n : NodeId) (stored : Option Value) : Action Unit := do
  match stored with
  | none => pure ()
  | some steps =>
      let text ← Action.inspect (·.stepsText steps)
      let script ← n.expand lang text
      let _ ← n.eval lang script
      pure ()

/-- Carries out the given instructions on a node, whichever it holds by then. -/
def carryOutWith (introspect : NodeId → Action Unit) (lang : Language) (n : NodeId)
    (given : String → Option Value) : Action Unit := do
  n.takeValue lang (given "$json") (n.takeFile introspect lang .json)
  n.takeValue lang (given "$xml") (n.takeFile introspect lang .xml)
  n.takeValue lang (given "$properties") (n.loadProperties Properties.ofLines)
  n.takeValue lang (given "$properties-xml") (n.loadProperties Properties.ofMarkup)
  n.runStored lang (given "$onload")

/-- Carrying out the instructions of a node comes to storing the properties of a file. -/
inductive Stores (introspect : NodeId → Action Unit) (lang : Language) (n : NodeId) (a : World) :
    Properties.Reader → String → World → Prop
  | lines {path : String} {b c u : World} :
      n.eachFile lang "$json" (n.takeFile introspect lang .json) a = (.done (), b) →
      n.eachFile lang "$xml" (n.takeFile introspect lang .xml) b = (.done (), c) →
      n.Lists lang "$properties" (n.loadProperties Properties.ofLines) c path u →
      Stores introspect lang n a Properties.ofLines path u
  | markup {path : String} {b c d u : World} :
      n.eachFile lang "$json" (n.takeFile introspect lang .json) a = (.done (), b) →
      n.eachFile lang "$xml" (n.takeFile introspect lang .xml) b = (.done (), c) →
      n.eachFile lang "$properties" (n.loadProperties Properties.ofLines) c = (.done (), d) →
      n.Lists lang "$properties-xml" (n.loadProperties Properties.ofMarkup) d path u →
      Stores introspect lang n a Properties.ofMarkup path u

variable (lang : Language) {n : NodeId} {w a u : World} {fuel : Nat}

/-- The files that a key lists are those that the value under it lists. -/
theorem eachFile_eq_takeValue (key : String) (take : String → Action Unit) :
    n.eachFile lang key take a = n.takeValue lang (a.getRaw n key) take a := by
  rw [eachFile, getText, get, bind_assoc, bind_assoc, inspect_bind_apply]
  cases a.getRaw n key with
  | none => rfl
  | some stored =>
      simp only [takeValue, map_eq_pure_bind, bind_assoc, pure_bind]
      rfl

theorem introspectWith_eq (introspect : NodeId → Action Unit) :
    n.introspectWith introspect lang = (do
      n.eachFile lang "$json" (n.takeFile introspect lang .json)
      n.eachFile lang "$xml" (n.takeFile introspect lang .xml)
      n.eachFile lang "$properties" (n.loadProperties Properties.ofLines)
      n.eachFile lang "$properties-xml" (n.loadProperties Properties.ofMarkup)
      let stored ← Action.inspect (·.getRaw n "$onload")
      n.runStored lang stored) := rfl

/-- In a world, the first action does what the second does, and keeps a property however it ends. -/
structure Heeds (I : World → Prop) (p p' : Action Unit) (a : World) : Prop where
  same : p a = p' a
  keeps : Keeps I (fun _ => True) p a fun _ _ => True

theorem Heeds.bind {I : World → Prop} {p p' q q' : Action Unit} (h : Heeds I p p' a)
    (hnext : ∀ u, p a = (.done (), u) → I u → Heeds I q q' u) :
    Heeds I (p >>= fun _ => q) (p' >>= fun _ => q') a where
  same := by
    rw [bind_apply, bind_apply, ← h.same]
    rcases hrun : p a with ⟨_ | _ | _, u⟩
    · exact (hnext u hrun (h.keeps.of_done hrun).1).same
    · rfl
    · rfl
  keeps := h.keeps.bind fun _ u hrun hu _ _ => (hnext u hrun hu).keeps

section Heeding

variable {loaded : String → Prop}

/-- The files that an instruction lists are those that it listed at first. -/
theorem heeds_eachFile (h : Retains n loaded w a) {key : String}
    (hkey : isDirectiveKey key = true) (hdirectory : key ≠ directoryKey)
    {take : String → Action Unit}
    (htake : ∀ path u, n.Lists lang key take a path u → Retains n loaded w u →
      Keeps (Retains n loaded w) (fun _ => True) (take path) u fun _ _ => True) :
    Heeds (Retains n loaded w) (n.eachFile lang key take)
      (n.takeValue lang (w.getRaw n key) take) a where
  same := by
    rw [eachFile_eq_takeValue, getRaw_of_instructions h.instructions hkey hdirectory]
  keeps := keeps_listed lang (fun _ hu => hu.seated.inert) h key fun path u hlists _ hu =>
    htake path u hlists hu

/-- The steps are those that the node held at first. They cannot be run here. -/
theorem heeds_runStored (h : Retains n loaded w a) :
    Heeds (Retains n loaded w) (Action.inspect (·.getRaw n "$onload") >>= n.runStored lang)
      (n.runStored lang (w.getRaw n "$onload")) a where
  same := by
    rw [inspect_bind_apply, getRaw_of_instructions h.instructions (by decide) (by decide)]
  keeps := by
    apply keeps_inspect
    cases a.getRaw n "$onload" with
    | none => exact keeps_pure h trivial
    | some steps =>
        have hinert := h.seated.inert
        apply keeps_inspect
        apply keeps_after (expand_of_inert lang hinert n _)
        apply Keeps.bind (Q := fun _ _ => False)
        · exact keeps_of_eq (eval_of_inert lang hinert n _) h (fun _ hx => nomatch hx)
            fun _ _ => trivial
        · exact fun _ _ _ _ _ hfalse => hfalse.elim

/-- Carrying out the instructions of a node, one kind after the other. -/
theorem heeds_introspectWith (hs : w.Seated n)
    (hspares : ∀ read path u, n.Stores (introspectWithin lang fuel) lang w read path u →
      w.SparesFile n read path) :
    Heeds (Retains n (fun path => ∃ format u,
        n.Requests (introspectWithin lang fuel) lang w format path u) w)
      (n.introspectWith (introspectWithin lang fuel) lang)
      (n.carryOutWith (introspectWithin lang fuel) lang (w.getRaw n)) w := by
  rw [introspectWith_eq, carryOutWith]
  refine (heeds_eachFile lang (Retains.refl hs) (by decide) (by decide) ?json).bind ?_
  case json =>
    intro path u hlists hu
    exact keeps_retains_takeFile lang hu fuel .json ⟨.json, u, .json hlists⟩
  intro b hjson hb
  refine (heeds_eachFile lang hb (by decide) (by decide) ?xml).bind ?_
  case xml =>
    intro path u hlists hu
    exact keeps_retains_takeFile lang hu fuel .xml ⟨.xml, u, .xml hjson hlists⟩
  intro c hxml hc
  refine (heeds_eachFile lang hc (by decide) (by decide) ?lines).bind ?_
  case lines =>
    intro path u hlists hu
    exact keeps_retains_loadProperties hu (hspares _ path u (.lines hjson hxml hlists))
  intro d hlines hd
  refine (heeds_eachFile lang hd (by decide) (by decide) ?markup).bind ?_
  case markup =>
    intro path u hlists hu
    exact keeps_retains_loadProperties hu (hspares _ path u (.markup hjson hxml hlines hlists))
  intro e _ he
  exact heeds_runStored lang he

end Heeding

/-- Where no template is expanded and no script runs, the instructions that are carried out on a
node are those that it holds at the start, and it holds no others at the end, however that comes:
only its directory may be new, as that of a file that they ask for. This needs that no key of a
property that is stored on the way leads to an instruction of the node. -/
theorem introspect_eq_carryOutWith (hclosed : w.Closed) (hinert : w.Inert)
    (hn : n.index < w.cells.size)
    (hspares : ∀ read path u,
      n.Stores (introspectWithin lang w.files.loadLimit) lang w read path u →
        w.SparesFile n read path) :
    n.introspect lang w =
        n.carryOutWith (introspectWithin lang w.files.loadLimit) lang (w.getRaw n) w ∧
      (n.introspect lang w).2.instructions n = w.instructions n ∧
      ∀ p ∈ ((n.introspect lang w).2.cell n).entries, p.1 = directoryKey →
        p ∈ (w.cell n).entries ∨
          ∃ path names, (∃ format u,
            n.Requests (introspectWithin lang w.files.loadLimit) lang w format path u) ∧
              w.files.locate path = .ok names ∧ p.2 = .text (Files.parentPath names) := by
  have hrun : n.introspect lang w =
      n.introspectWith (introspectWithin lang w.files.loadLimit) lang w := rfl
  have hheeds := heeds_introspectWith lang ⟨hclosed, hinert, hn⟩ hspares
  rw [hrun]
  exact ⟨hheeds.same, hheeds.keeps.kept.instructions, hheeds.keeps.kept.directory⟩

end NodeId

/-- A node in a directory that lists a file there with properties of the given text. The directory
has another one with properties in markup. -/
def World.planted (text : String) : World :=
  let w := ((World.initial ⟨false, false, 0⟩ ⟨.directory [("d", .directory
    [("p.properties", .file (some text)),
      ("q.xml", .file (some "<properties><entry key=\"a\">1</entry></properties>"))])], []⟩).create
    true).2
  let w := w.put ⟨1⟩ directoryKey (.text "/d")
  (w.put ⟨1⟩ "$properties" (.text "p.properties")).hold [⟨1⟩]

theorem World.closed_planted (text : String) : (World.planted text).Closed := by
  have hfree : ∀ text : String, ∀ r ∈ (Value.text text).nodes, r.index < 2 :=
    fun _ _ hr => (List.not_mem_nil hr).elim
  have hcreated := (World.closed_initial ⟨false, false, 0⟩ (World.planted text).files).create true
  have hfirst := @Closed.put _ hcreated ⟨1⟩ (Nat.lt_succ_self 1) directoryKey _ (hfree "/d")
  have hsecond := @Closed.put _ hfirst ⟨1⟩ (Nat.lt_succ_self 1) "$properties" _
    (hfree "p.properties")
  refine ⟨hsecond.references, hsecond.parents, ?_⟩
  intro m hm
  have hholders : (World.planted text).holders = [⟨0⟩, ⟨1⟩] := rfl
  rw [hholders] at hm
  have hsize : (World.planted text).cells.size = 2 := rfl
  rw [hsize]
  simp only [List.mem_cons, List.not_mem_nil, or_false] at hm
  rcases hm with rfl | rfl <;> decide

namespace NodeId

open ScriptTree.Action World

/-- The one file with properties that the node asks for, and its one key is no instruction. -/
theorem sparesFile_planted {read : Properties.Reader} {path : String} {u : World}
    (hstores : (⟨1⟩ : NodeId).Stores
      (introspectWithin (.ofFuel 0) (planted "k = 1").files.loadLimit) (.ofFuel 0)
      (planted "k = 1") read path u) :
    (planted "k = 1").SparesFile ⟨1⟩ read path := by
  -- No literal and no document is listed, so the lists begin in the same world.
  have hskip : ∀ key take (b : World), (planted "k = 1").getRaw ⟨1⟩ key = none →
      (⟨1⟩ : NodeId).eachFile (.ofFuel 0) key take (planted "k = 1") = (.done (), b) →
      b = planted "k = 1" := by
    intro key take b hnone hrun
    rw [eachFile_eq_takeValue, hnone] at hrun
    exact (Prod.mk.inj hrun).2.symm
  have hinert : (planted "k = 1").Inert := inert_of_engine rfl rfl
  cases hstores with
  | lines hjson hxml hlists =>
      rcases hskip _ _ _ (by decide) hjson with rfl
      rcases hskip _ _ _ (by decide) hxml with rfl
      obtain ⟨text, before, name, after, b, htext, hnames, hbefore, hlocal⟩ := hlists.exists_names
      have hvalue : ((planted "k = 1").getRaw ⟨1⟩ "$properties").map (planted "k = 1").text =
        some "p.properties" := by decide
      rw [getText_of_inert (.ofFuel 0) hinert, hvalue] at htext
      rcases Option.some.inj (Outcome.done.inj (Prod.mk.inj htext).1) with rfl
      have hlisted : before ++ name :: after = ["p.properties"] := hnames.symm.trans (by decide)
      obtain ⟨rfl, hname⟩ : before = [] ∧ name :: after = ["p.properties"] := by
        cases before with
        | nil => exact ⟨rfl, hlisted⟩
        | cons first rest => simp at hlisted
      rcases (List.cons.inj hname).1 with rfl
      rcases (Prod.mk.inj hbefore).2 with rfl
      have hpath := (resolve_of_localFile (.ofFuel 0) hinert hlocal).1
      have hfound : (planted "k = 1").files.resolve ((planted "k = 1").directoryOf ⟨1⟩)
          "p.properties" = .ok "/d/p.properties" :=
        Except.eq_ok_of_toOption (by decide +kernel)
      rcases Except.ok.inj (hpath.symm.trans hfound) with rfl
      intro text properties htext hproperties p hp name rest hsuffix _
      have hread : (planted "k = 1").files.read "/d/p.properties" = .ok "k = 1" :=
        Except.eq_ok_of_toOption (by decide +kernel)
      rcases Except.ok.inj (htext.symm.trans hread) with rfl
      have hparsed : Properties.ofLines "k = 1" = .ok [("k", "1")] :=
        Except.eq_ok_of_toOption (by decide +kernel)
      rcases Except.ok.inj (hproperties.symm.trans hparsed) with rfl
      rcases List.mem_singleton.mp hp with rfl
      have hsplit : propertyNames "k" = [['k']] := by decide
      rw [hsplit] at hsuffix
      rcases List.mem_singleton.mp (hsuffix.mem List.mem_cons_self) with rfl
      decide
  | @markup _ b c d _ hjson hxml hlines hlists =>
      rcases hskip _ _ _ (by decide) hjson with rfl
      rcases hskip _ _ _ (by decide) hxml with rfl
      -- Nor is a file with properties in markup, once those in lines are stored.
      obtain ⟨text, -, -, -, -, htext, -⟩ := hlists.exists_names
      have hd : d = ((⟨1⟩ : NodeId).eachFile (.ofFuel 0) "$properties"
          ((⟨1⟩ : NodeId).loadProperties Properties.ofLines) (planted "k = 1")).2 := by
        rw [hlines]
      have hlater : d.Inert := by
        apply inert_of_engine
        · rw [hd]
          decide +kernel
        · rw [hd]
          decide +kernel
      have hnone : d.getRaw ⟨1⟩ "$properties-xml" = none := by
        rw [hd]
        decide +kernel
      rw [getText_of_inert (.ofFuel 0) hlater, hnone] at htext
      cases (Prod.mk.inj htext).1

/-- The node keeps its instructions when the file holds a plain property, which is stored. -/
theorem introspect_plain :
    (⟨1⟩ : NodeId).introspect (.ofFuel 0) (planted "k = 1") =
        (⟨1⟩ : NodeId).carryOutWith
          (introspectWithin (.ofFuel 0) (planted "k = 1").files.loadLimit) (.ofFuel 0)
          ((planted "k = 1").getRaw ⟨1⟩) (planted "k = 1") ∧
      ((⟨1⟩ : NodeId).introspect (.ofFuel 0) (planted "k = 1")).2.instructions ⟨1⟩ =
        (planted "k = 1").instructions ⟨1⟩ ∧
      ((((⟨1⟩ : NodeId).introspect (.ofFuel 0) (planted "k = 1")).2.getRaw ⟨1⟩ "k").map
        (planted "k = 1").text) = some "1" := by
  obtain ⟨hsame, hkept, -⟩ := introspect_eq_carryOutWith (.ofFuel 0) (closed_planted "k = 1")
    (inert_of_engine rfl rfl) (Nat.lt_succ_self 1) fun _ _ _ => sparesFile_planted
  refine ⟨hsame, hkept, ?_⟩
  decide +kernel

/-- A key of a property that starts like an instruction is stored as one, and carried out although
the node did not hold it. -/
theorem introspect_planted :
    (World.planted "$properties-xml = q.xml").getRaw ⟨1⟩ "$properties-xml" = none ∧
    ∃ w', (⟨1⟩ : NodeId).introspect (.ofFuel 0) (World.planted "$properties-xml = q.xml") =
        (.done (), w') ∧
      ((w'.getRaw ⟨1⟩ "$properties-xml").map w'.text = some "q.xml") ∧
      (w'.getRaw ⟨1⟩ "a").map w'.text = some "1" ∧
      ((⟨1⟩ : NodeId).carryOutWith (introspectWithin (.ofFuel 0) w'.files.loadLimit) (.ofFuel 0)
        ((World.planted "$properties-xml = q.xml").getRaw ⟨1⟩)
        (World.planted "$properties-xml = q.xml")).2.getRaw ⟨1⟩ "a" = none := by
  have hdone := @eq_done_of_isDone ((⟨1⟩ : NodeId).introspect (.ofFuel 0))
    (World.planted "$properties-xml = q.xml") (by decide +kernel)
  refine ⟨by decide +kernel, _, hdone, ?_, ?_, ?_⟩
  · decide +kernel
  · decide +kernel
  · decide +kernel

end NodeId

end ScriptTree
