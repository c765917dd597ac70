import ScriptTree.Proofs.Load.Flattening
import ScriptTree.Proofs.World.Revised

/-!
# Properties over a tree

Properties are stored in a tree one after the other, and none of them moves the place of another
one (`World.placeOf?_flatten`). So a node holds afterwards what it held before, with the properties
that have their place in it stored in order (`World.cell_flatten`). All that a list of properties
does to a tree follows from that (`World.flatten_overrides`): the last property of a place stays, no
other entry, link or name changes, and the same list once more changes nothing.
-/

set_option autoImplicit false

namespace ScriptTree

/-! ## Entries stored in order -/

namespace Entries

variable {α : Type} {entries : Entries α} {key other : String}

/-- Stores values in order. -/
def insertAll (entries : Entries α) (pairs : List (String × α)) : Entries α :=
  pairs.foldl (fun entries p => entries.insert p.1 p.2) entries

theorem insertAll_append (entries : Entries α) (pairs more : List (String × α)) :
    entries.insertAll (pairs ++ more) = (entries.insertAll pairs).insertAll more :=
  List.foldl_append

/-- A known key keeps its place, so it does not matter when it gets its value. -/
theorem insert_comm (hkey : key ∈ entries.keys) (hne : key ≠ other) (x y : α) :
    (entries.insert key x).insert other y = (entries.insert other y).insert key x := by
  induction entries with
  | nil => cases hkey
  | cons p rest ih =>
      obtain ⟨k, v⟩ := p
      by_cases hk : k = key
      · subst hk
        simp [insert, hne]
      · have hrest : key ∈ keys rest := (List.mem_cons.mp hkey).resolve_left (Ne.symm hk)
        by_cases ho : k = other
        · subst ho
          simp [insert, hk]
        · simp [insert, hk, ho, ih hrest]

theorem keys_prefix_insert (entries : Entries α) (key : String) (x : α) :
    entries.keys <+: (entries.insert key x).keys := by
  by_cases hkey : key ∈ entries.keys
  · rw [keys_insert_of_mem entries x hkey]
  · rw [insert_of_not_mem entries x hkey, keys, keys, List.map_append]
    exact List.prefix_append _ _

theorem mem_keys_insert_self (entries : Entries α) (key : String) (x : α) :
    key ∈ (entries.insert key x).keys := by
  rw [← contains_iff_mem_keys, contains, get?_insert, if_pos (beq_self_eq_true key)]
  rfl

theorem keys_prefix_insertAll (entries : Entries α) (pairs : List (String × α)) :
    entries.keys <+: (entries.insertAll pairs).keys := by
  induction pairs generalizing entries with
  | nil => exact List.prefix_refl _
  | cons p rest ih => exact (keys_prefix_insert entries p.1 p.2).trans (ih _)

theorem mem_insertAll {pairs : List (String × α)} {p : String × α}
    (h : p ∈ entries.insertAll pairs) : p ∈ pairs ∨ p ∈ entries := by
  induction pairs generalizing entries with
  | nil => exact .inr h
  | cons q rest ih =>
      rcases ih h with hrest | hinsert
      · exact .inl (List.mem_cons_of_mem _ hrest)
      · rcases mem_insert hinsert with rfl | hold
        · exact .inl List.mem_cons_self
        · exact .inr hold

theorem get?_insertAll_of_notMem {pairs : List (String × α)} (h : ∀ p ∈ pairs, p.1 ≠ key) :
    (entries.insertAll pairs).get? key = entries.get? key := by
  induction pairs generalizing entries with
  | nil => rfl
  | cons p rest ih =>
      obtain ⟨hp, hrest⟩ := List.forall_mem_cons.mp h
      show ((entries.insert p.1 p.2).insertAll rest).get? key = _
      rw [ih hrest, get?_insert, if_neg fun heq => hp (eq_of_beq heq)]

/-- A value does not matter when its key, which is known, gets another one later. -/
theorem insertAll_insert {pairs : List (String × α)} (hkey : key ∈ entries.keys)
    (hlater : ∃ p ∈ pairs, p.1 = key) (x : α) :
    (entries.insert key x).insertAll pairs = entries.insertAll pairs := by
  induction pairs generalizing entries with
  | nil => simp at hlater
  | cons p rest ih =>
      obtain ⟨other, y⟩ := p
      show ((entries.insert key x).insert other y).insertAll rest =
        (entries.insert other y).insertAll rest
      by_cases hsame : other = key
      · rw [hsame, insert_insert_self]
      · have hrest : ∃ p ∈ rest, p.1 = key := by
          obtain ⟨p, hp, heq⟩ := hlater
          rcases List.mem_cons.mp hp with rfl | hp
          · exact absurd heq hsame
          · exact ⟨p, hp, heq⟩
        rw [insert_comm hkey (Ne.symm hsame)]
        exact ih ((keys_prefix_insert entries other y).subset hkey) hrest

/-- To store the same values in the same order again changes nothing. -/
theorem insertAll_insertAll (entries : Entries α) (pairs : List (String × α)) :
    (entries.insertAll pairs).insertAll pairs = entries.insertAll pairs := by
  induction pairs generalizing entries with
  | nil => rfl
  | cons p rest ih =>
      obtain ⟨key, x⟩ := p
      generalize hstored : (entries.insert key x).insertAll rest = stored
      have hrest : stored.insertAll rest = stored := hstored ▸ ih (entries.insert key x)
      have hknown : key ∈ stored.keys :=
        hstored ▸ (keys_prefix_insertAll _ rest).subset (mem_keys_insert_self entries key x)
      show (((entries.insert key x).insertAll rest).insert key x).insertAll rest =
        (entries.insert key x).insertAll rest
      rw [hstored]
      -- Either the key gets its last value later, or it has the value already.
      by_cases hlater : ∃ p ∈ rest, p.1 = key
      · rw [insertAll_insert hknown hlater, hrest]
      · have hvalue : stored.get? key = some x := by
          rw [← hstored, get?_insertAll_of_notMem fun p hp heq => hlater ⟨p, hp, heq⟩, get?_insert,
            if_pos (beq_self_eq_true key)]
        rw [insert_of_get? hvalue, hrest]

end Entries

namespace Properties

/-- The front of a text up to its first placeholder, or all of it where it has none. -/
def IsFront (s front : List Char) : Prop :=
  (front = s ∧ ¬ placeholder <:+: s) ∨
    ∃ rest, s = front ++ placeholder ++ rest ∧ ∀ k < front.length, ¬ placeholder <+: s.drop k

theorem isFront_upToPlaceholder (s : List Char) : IsFront s (upToPlaceholder s) := by
  rw [upToPlaceholder]
  cases hk : Text.indexOf? placeholder s with
  | none =>
      refine .inl ⟨rfl, fun hinfix => ?_⟩
      have hcontains := (Text.containsText_iff placeholder s).mpr hinfix
      rw [Text.containsText, hk] at hcontains
      cases hcontains
  | some k =>
      obtain ⟨rest, hrest⟩ := List.isPrefixOf_iff_prefix.mp (Text.indexOf?_isPrefixOf hk)
      refine .inr ⟨rest, ?_, fun j hj => ?_⟩
      · rw [List.append_assoc, hrest, List.take_append_drop]
      · rw [List.length_take] at hj
        exact Text.not_prefix_of_lt_indexOf? hk (by omega)

end Properties

namespace World

variable {w : World} {n m : NodeId} {names : List (List Char)} {key : String}

/-! ## Ways of properties -/

/-- The names lead from the first node to the last, each to a node that is stored under it. -/
inductive LeadsTo (w : World) : NodeId → List (List Char) → NodeId → Prop
  | here (n : NodeId) : LeadsTo w n [] n
  | next {n next m : NodeId} {name : List Char} {rest : List (List Char)}
      (h : w.getRaw n (String.ofList name) = some (.node next)) (hrest : LeadsTo w next rest m) :
      LeadsTo w n (name :: rest) m

/-- A property has its place under a key of a node: its names lead to the node up to one that leads
on no more, and the key is made up of that name and all names behind it. -/
def IsPlace (w : World) (n : NodeId) (names : List (List Char)) (m : NodeId) (key : String) : Prop :=
  ∃ front name back, names = front ++ name :: back ∧ w.LeadsTo n front m ∧
    (∀ next, w.getRaw m (String.ofList name) ≠ some (.node next)) ∧
    key = String.ofList (Text.join ['.'] (name :: back))

/-- A property has no place just when all of its names lead on. -/
theorem placeOf?_eq_none_iff : w.placeOf? n names = none ↔ ∃ m, w.LeadsTo n names m := by
  induction names generalizing n with
  | nil => exact ⟨fun _ => ⟨n, .here n⟩, fun _ => rfl⟩
  | cons name rest ih =>
      constructor
      · intro h
        rw [placeOf?] at h
        split at h
        · rename_i next hnext
          obtain ⟨m, hm⟩ := ih.mp h
          exact ⟨m, .next hnext hm⟩
        · cases h
      · rintro ⟨m, hleads⟩
        cases hleads with
        | next hnext hrest =>
            rw [placeOf?_node hnext]
            exact ih.mpr ⟨m, hrest⟩

theorem placeOf?_eq_some_iff : w.placeOf? n names = some (m, key) ↔ w.IsPlace n names m key := by
  induction names generalizing n with
  | nil =>
      refine ⟨nofun, ?_⟩
      rintro ⟨front, name, back, hnames, -⟩
      exact absurd hnames (by simp)
  | cons name rest ih =>
      constructor
      · intro h
        rw [placeOf?] at h
        split at h
        · rename_i next hnext
          obtain ⟨front, last, back, rfl, hleads, hlast⟩ := ih.mp h
          exact ⟨name :: front, last, back, rfl, .next hnext hleads, hlast⟩
        · rename_i hleaf
          cases h
          exact ⟨[], name, rest, rfl, .here _, hleaf, rfl⟩
      · rintro ⟨front, last, back, hnames, hleads, hlast, hkey⟩
        cases hleads with
        | here =>
            obtain ⟨rfl, rfl⟩ := List.cons.inj hnames
            rw [placeOf?_leaf hlast, hkey]
        | next hnext hrest =>
            obtain ⟨rfl, htail⟩ := List.cons.inj hnames
            rw [placeOf?_node hnext]
            exact ih.mpr ⟨_, last, back, htail, hrest, hlast, hkey⟩

instance (w : World) (n : NodeId) (names : List (List Char)) (m : NodeId) (key : String) :
    Decidable (w.IsPlace n names m key) :=
  decidable_of_iff _ placeOf?_eq_some_iff

/-- All names of a property lead on, or it has a place. -/
theorem leadsTo_or_isPlace (w : World) (n : NodeId) (names : List (List Char)) :
    (∃ m, w.LeadsTo n names m) ∨ ∃ m key, w.IsPlace n names m key := by
  cases hplace : w.placeOf? n names with
  | none => exact .inl (placeOf?_eq_none_iff.mp hplace)
  | some place => exact .inr ⟨_, _, placeOf?_eq_some_iff.mp hplace⟩

/-! ## One property after the other -/

/-- What a text at a place of a property keeps is kept by a list of properties. -/
theorem flatten_induction {P : World → Prop} (hclosed : w.Closed) (hn : n.index < w.cells.size)
    (hput : ∀ a x key text, a.Blocked x key → P a → P (a.put x key (.text text))) (h : P w)
    (properties : List (String × String)) :
    (w.flatten n properties).Closed ∧ P (w.flatten n properties) := by
  induction properties generalizing w with
  | nil => exact ⟨hclosed, h⟩
  | cons p rest ih =>
      show ((w.storeProperty n (propertyValue p.2) (propertyNames p.1)).flatten n rest).Closed ∧
        P ((w.storeProperty n (propertyValue p.2) (propertyNames p.1)).flatten n rest)
      rw [storeProperty_eq]
      cases hplace : w.placeOf? n (propertyNames p.1) with
      | none => exact ih hclosed hn h
      | some place =>
          have hblocked := blocked_of_placeOf? hclosed hn hplace
          have hclosed' : (w.put place.1 place.2 (.text (propertyValue p.2))).Closed :=
            hclosed.put hblocked.lt place.2 fun _ hr => (List.not_mem_nil hr).elim
          exact ih hclosed' (by rw [size_put]; exact hn) (hput _ _ _ _ hblocked h)

section Flatten

variable (hclosed : w.Closed) (hn : n.index < w.cells.size) (properties : List (String × String))
include hclosed hn

theorem closed_flatten : (w.flatten n properties).Closed :=
  (flatten_induction (P := fun _ => True) hclosed hn (fun _ _ _ _ _ _ => trivial) trivial
    properties).1

theorem size_flatten : (w.flatten n properties).cells.size = w.cells.size :=
  (flatten_induction (P := fun a => a.cells.size = w.cells.size) hclosed hn
    (fun _ _ _ _ _ h => (size_put ..).trans h) rfl properties).2

/-- Properties change nothing besides nodes. -/
theorem flatten_besides :
    w.flatten n properties = { w with cells := (w.flatten n properties).cells } :=
  (flatten_induction (P := fun a => a = { w with cells := a.cells }) hclosed hn
    (fun a x key text _ h => by
      have hput : a.put x key (.text text) =
          { a with cells := (a.put x key (.text text)).cells } := rfl
      rw [hput, h]) rfl properties).2

/-- No property moves the place of another one. -/
theorem placeOf?_flatten (p : String) :
    (w.flatten n properties).placeOf? n (propertyNames p) = w.placeOf? n (propertyNames p) :=
  (flatten_induction (P := fun a => a.placeOf? n (propertyNames p) = w.placeOf? n (propertyNames p))
    hclosed hn (fun _ _ _ _ hblocked h =>
      (placeOf?_put hblocked (fun _ => point_notMem_propertyNames) n).trans h) rfl properties).2

/-- The last property of a list is stored at the place that it has in the tree before all. -/
theorem flatten_concat (p : String × String) :
    w.flatten n (properties ++ [p]) =
      match w.placeOf? n (propertyNames p.1) with
      | none => w.flatten n properties
      | some (m, key) => (w.flatten n properties).put m key (.text (propertyValue p.2)) := by
  rw [flatten_append, ← placeOf?_flatten hclosed hn properties]
  exact storeProperty_eq _ n _ _

/-- A property whose names all lead on does nothing. -/
theorem flatten_leadsTo {p : String × String} (h : w.LeadsTo n (propertyNames p.1) m)
    (later : List (String × String)) :
    w.flatten n (properties ++ p :: later) = w.flatten n (properties ++ later) := by
  have hnone : w.placeOf? n (propertyNames p.1) = none := placeOf?_eq_none_iff.mpr ⟨m, h⟩
  rw [List.append_cons, flatten_append, flatten_concat hclosed hn, hnone]
  exact (flatten_append w n properties later).symm

end Flatten

/-! ## The nodes afterwards -/

/-- A property as an entry of a node, when it has its place there. -/
def entryIn? (w : World) (n m : NodeId) (p : String × String) : Option (String × Value) :=
  match w.placeOf? n (propertyNames p.1) with
  | some (x, key) => if x = m then some (key, .text (propertyValue p.2)) else none
  | none => none

/-- The properties of a list that have their place in a node, as entries of it. -/
def placedIn (w : World) (n : NodeId) (properties : List (String × String)) (m : NodeId) :
    Entries Value :=
  properties.filterMap (w.entryIn? n m)

theorem placedIn_congr {a : World}
    (h : ∀ p, a.placeOf? n (propertyNames p) = w.placeOf? n (propertyNames p))
    (properties : List (String × String)) (m : NodeId) :
    a.placedIn n properties m = w.placedIn n properties m := by
  have hentry : a.entryIn? n m = w.entryIn? n m := funext fun p => by
    rw [entryIn?, entryIn?, h]
  rw [placedIn, placedIn, hentry]

theorem isText_of_mem_placedIn {properties : List (String × String)} {p : String × Value}
    (h : p ∈ w.placedIn n properties m) : ∃ text, p.2 = .text text := by
  obtain ⟨q, -, hq⟩ := List.mem_filterMap.mp h
  rw [entryIn?] at hq
  split at hq
  · split at hq
    · cases hq
      exact ⟨_, rfl⟩
    · cases hq
  · cases hq

theorem cell_put_text {x : NodeId} (hx : x.index < w.cells.size) (key text : String) (m : NodeId) :
    (w.put x key (.text text)).cell m = if x = m then
      { w.cell m with entries := (w.cell m).entries.insert key (.text text) } else w.cell m := by
  split
  · rename_i hm
    subst hm
    exact cell_put_self hx
  · rename_i hm
    exact cell_put_of_ne hm nofun

/-- A node has the properties placed in it stored over what it held. -/
theorem cell_flatten (hclosed : w.Closed) (hn : n.index < w.cells.size)
    (properties : List (String × String)) (m : NodeId) :
    (w.flatten n properties).cell m =
      { w.cell m with entries := (w.cell m).entries.insertAll (w.placedIn n properties m) } := by
  -- From the last property on: its place is that in the tree before all properties.
  induction properties using List.reverseRecOn with
  | nil => rfl
  | append_singleton properties p ih =>
      have hlast : [p].filterMap (w.entryIn? n m) = (w.entryIn? n m p).toList := by
        rw [List.filterMap_cons]
        cases w.entryIn? n m p <;> rfl
      rw [flatten_concat hclosed hn, placedIn, List.filterMap_append, Entries.insertAll_append,
        hlast, entryIn?]
      cases hplace : w.placeOf? n (propertyNames p.1) with
      | none => exact ih
      | some place =>
          obtain ⟨x, key⟩ := place
          have hlt : x.index < (w.flatten n properties).cells.size := by
            rw [size_flatten hclosed hn]
            exact (blocked_of_placeOf? hclosed hn hplace).lt
          dsimp only
          rw [cell_put_text hlt, ih]
          by_cases hx : x = m
          · rw [if_pos hx, if_pos hx]
            rfl
          · rw [if_neg hx, if_neg hx]
            rfl

section Flatten

variable (hclosed : w.Closed) (hn : n.index < w.cells.size) (properties : List (String × String))
include hclosed hn

theorem references_flatten {r : NodeId} (hr : r ∈ references ((w.flatten n properties).cell m)) :
    r ∈ references (w.cell m) := by
  rw [references, cell_flatten hclosed hn] at hr
  obtain ⟨p, hp, hr⟩ := List.mem_flatMap.mp hr
  rcases Entries.mem_insertAll hp with hplaced | hold
  · obtain ⟨text, htext⟩ := isText_of_mem_placedIn hplaced
    rw [htext] at hr
    cases hr
  · exact List.mem_flatMap.mpr ⟨p, hold, hr⟩

/-- Properties keep no node alive. -/
theorem alive_of_flatten {x : NodeId} (h : (w.flatten n properties).alive x = true) :
    w.alive x = true := by
  have hbesides := flatten_besides hclosed hn properties
  refine alive_mono ?_ (Nat.le_of_eq (size_flatten hclosed hn properties)) (fun _ _ =>
    references_flatten hclosed hn properties) h
  rw [holders, holders, hbesides]

/-- A node has the parent that it had, as long as that is alive. -/
theorem parent?_flatten (m : NodeId) :
    (w.flatten n properties).parent? m =
      (w.parent? m).filter (w.flatten n properties).alive := by
  rw [parent?, parent?, cell_flatten hclosed hn, Option.filter_filter]
  refine congrArg (Option.filter · _) (funext fun p => ?_)
  rw [Bool.eq_iff_iff, Bool.and_eq_true]
  exact ⟨fun h => ⟨alive_of_flatten hclosed hn properties h, h⟩, fun h => h.2⟩

/-- The same properties once more change nothing. -/
theorem flatten_flatten :
    (w.flatten n properties).flatten n properties = w.flatten n properties := by
  have hclosed' := closed_flatten hclosed hn properties
  have hn' : n.index < (w.flatten n properties).cells.size := by
    rw [size_flatten hclosed hn]
    exact hn
  refine eq_of_cell (fun m => ?_) (size_flatten hclosed' hn' properties)
    (flatten_besides hclosed' hn' properties)
  rw [cell_flatten hclosed' hn', cell_flatten hclosed hn,
    placedIn_congr (placeOf?_flatten hclosed hn properties), Entries.insertAll_insertAll]

end Flatten

/-! ## What properties override -/

/-- What a list of properties makes of the tree below a node: in the second world each place of a
property has the text of the last property with that place, and all else is as in the first. The
places are those in the first world, and they are the same in the second. -/
structure Overridden (w : World) (n : NodeId) (properties : List (String × String))
    (w' : World) : Prop where
  places : ∀ property m key,
    w'.IsPlace n (propertyNames property) m key ↔ w.IsPlace n (propertyNames property) m key
  last : ∀ earlier p later m key, properties = earlier ++ p :: later →
    w.IsPlace n (propertyNames p.1) m key →
    (∀ q ∈ later, ¬ w.IsPlace n (propertyNames q.1) m key) →
    ∃ front, Properties.IsFront (Text.trim p.2.toList) front ∧
      w'.getRaw m key = some (.text (String.ofList front))
  others : ∀ m key, (∀ p ∈ properties, ¬ w.IsPlace n (propertyNames p.1) m key) →
    w'.getRaw m key = w.getRaw m key
  /-- New keys come behind those that were there. -/
  keys : ∀ m, w.keys m <+: w'.keys m
  size : w'.cells.size = w.cells.size
  names : ∀ m, (w'.cell m).name = (w.cell m).name
  links : ∀ m, (w'.cell m).parent = (w.cell m).parent
  /-- A parent may be let go with the value that was at a place. -/
  parents : ∀ m, w'.parent? m = (w.parent? m).filter w'.alive
  engined : ∀ m, (w'.cell m).engined = (w.cell m).engined
  besides : w' = { w with cells := w'.cells }

theorem lastAt?_of_last {earlier later : List (String × String)} {p : String × String}
    (hplace : w.IsPlace n (propertyNames p.1) m key)
    (hlater : ∀ q ∈ later, ¬ w.IsPlace n (propertyNames q.1) m key) :
    w.lastAt? n (earlier ++ p :: later) m key = some (.text (propertyValue p.2)) := by
  have hlast : (w.placeOf? n (propertyNames p.1) == some (m, key)) = true :=
    beq_iff_eq.mpr (placeOf?_eq_some_iff.mpr hplace)
  have hnone : (later.filter fun q => w.placeOf? n (propertyNames q.1) == some (m, key)) = [] :=
    List.filter_eq_nil_iff.mpr fun q hq heq =>
      hlater q hq (placeOf?_eq_some_iff.mp (eq_of_beq heq))
  rw [lastAt?, List.filter_append, List.filter_cons, if_pos hlast, hnone, List.getLast?_append]
  rfl

theorem lastAt?_of_notMem {properties : List (String × String)}
    (h : ∀ p ∈ properties, ¬ w.IsPlace n (propertyNames p.1) m key) :
    w.lastAt? n properties m key = none := by
  rw [lastAt?, List.filter_eq_nil_iff.mpr fun p hp heq =>
    h p hp (placeOf?_eq_some_iff.mp (eq_of_beq heq))]
  rfl

theorem overridden_flatten (hclosed : w.Closed) (hn : n.index < w.cells.size)
    (properties : List (String × String)) :
    w.Overridden n properties (w.flatten n properties) where
  places property m key := by
    rw [← placeOf?_eq_some_iff, placeOf?_flatten hclosed hn, placeOf?_eq_some_iff]
  last := by
    rintro earlier p later m key rfl hplace hlater
    refine ⟨_, Properties.isFront_upToPlaceholder _, ?_⟩
    rw [getRaw_flatten hclosed hn, lastAt?_of_last hplace hlater]
    rfl
  others m key h := by
    rw [getRaw_flatten hclosed hn, lastAt?_of_notMem h, Option.none_or]
  keys m := by
    rw [keys, keys, cell_flatten hclosed hn]
    exact Entries.keys_prefix_insertAll _ _
  size := size_flatten hclosed hn properties
  names m := by rw [cell_flatten hclosed hn]
  links m := by rw [cell_flatten hclosed hn]
  parents := parent?_flatten hclosed hn properties
  engined m := by rw [cell_flatten hclosed hn]
  besides := flatten_besides hclosed hn properties

/-- A list of properties overrides the tree below a node. Each property has a place in the tree
before all of them, or all of its names lead to nodes. In the first case it is stored at that place
by whatever properties it is preceded, in the second it may be left out. The same list once more
changes nothing. -/
theorem flatten_overrides (hclosed : w.Closed) (hn : n.index < w.cells.size)
    (properties : List (String × String)) :
    w.Overridden n properties (w.flatten n properties) ∧
      (∀ p : String × String, (∃ m, w.LeadsTo n (propertyNames p.1) m) ∨
        ∃ m key, w.IsPlace n (propertyNames p.1) m key) ∧
      (∀ p m key, w.IsPlace n (propertyNames p.1) m key →
        w.flatten n (properties ++ [p]) =
          (w.flatten n properties).put m key (.text (propertyValue p.2))) ∧
      (∀ p m, w.LeadsTo n (propertyNames p.1) m → ∀ later,
        w.flatten n (properties ++ p :: later) = w.flatten n (properties ++ later)) ∧
      (w.flatten n properties).flatten n properties = w.flatten n properties := by
  refine ⟨overridden_flatten hclosed hn properties, fun p => leadsTo_or_isPlace w n _, ?_,
    fun _ _ h later => flatten_leadsTo hclosed hn properties h later,
    flatten_flatten hclosed hn properties⟩
  intro p m key hplace
  rw [flatten_concat hclosed hn, placeOf?_eq_some_iff.mpr hplace]

/-- A node that holds a node and, under a key with a point, another one. -/
def tangle : World :=
  let w := ((((initial ⟨false, false, 0⟩ ⟨default, []⟩).create false).2.create false).2.create
    false).2
  ((w.put ⟨1⟩ "a" (.node ⟨2⟩)).put ⟨1⟩ "a.b" (.node ⟨3⟩)).put ⟨2⟩ "b" (.text "x")

theorem closed_tangle : tangle.Closed := by
  have hnodes := (((closed_initial ⟨false, false, 0⟩ ⟨default, []⟩).create false).create
    false).create false
  have hfirst := @Closed.put _ hnodes ⟨1⟩ (by decide) "a" (.node ⟨2⟩) (by decide)
  have hsecond := @Closed.put _ hfirst ⟨1⟩ (by decide) "a.b" (.node ⟨3⟩) (by decide)
  exact @Closed.put _ hsecond ⟨2⟩ (by decide) "b" (.text "x") (by decide)

/-- Properties with places below the node, beside it and on it. -/
def tangleProperties : List (String × String) :=
  [("a.b", "1"), ("a", "2"), (" c . d ", " v \x7b0\x7d w "), ("a.b", "3")]

/-- The key with a point leads below the first node, and the last of its values stays there. -/
theorem flatten_overrides_tangle :
    tangle.Overridden ⟨1⟩ tangleProperties (tangle.flatten ⟨1⟩ tangleProperties) ∧
      (tangle.flatten ⟨1⟩ tangleProperties).flatten ⟨1⟩ tangleProperties =
        tangle.flatten ⟨1⟩ tangleProperties ∧
      (tangle.flatten ⟨1⟩ tangleProperties).getRaw ⟨2⟩ "b" = some (.text "3") ∧
      (tangle.flatten ⟨1⟩ tangleProperties).getRaw ⟨1⟩ "c.d" = some (.text "v ") := by
  obtain ⟨hoverridden, -, -, -, hagain⟩ :=
    @flatten_overrides tangle ⟨1⟩ closed_tangle (by decide) tangleProperties
  exact ⟨hoverridden, hagain, rfl, rfl⟩

/-! ## Nodes that stay -/

section Nodes

variable (hclosed : w.Closed) (hn : n.index < w.cells.size) (properties : List (String × String))
include hclosed hn

/-- A node that is stored under a key without a point is not at the place of a property. -/
theorem not_isPlace_of_node {c : NodeId} (h : w.getRaw m key = some (.node c))
    (hkey : '.' ∉ key.toList) (property : String) :
    ¬ w.IsPlace n (propertyNames property) m key := fun hplace =>
  (blocked_of_placeOf? hclosed hn (placeOf?_eq_some_iff.mpr hplace)).leaf key.toList hkey
    String.ofList_toList.symm c h

/-- An entry keeps its node just when no property has its place there. -/
theorem getRaw_flatten_node_iff {c : NodeId} (h : w.getRaw m key = some (.node c)) :
    (w.flatten n properties).getRaw m key = some (.node c) ↔
      ∀ p ∈ properties, ¬ w.IsPlace n (propertyNames p.1) m key := by
  constructor
  · intro hkept p hp hplace
    -- The last property with the place would have its text there.
    obtain ⟨text, htext⟩ : ∃ text, w.lastAt? n properties m key = some (.text text) := by
      have hmem : p ∈ properties.filter fun p =>
          w.placeOf? n (propertyNames p.1) == some (m, key) :=
        List.mem_filter.mpr ⟨hp, beq_iff_eq.mpr (placeOf?_eq_some_iff.mpr hplace)⟩
      rw [lastAt?, List.getLast?_eq_some_getLast (List.ne_nil_of_mem hmem)]
      exact ⟨_, rfl⟩
    rw [getRaw_flatten hclosed hn, htext] at hkept
    cases hkept
  · intro hfree
    rw [getRaw_flatten hclosed hn, lastAt?_of_notMem hfree, Option.none_or, h]

/-- Names without points lead to the same node as before. -/
theorem LeadsTo.flatten {x : NodeId} (h : w.LeadsTo x names m)
    (hnames : ∀ name ∈ names, '.' ∉ name) : (w.flatten n properties).LeadsTo x names m := by
  induction h with
  | here x => exact .here x
  | @next x next m name rest hnext _ ih =>
      obtain ⟨hname, hrest⟩ := List.forall_mem_cons.mp hnames
      refine .next ?_ (ih hrest)
      refine (getRaw_flatten_node_iff hclosed hn properties hnext).mpr fun p _ => ?_
      exact not_isPlace_of_node hclosed hn hnext (by rwa [String.toList_ofList]) p.1

/-- Properties keep the node of an entry just when none of them has its place there, as is so under
every key without a point. What names without points lead to stays. -/
theorem flatten_keeps_nodes :
    (∀ m key c, w.getRaw m key = some (.node c) →
      ((w.flatten n properties).getRaw m key = some (.node c) ↔
        ∀ p ∈ properties, ¬ w.IsPlace n (propertyNames p.1) m key) ∧
      ('.' ∉ key.toList → (w.flatten n properties).getRaw m key = some (.node c))) ∧
    ∀ x names m, (∀ name ∈ names, '.' ∉ name) → w.LeadsTo x names m →
      (w.flatten n properties).LeadsTo x names m := by
  refine ⟨fun m key c h => ?_, fun x names m hnames h => h.flatten hclosed hn properties hnames⟩
  have hiff := getRaw_flatten_node_iff hclosed hn properties h
  exact ⟨hiff, fun hkey => hiff.mpr fun p _ => not_isPlace_of_node hclosed hn h hkey p.1⟩

end Nodes

/-- Both nodes stay: the properties with the key of the second go below the first. -/
theorem flatten_keeps_nodes_tangle :
    (tangle.flatten ⟨1⟩ tangleProperties).getRaw ⟨1⟩ "a" = some (.node ⟨2⟩) ∧
      (tangle.flatten ⟨1⟩ tangleProperties).getRaw ⟨1⟩ "a.b" = some (.node ⟨3⟩) := by
  obtain ⟨hentries, -⟩ :=
    @flatten_keeps_nodes tangle ⟨1⟩ closed_tangle (by decide) tangleProperties
  exact ⟨(hentries ⟨1⟩ "a" ⟨2⟩ rfl).2 (by decide),
    (hentries ⟨1⟩ "a.b" ⟨3⟩ rfl).1.mpr (by decide +kernel)⟩

/-- A node that holds a node under a key with a point. -/
def dotted : World :=
  (((initial ⟨false, false, 0⟩ ⟨default, []⟩).create false).2.create false).2.put ⟨1⟩ "a.b"
    (.node ⟨2⟩)

/-- Where the names lead nowhere they make up the key of the node, and the text takes its place. -/
theorem flatten_replaces_node :
    dotted.getRaw ⟨1⟩ "a.b" = some (.node ⟨2⟩) ∧
      (dotted.flatten ⟨1⟩ [("a.b", "1")]).getRaw ⟨1⟩ "a.b" = some (.text "1") :=
  ⟨rfl, rfl⟩

end World

end ScriptTree
