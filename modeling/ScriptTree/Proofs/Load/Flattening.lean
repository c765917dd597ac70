import ScriptTree.Proofs.Load.Merge
import ScriptTree.Proofs.Reading.Finding
import ScriptTree.Proofs.Text.Parts

/-!
# Flat properties in a tree

Where a property is stored follows from its key alone: its names lead from node to node, and what is
left of them is the key of the entry (`World.placeOf?`). Storing properties takes no step of such a
way away and adds none, since it stores texts, and under names with points or where there was no
node. So all properties of a list may be placed in the tree as it is before, and an entry is the
last of those that have its place (`World.getRaw_flatten`).
-/

set_option autoImplicit false

namespace ScriptTree

namespace Text

theorem notMem_of_mem_splitAt {separator : Char} {s piece : List Char}
    (h : piece ∈ splitAt separator s) : separator ∉ piece := by
  show separator ∉ piece
  have hpieces : ∀ s : List Char, ∀ piece ∈ splitFrom [separator] 0 s, separator ∉ piece := by
    intro s
    induction s with
    | nil =>
        intro piece hpiece
        rw [List.mem_singleton.mp hpiece]
        exact List.not_mem_nil
    | cons c rest ih =>
        intro piece hpiece
        by_cases hc : separator = c
        · subst hc
          rw [splitFrom_separator] at hpiece
          rcases List.mem_cons.mp hpiece with rfl | hpiece
          · exact List.not_mem_nil
          · exact ih piece hpiece
        · rw [splitFrom_of_ne hc] at hpiece
          cases hrest : splitFrom [separator] 0 rest with
          | nil => exact absurd hrest (splitFrom_ne_nil _ _ _)
          | cons first pieces =>
              rw [hrest] at hpiece ih
              rcases List.mem_cons.mp hpiece with rfl | hpiece
              · rw [List.mem_cons, not_or]
                exact ⟨hc, ih first List.mem_cons_self⟩
              · exact ih piece (List.mem_cons_of_mem _ hpiece)
  exact hpieces s piece h

end Text

namespace World

variable {a : World} {n m x : NodeId} {key : String} {text : String} {names : List (List Char)}

/-- The node that the names of a property lead to, and the key of the entry there: the names that
are left. There is none when all names lead on to nodes. -/
def placeOf? (a : World) : NodeId → List (List Char) → Option (NodeId × String)
  | _, [] => none
  | n, name :: rest =>
      match a.getRaw n (String.ofList name) with
      | some (.node next) => a.placeOf? next rest
      | _ => some (n, String.ofList (Text.join ['.'] (name :: rest)))

theorem placeOf?_node {name : List Char} {next : NodeId}
    (h : a.getRaw n (String.ofList name) = some (.node next)) (rest : List (List Char)) :
    a.placeOf? n (name :: rest) = a.placeOf? next rest := by
  rw [placeOf?, h]

theorem placeOf?_leaf {name : List Char}
    (h : ∀ next, a.getRaw n (String.ofList name) ≠ some (.node next)) (rest : List (List Char)) :
    a.placeOf? n (name :: rest) = some (n, String.ofList (Text.join ['.'] (name :: rest))) := by
  rw [placeOf?]
  split
  · rename_i next hnext
    exact absurd hnext (h next)
  · rfl

/-- A property is stored in its place. -/
theorem storeProperty_eq (a : World) (n : NodeId) (text : String) (names : List (List Char)) :
    a.storeProperty n text names =
      match a.placeOf? n names with
      | none => a
      | some (x, key) => a.put x key (.text text) := by
  induction names generalizing n with
  | nil => rfl
  | cons name rest ih =>
      rw [storeProperty]
      split
      · rename_i next hnext
        rw [placeOf?_node hnext, ih]
      · rename_i hleaf
        rw [placeOf?_leaf hleaf]

theorem point_notMem_propertyNames {key : String} {name : List Char}
    (h : name ∈ propertyNames key) : '.' ∉ name := by
  obtain ⟨piece, hpiece, rfl⟩ := List.mem_map.mp h
  exact fun hpoint => Text.notMem_of_mem_splitAt hpiece ((Text.trim_infix piece).mem hpoint)

/-- A text under the key leads nowhere, and so does what was there, unless no name is such a key. -/
structure Blocked (a : World) (x : NodeId) (key : String) : Prop where
  lt : x.index < a.cells.size
  leaf : ∀ name : List Char, '.' ∉ name → key = String.ofList name →
    ∀ next, a.getRaw x key ≠ some (.node next)

/-- Storing a text there takes no property to another place. -/
theorem placeOf?_put (h : a.Blocked x key) (hnames : ∀ name ∈ names, '.' ∉ name) (n : NodeId) :
    (a.put x key (.text text)).placeOf? n names = a.placeOf? n names := by
  induction names generalizing n with
  | nil => rfl
  | cons name rest ih =>
      obtain ⟨hname, hrest⟩ := List.forall_mem_cons.mp hnames
      -- The name asks for the stored entry, which did not lead on before either, or for another.
      by_cases hsame : x = n ∧ key = String.ofList name
      · obtain ⟨rfl, hkey⟩ := hsame
        have hafter : (a.put x key (.text text)).getRaw x (String.ofList name) =
            some (.text text) := by
          rw [getRaw_put_self a _ _ _ h.lt, if_pos (beq_iff_eq.mpr hkey)]
        have hbefore := h.leaf name hname hkey
        rw [hkey] at hbefore
        rw [placeOf?_leaf hbefore, placeOf?_leaf]
        intro next hnext
        cases hafter.symm.trans hnext
      · have hraw : (a.put x key (.text text)).getRaw n (String.ofList name) =
            a.getRaw n (String.ofList name) := by
          by_cases hx : x = n
          · subst hx
            rw [getRaw_put_self a _ _ _ h.lt, if_neg]
            exact fun heq => hsame ⟨rfl, eq_of_beq heq⟩
          · exact getRaw_put_of_ne a _ _ _ hx
        rw [placeOf?, placeOf?, hraw]
        split
        · exact ih hrest _
        · rfl

/-- A place of a property is one where nothing leads on. -/
theorem blocked_of_placeOf? (hclosed : a.Closed) (hn : n.index < a.cells.size)
    (h : a.placeOf? n names = some (x, key)) : a.Blocked x key := by
  induction names generalizing n with
  | nil => cases h
  | cons name rest ih =>
      rw [placeOf?] at h
      split at h
      · rename_i next hnext
        apply ih _ h
        exact hclosed.references n next
          (List.mem_flatMap.mpr ⟨_, Entries.mem_of_get?_eq_some hnext, List.mem_cons_self⟩)
      · rename_i hleaf
        obtain ⟨rfl, rfl⟩ := Prod.mk.inj (Option.some.inj h)
        refine ⟨hn, fun other hother hkey next => ?_⟩
        cases rest with
        | nil => exact hleaf next
        | cons following rest =>
            -- The key has a point, so it is no name.
            refine absurd ?_ hother
            have hchars := congrArg String.toList hkey
            rw [String.toList_ofList, String.toList_ofList] at hchars
            rw [← hchars, Text.join]
            exact List.mem_append_left _ (List.mem_append_right _ List.mem_cons_self)

/-- The last of the properties that have the place. -/
def lastAt? (a : World) (n : NodeId) (properties : List (String × String)) (m : NodeId)
    (key : String) : Option Value :=
  (properties.filter fun p => a.placeOf? n (propertyNames p.1) == some (m, key)).getLast?.map
    fun p => .text (propertyValue p.2)

/-- The places of properties stay where texts are stored at a place of one. -/
theorem lastAt?_put (h : a.Blocked x key) (properties : List (String × String)) (m : NodeId)
    (other : String) :
    (a.put x key (.text text)).lastAt? n properties m other = a.lastAt? n properties m other := by
  rw [lastAt?, lastAt?]
  congr 2
  refine List.filter_congr fun p _ => ?_
  rw [placeOf?_put h fun name hname => point_notMem_propertyNames hname]

theorem lastAt?_cons (a : World) (n : NodeId) (p : String × String)
    (properties : List (String × String)) (m : NodeId) (key : String) :
    a.lastAt? n (p :: properties) m key = (a.lastAt? n properties m key).or
      (if a.placeOf? n (propertyNames p.1) = some (m, key) then
        some (.text (propertyValue p.2)) else none) := by
  rw [lastAt?, lastAt?, List.filter_cons]
  split
  · rename_i hplace
    rw [if_pos (eq_of_beq hplace), List.getLast?_cons]
    cases (properties.filter _).getLast? <;> rfl
  · rename_i hplace
    rw [if_neg fun heq => hplace (beq_iff_eq.mpr heq), Option.or_none]

theorem flatten_append (a : World) (n : NodeId) (properties more : List (String × String)) :
    a.flatten n (properties ++ more) = (a.flatten n properties).flatten n more :=
  List.foldl_append

/-- An entry after properties are stored is the last of those that have its place, else what it
was. The places are those in the tree as it was. -/
theorem getRaw_flatten (hclosed : a.Closed) (hn : n.index < a.cells.size)
    (properties : List (String × String)) (m : NodeId) (key : String) :
    (a.flatten n properties).getRaw m key =
      (a.lastAt? n properties m key).or (a.getRaw m key) := by
  induction properties generalizing a with
  | nil => rfl
  | cons p rest ih =>
      show ((a.storeProperty n (propertyValue p.2) (propertyNames p.1)).flatten n rest).getRaw m key
        = _
      rw [storeProperty_eq, lastAt?_cons]
      cases hplace : a.placeOf? n (propertyNames p.1) with
      | none => rw [ih hclosed hn, if_neg (by simp), Option.or_none]
      | some place =>
          obtain ⟨x, stored⟩ := place
          have hblocked := blocked_of_placeOf? hclosed hn hplace
          have hclosed' : (a.put x stored (.text (propertyValue p.2))).Closed :=
            hclosed.put hblocked.lt stored fun _ hr => (List.not_mem_nil hr).elim
          show ((a.put x stored (.text (propertyValue p.2))).flatten n rest).getRaw m key = _
          -- The places of the rest are those in the tree before this property was stored.
          rw [ih hclosed' (by rw [size_put]; exact hn), lastAt?_put hblocked]
          cases a.lastAt? n rest m key with
          | some last => rfl
          | none =>
              rw [Option.none_or, Option.none_or]
              by_cases hx : x = m
              · subst hx
                rw [getRaw_put_self a _ _ _ hblocked.lt]
                by_cases hkey : stored = key
                · subst hkey
                  rw [if_pos (beq_self_eq_true _), if_pos rfl, Option.some_or]
                · rw [if_neg fun heq => hkey (eq_of_beq heq), if_neg, Option.none_or]
                  exact fun heq => hkey (Prod.mk.inj (Option.some.inj heq)).2
              · rw [getRaw_put_of_ne a _ _ _ hx, if_neg, Option.none_or]
                exact fun heq => hx (Prod.mk.inj (Option.some.inj heq)).1

end World

end ScriptTree
