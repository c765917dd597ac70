import ScriptTree.Language
import ScriptTree.Proofs.Load.Reload

/-!
# Merging literals

Merging puts the entries of one node behind those of another, in order, and passes over instructions
to the loader and over keys that are held already (`cell_merge_self`, `cell_merge_of_ne`). Where no
template is expanded and no script runs, `appendJson` therefore adds the entries of the node that is
built for the literal, whatever files that node loads, and nothing else that was in the tree
changes; done again, it builds a twin of that node and adds nothing (`appendJson_merges`).
-/

set_option autoImplicit false

namespace ScriptTree

namespace World

/-- The entries that a merge adds to a node: those that are no instructions and whose keys the node
does not hold. -/
def added (w : World) (n : NodeId) (entries : List (String × Value)) : List (String × Value) :=
  entries.filter fun p => !NodeId.isDirectiveKey p.1 && !w.containsKey n p.1

section Merging

variable {w : World} {n m : NodeId} {key : String} {value : Value}

theorem cell_adopt_of_ne (h : value ≠ .node m) : (w.adopt n key value).cell m = w.cell m := by
  cases value with
  | node child =>
      have hne : child ≠ m := fun heq => h (congrArg Value.node heq)
      rw [adopt]
      split
      · rfl
      · exact cell_modifyCell_of_ne w _ hne
  | _ => rfl

/-- A node is not adopted by itself. -/
theorem cell_adopt_self : (w.adopt n key value).cell n = w.cell n := by
  by_cases h : value = .node n
  · subst h
    rw [adopt, if_pos rfl]
  · exact cell_adopt_of_ne h

theorem cell_put_self (hn : n.index < w.cells.size) :
    (w.put n key value).cell n =
      { w.cell n with entries := (w.cell n).entries.insert key value } := by
  rw [put, World.set, cell_modifyCell_self _ _ (by rw [size_adopt]; exact hn), cell_adopt_self]

theorem cell_put_of_ne (hm : n ≠ m) (hvalue : value ≠ .node m) :
    (w.put n key value).cell m = w.cell m := by
  rw [put, World.set, cell_modifyCell_of_ne _ _ hm, cell_adopt_of_ne hvalue]

theorem entries_put_of_ne (hm : n ≠ m) :
    ((w.put n key value).cell m).entries = (w.cell m).entries := by
  rw [put, World.set, cell_modifyCell_of_ne _ _ hm]
  by_cases hvalue : value = .node m
  · subst hvalue
    rw [adopt, if_neg hm.symm, cell_modifyCell]
    split <;> rfl
  · rw [cell_adopt_of_ne hvalue]

/-- The parent of another node is the one it had, or the node that adopts it. -/
theorem parent_put_of_ne (hm : n ≠ m) :
    ((w.put n key value).cell m).parent = (w.cell m).parent ∨
      ((w.put n key value).cell m).parent = some n := by
  by_cases hvalue : value = .node m
  · subst hvalue
    rw [put, World.set, cell_modifyCell_of_ne _ _ hm, adopt, if_neg hm.symm, cell_modifyCell]
    split
    · exact .inr rfl
    · exact .inl rfl
  · exact .inl (congrArg Cell.parent (cell_put_of_ne hm hvalue))

theorem parent_put_node (hm : n ≠ m) (hlt : m.index < w.cells.size) :
    ((w.put n key (.node m)).cell m).parent = some n := by
  rw [put, World.set, cell_modifyCell_of_ne _ _ hm, adopt, if_neg hm.symm,
    cell_modifyCell_self _ _ hlt]

theorem containsKey_put_self (hn : n.index < w.cells.size) (other : String) :
    (w.put n key value).containsKey n other = (key == other || w.containsKey n other) := by
  have hget := getRaw_put_self w key other value hn
  show ((w.put n key value).getRaw n other).isSome = (key == other || (w.getRaw n other).isSome)
  rw [hget]
  split
  · rename_i hkey
    rw [hkey]
    rfl
  · rename_i hkey
    rw [Bool.eq_false_iff.mpr hkey]
    rfl

/-- One entry is merged: it is passed over, or put and one of those added. -/
theorem merge_cons (w : World) (n : NodeId) (p : String × Value) (rest : List (String × Value)) :
    w.merge n (p :: rest) =
      if NodeId.isDirectiveKey p.1 || w.containsKey n p.1 then w.merge n rest
      else (w.put n p.1 p.2).merge n rest := by
  rw [merge, List.foldl_cons]
  split <;> rfl

theorem added_cons (w : World) (n : NodeId) (p : String × Value) (rest : List (String × Value)) :
    w.added n (p :: rest) =
      if NodeId.isDirectiveKey p.1 || w.containsKey n p.1 then w.added n rest
      else p :: w.added n rest := by
  rw [added, List.filter_cons, ← Bool.not_or]
  cases NodeId.isDirectiveKey p.1 || w.containsKey n p.1 <;> rfl

/-- Putting a key does not change which of the entries under other keys are to be added. -/
theorem added_put (hn : n.index < w.cells.size) {entries : List (String × Value)}
    (hkey : key ∉ entries.map Prod.fst) :
    (w.put n key value).added n entries = w.added n entries := by
  refine List.filter_congr fun p hp => ?_
  have hne : (key == p.1) = false := by
    refine beq_eq_false_iff_ne.mpr fun heq => hkey ?_
    rw [heq]
    exact List.mem_map_of_mem hp
  rw [containsKey_put_self hn, hne, Bool.false_or]

/-- A merge puts the entries that it adds behind those of the node, and changes nothing else in
it. -/
theorem cell_merge_self (hn : n.index < w.cells.size) {entries : List (String × Value)}
    (hnodup : (entries.map Prod.fst).Nodup) :
    (w.merge n entries).cell n =
      { w.cell n with entries := (w.cell n).entries ++ w.added n entries } := by
  induction entries generalizing w with
  | nil => rw [added, List.filter_nil, List.append_nil, merge, List.foldl_nil]
  | cons p rest ih =>
      obtain ⟨hfirst, hrest⟩ := List.nodup_cons.mp hnodup
      rw [merge_cons, added_cons]
      split
      · exact ih hn hrest
      · rename_i hskip
        -- A new key goes to the end, and no later entry has the same key.
        have hkey : p.1 ∉ (w.cell n).entries.keys := by
          rw [← Entries.contains_iff_mem_keys]
          intro hheld
          exact hskip (Bool.or_eq_true_iff.mpr (.inr hheld))
        rw [ih (by rw [size_put]; exact hn) hrest, cell_put_self hn, added_put hn hfirst,
          Entries.insert_of_not_mem _ _ hkey]
        show (⟨_, _, ((w.cell n).entries ++ [p]) ++ _, _⟩ : Cell) = _
        rw [List.append_assoc]
        rfl

theorem cell_merge_of_ne (hm : n ≠ m) {entries : List (String × Value)}
    (hentries : ∀ p ∈ entries, p.2 ≠ .node m) : (w.merge n entries).cell m = w.cell m := by
  induction entries generalizing w with
  | nil => rfl
  | cons p rest ih =>
      have hrest : ∀ q ∈ rest, q.2 ≠ .node m := fun q hq => hentries q (List.mem_cons_of_mem _ hq)
      rw [merge_cons]
      split
      · exact ih hrest
      · rw [ih hrest, cell_put_of_ne hm (hentries p List.mem_cons_self)]

theorem entries_merge_of_ne (hm : n ≠ m) (entries : List (String × Value)) :
    ((w.merge n entries).cell m).entries = (w.cell m).entries := by
  induction entries generalizing w with
  | nil => rfl
  | cons p rest ih =>
      rw [merge_cons]
      split
      · exact ih
      · rw [ih, entries_put_of_ne hm]

theorem parent_merge_of_ne (hm : n ≠ m) (entries : List (String × Value)) :
    ((w.merge n entries).cell m).parent = (w.cell m).parent ∨
      ((w.merge n entries).cell m).parent = some n := by
  induction entries generalizing w with
  | nil => exact .inl rfl
  | cons p rest ih =>
      rw [merge_cons]
      split
      · exact ih
      · obtain hrest | hrest := ih (w := w.put n p.1 p.2)
        · rw [hrest]
          exact parent_put_of_ne hm
        · exact .inr hrest

/-- The nodes that a merge adds as entries become children of the node. -/
theorem parent_merge_node (hm : n ≠ m) (hn : n.index < w.cells.size) (hlt : m.index < w.cells.size)
    {entries : List (String × Value)} (hnodup : (entries.map Prod.fst).Nodup)
    (hmem : (key, .node m) ∈ w.added n entries) :
    ((w.merge n entries).cell m).parent = some n := by
  induction entries generalizing w with
  | nil => cases hmem
  | cons p rest ih =>
      obtain ⟨hfirst, hrest⟩ := List.nodup_cons.mp hnodup
      rw [added_cons] at hmem
      rw [merge_cons]
      split
      · rename_i hskip
        rw [if_pos hskip] at hmem
        exact ih hn hlt hrest hmem
      · rename_i hskip
        rw [if_neg hskip] at hmem
        obtain hp | hmem := List.mem_cons.mp hmem
        · -- What is put later may adopt the node again, and gives it the same parent.
          obtain hsame | hnew := parent_merge_of_ne (w := w.put n p.1 p.2) hm rest
          · rw [hsame, ← hp]
            exact parent_put_node hm hlt
          · exact hnew
        · have hsame : (w.put n p.1 p.2).added n rest = w.added n rest := added_put hn hfirst
          rw [← hsame] at hmem
          refine ih ?_ ?_ hrest hmem
          · rw [size_put]
            exact hn
          · rw [size_put]
            exact hlt

/-- After a merge the node holds the keys of all entries that are no instructions. -/
theorem containsKey_merge (hn : n.index < w.cells.size) {entries : List (String × Value)}
    (hnodup : (entries.map Prod.fst).Nodup) (p : String × Value) (hp : p ∈ entries) :
    (NodeId.isDirectiveKey p.1 || (w.merge n entries).containsKey n p.1) = true := by
  cases hkey : NodeId.isDirectiveKey p.1 with
  | true => rfl
  | false =>
      rw [Bool.false_or, containsKey, cell_merge_self hn hnodup, Entries.contains_iff_mem_keys,
        Entries.keys, List.map_append, List.mem_append]
      by_cases hheld : w.containsKey n p.1 = true
      · exact .inl ((Entries.contains_iff_mem_keys _ _).mp hheld)
      · refine .inr (List.mem_map_of_mem (List.mem_filter.mpr ⟨hp, ?_⟩))
        rw [hkey, Bool.eq_false_iff.mpr hheld]
        rfl

/-- A merge that adds nothing changes nothing. -/
theorem merge_eq_self {entries : List (String × Value)}
    (h : ∀ p ∈ entries, (NodeId.isDirectiveKey p.1 || w.containsKey n p.1) = true) :
    w.merge n entries = w := by
  induction entries with
  | nil => rfl
  | cons p rest ih =>
      rw [merge_cons, if_pos (h p List.mem_cons_self)]
      exact ih fun q hq => h q (List.mem_cons_of_mem _ hq)

theorem size_merge (w : World) (n : NodeId) (entries : List (String × Value)) :
    (w.merge n entries).cells.size = w.cells.size := by
  induction entries generalizing w with
  | nil => rfl
  | cons p rest ih =>
      rw [merge_cons]
      split
      · exact ih w
      · rw [ih, size_put]

end Merging

/-! ## Worlds without loose ends -/

theorem closed_initial (engine : Engine) (files : Files.Tree) : (initial engine files).Closed := by
  have hcell : ∀ m, (initial engine files).cell m = default := by
    rintro ⟨_ | i⟩
    · rfl
    · exact cell_of_size_le (Nat.succ_le_succ (Nat.zero_le i))
  constructor
  case references =>
    intro m r hr
    rw [hcell] at hr
    cases hr
  case parents =>
    intro m p hp
    rw [hcell] at hp
    cases hp
  case holders =>
    intro m hm
    obtain rfl := List.mem_singleton.mp hm
    exact Nat.zero_lt_one

theorem Closed.create {w : World} (h : w.Closed) (engined : Bool) :
    (w.create engined).2.Closed := by
  have hsize : (w.create engined).2.cells.size = w.cells.size + 1 := Array.size_push _
  constructor
  case references =>
    intro m r hr
    rw [cell_create] at hr
    split at hr
    · cases hr
    · rw [hsize]
      exact Nat.lt_succ_of_lt (h.references m r hr)
  case parents =>
    intro m p hp
    rw [cell_create] at hp
    split at hp
    · cases hp
    · rw [hsize]
      exact Nat.lt_succ_of_lt (h.parents m p hp)
  case holders =>
    intro m hm
    rw [hsize]
    exact Nat.lt_succ_of_lt (h.holders m hm)

theorem Closed.put {w : World} (h : w.Closed) {n : NodeId} (hn : n.index < w.cells.size)
    (key : String) {value : Value} (hvalue : ∀ r ∈ value.nodes, r.index < w.cells.size) :
    (w.put n key value).Closed := by
  have hsize := size_put w n key value
  constructor
  case references =>
    intro m r hr
    rw [hsize]
    by_cases hm : n = m
    · subst hm
      rw [cell_put_self hn] at hr
      obtain ⟨p, hp, hin⟩ := List.mem_flatMap.mp hr
      obtain rfl | hold := Entries.mem_insert hp
      · exact hvalue r hin
      · exact h.references n r (List.mem_flatMap.mpr ⟨p, hold, hin⟩)
    · rw [World.references, entries_put_of_ne hm] at hr
      exact h.references m r hr
  case parents =>
    intro m p hp
    rw [hsize]
    by_cases hm : n = m
    · subst hm
      rw [cell_put_self hn] at hp
      exact h.parents n p hp
    · have hparent : ((w.put n key value).cell m).parent = (w.cell m).parent ∨
          ((w.put n key value).cell m).parent = some n := parent_put_of_ne hm
      obtain hsame | hnew := hparent
      · exact h.parents m p (hsame.symm.trans hp)
      · obtain rfl := Option.some.inj (hnew.symm.trans hp)
        exact hn
  case holders =>
    intro m hm
    rw [hsize]
    refine h.holders m ?_
    have hcontinues := continues_put w n key value
    rw [World.holders, hcontinues.static, hcontinues.frames, hcontinues.held] at hm
    exact hm

/-! ## A built node merged into one that was there -/

namespace Extends

variable {v w : World} (h : v.Extends w)

include h

theorem holders_eq : w.holders = v.holders := by
  rw [holders, holders, h.static, h.frames, h.held]

/-- What a world has besides neither keeps a node alive nor lets one go. -/
theorem alive_eq {m : NodeId} (hm : m.index < v.cells.size) : w.alive m = v.alive m := by
  rw [Bool.eq_iff_iff, alive_iff, alive_iff]
  constructor
  · rintro ⟨nodes, hmem, hsupports⟩
    -- The nodes that were there support each other without the others.
    refine ⟨fun x => nodes x ∧ x.index < v.cells.size, ⟨hmem, hm⟩, ?_⟩
    rintro x ⟨hx, hlt⟩
    obtain hheld | ⟨-, y, hy, href⟩ := hsupports x hx
    · exact .inl (h.holders_eq ▸ hheld)
    · by_cases hold : y.index < v.cells.size
      · obtain ⟨extra, hcell, hextra⟩ := h.old y hold
        rw [hcell] at href
        obtain ⟨p, hp, hin⟩ := List.mem_flatMap.mp href
        obtain hp | hp := List.mem_append.mp hp
        · exact .inr ⟨hlt, y, ⟨hy, hold⟩, List.mem_flatMap.mpr ⟨p, hp, hin⟩⟩
        · have hnew := (hextra p hp).2 x hin
          omega
      · have hnew := h.new y (Nat.not_lt.mp hold) x href
        omega
  · rintro ⟨nodes, hmem, hsupports⟩
    refine ⟨nodes, hmem, ?_⟩
    intro x hx
    obtain hheld | ⟨hlt, y, hy, href⟩ := hsupports x hx
    · exact .inl (h.holders_eq ▸ hheld)
    · refine .inr ⟨Nat.lt_of_lt_of_le hlt h.size, y, hy, ?_⟩
      by_cases hold : y.index < v.cells.size
      · obtain ⟨extra, hcell, -⟩ := h.old y hold
        obtain ⟨p, hp, hin⟩ := List.mem_flatMap.mp href
        rw [hcell]
        exact List.mem_flatMap.mpr ⟨p, List.mem_append_left _ hp, hin⟩
      · rw [cell_of_size_le (Nat.not_lt.mp hold)] at href
        cases href

theorem parent?_eq (hclosed : v.Closed) {m : NodeId} (hm : m.index < v.cells.size) :
    w.parent? m = v.parent? m := by
  obtain ⟨extra, hcell, -⟩ := h.old m hm
  rw [parent?, parent?, hcell]
  show (v.cell m).parent.filter _ = _
  cases hp : (v.cell m).parent with
  | none => rfl
  | some p => rw [Option.filter_some, Option.filter_some, h.alive_eq (hclosed.parents m p hp)]

/-- All that a world with more refers to are nodes of it when the parents of the new nodes are. -/
theorem closed (hclosed : v.Closed)
    (hparents : ∀ m : NodeId, v.cells.size ≤ m.index → ∀ p, (w.cell m).parent = some p →
      p.index < w.cells.size) : w.Closed := by
  have hle := h.size
  constructor
  case references =>
    intro m r hr
    by_cases hm : m.index < v.cells.size
    · obtain ⟨extra, hcell, hextra⟩ := h.old m hm
      rw [hcell] at hr
      obtain ⟨p, hp, hin⟩ := List.mem_flatMap.mp hr
      obtain hp | hp := List.mem_append.mp hp
      · exact Nat.lt_of_lt_of_le
          (hclosed.references m r (List.mem_flatMap.mpr ⟨p, hp, hin⟩)) hle
      · exact ((hextra p hp).2 r hin).2
    · exact (h.new m (Nat.not_lt.mp hm) r hr).2
  case parents =>
    intro m p hp
    by_cases hm : m.index < v.cells.size
    · obtain ⟨extra, hcell, -⟩ := h.old m hm
      rw [hcell] at hp
      exact Nat.lt_of_lt_of_le (hclosed.parents m p hp) hle
    · exact hparents m (Nat.not_lt.mp hm) p hp
  case holders =>
    intro m hm
    rw [h.holders_eq] at hm
    exact Nat.lt_of_lt_of_le (hclosed.holders m hm) hle

end Extends

theorem Inert.put {w : World} (h : w.Inert) (n : NodeId) (key : String) (value : Value) :
    (w.put n key value).Inert := by
  refine inert_modifyCell ?_ n rfl
  cases value with
  | node child =>
      rw [adopt]
      split
      · exact h
      · exact inert_modifyCell h child rfl
  | _ => exact h

theorem Inert.merge {w : World} (h : w.Inert) (n : NodeId) (entries : List (String × Value)) :
    (w.merge n entries).Inert := by
  induction entries generalizing w with
  | nil => exact h
  | cons p rest ih =>
      rw [merge_cons]
      split
      · exact ih h
      · exact ih (h.put n p.1 p.2)

namespace Twin

variable {w a b : World} {n m : NodeId} {entries : List (String × Value)}

/-- No other node that was there before changes. -/
theorem cell_merge_of_lt (h : Twin w w a b)
    (hentries : ∀ p ∈ entries, ∀ r ∈ p.2.nodes, w.cells.size ≤ r.index)
    (hm : m.index < w.cells.size) (hne : m ≠ n) : (a.merge n entries).cell m = w.cell m := by
  rw [cell_merge_of_ne hne.symm, h.old m hm]
  intro p hp heq
  have hmem : m ∈ p.2.nodes := by
    rw [heq]
    exact List.mem_cons_self
  have hrange := hentries p hp m hmem
  omega

theorem references_merge_of_le (h : Twin w w a b) (hn : n.index < w.cells.size)
    (hm : w.cells.size ≤ m.index) :
    ∀ r ∈ World.references ((a.merge n entries).cell m),
      w.cells.size ≤ r.index ∧ r.index < (a.merge n entries).cells.size := by
  intro r hr
  have hne : n ≠ m := by
    rintro rfl
    omega
  rw [World.references, entries_merge_of_ne hne] at hr
  have hrange := h.references m hm r hr
  rw [size_merge]
  omega

/-- A run that leaves the nodes that were there alone has more in the end. -/
theorem extends_of_continues (h : Twin w w a b) (hc : w.Continues a) : w.Extends a where
  size := hc.size
  old := fun m hm => ⟨[], by rw [List.append_nil, h.old m hm], by simp⟩
  new := by
    intro m hm r hr
    have hrange := h.references m hm r hr
    exact ⟨by omega, hrange.2⟩
  engine := hc.engine
  files := hc.files
  loading := hc.loading
  static := hc.static
  frames := hc.frames
  held := hc.held

/-- With a built node merged into one that was there, the world has more, and what it has more is no
instruction to the loader. -/
theorem extends_merge (h : Twin w w a b) (hc : w.Continues a) (hn : n.index < w.cells.size)
    (hnodup : (entries.map Prod.fst).Nodup)
    (hentries : ∀ p ∈ entries, ∀ r ∈ p.2.nodes,
      w.cells.size ≤ r.index ∧ r.index < a.cells.size) :
    w.Extends (a.merge n entries) := by
  have hcontinues := hc.trans (continues_merge a n entries)
  constructor
  case size => exact hcontinues.size
  case old =>
    intro m hm
    by_cases hmn : m = n
    · subst hmn
      refine ⟨a.added m entries, ?_, ?_⟩
      · rw [cell_merge_self (Nat.lt_of_lt_of_le hn h.grown) hnodup, h.old m hm]
      · intro p hp
        obtain ⟨hmem, hadded⟩ := List.mem_filter.mp hp
        obtain ⟨hkey, -⟩ := Bool.and_eq_true_iff.mp hadded
        refine ⟨Bool.not_eq_true' _ |>.mp hkey, ?_⟩
        rw [size_merge]
        exact hentries p hmem
    · refine ⟨[], ?_, fun p hp => (List.not_mem_nil hp).elim⟩
      rw [h.cell_merge_of_lt (fun p hp r hr => (hentries p hp r hr).1) hm hmn, List.append_nil]
  case new =>
    intro m hm
    exact h.references_merge_of_le hn hm
  case engine => exact hcontinues.engine
  case files => exact hcontinues.files
  case loading => exact hcontinues.loading
  case static => exact hcontinues.static
  case frames => exact hcontinues.frames
  case held => exact hcontinues.held

theorem closed_merge (h : Twin w w a b) (hc : w.Continues a) (hn : n.index < w.cells.size)
    (hnodup : (entries.map Prod.fst).Nodup)
    (hentries : ∀ p ∈ entries, ∀ r ∈ p.2.nodes,
      w.cells.size ≤ r.index ∧ r.index < a.cells.size) :
    (a.merge n entries).Closed := by
  have hgrown := h.grown
  refine (h.extends_merge hc hn hnodup hentries).closed h.closed ?_
  intro m hm p hp
  have hne : n ≠ m := by
    rintro rfl
    omega
  rw [size_merge]
  obtain hsame | hnew := parent_merge_of_ne hne entries
  · rw [hsame] at hp
    exact h.parents m hm p hp
  · rw [hnew] at hp
    obtain rfl := Option.some.inj hp
    omega

/-- Nothing is added when the node holds all that its counterpart in the first run was given. -/
theorem merge_held {v : World} (h : Twin v w a b) {item : NodeId}
    (hitem : v.cells.size ≤ item.index) (hn : n.index < w.cells.size)
    (hheld : ∀ p ∈ (a.cell item).entries,
      (NodeId.isDirectiveKey p.1 || w.containsKey n p.1) = true) :
    b.merge n (b.cell (item.moved v w)).entries = b := by
  refine merge_eq_self ?_
  rw [h.built item hitem]
  intro p hp
  obtain ⟨q, hq, rfl⟩ := List.mem_map.mp hp
  rw [World.containsKey, h.kept n hn]
  exact hheld q hq

end Twin

end World

namespace NodeId

variable (lang : Language) {n item : NodeId} {text : String} {w w₁ w' : World}

/-- What building a node leaves: the nodes that were there are as before, and the node is as new as
all that its entries refer to and has no key twice. -/
structure Built (w w₁ : World) (item : NodeId) : Prop where
  twin : ∃ b, World.Twin w w w₁ b
  continues : w.Continues w₁
  new : w.cells.size ≤ item.index
  keys : ((w₁.cell item).entries.map Prod.fst).Nodup
  entries : ∀ p ∈ (w₁.cell item).entries, ∀ r ∈ p.2.nodes,
    w.cells.size ≤ r.index ∧ r.index < w₁.cells.size

theorem built_newChild (hclosed : w.Closed) (hinert : w.Inert) (hn : n.index < w.cells.size)
    (hdone : n.newChild (introspect lang) text w = (.done item, w₁)) : Built w w₁ item := by
  -- A world is a twin of itself, so the build mirrors itself, which says what it does.
  have hstart := World.Twin.start hclosed hinert hinert (World.Extends.refl w)
  obtain ⟨y, b, -, htwin, hcontinues, hitem, -⟩ :=
    mirrors_newChild (replays_introspect lang) hstart hn text item w₁ hdone
  refine ⟨⟨b, htwin⟩, hcontinues, hitem, htwin.keys item hitem, ?_⟩
  intro p hp r hr
  have hrange := htwin.references item hitem r (List.mem_flatMap.mpr ⟨p, hp, hr⟩)
  omega

/-- The same literal is built alike where more nodes and entries are. -/
theorem newChild_again (hclosed : w.Closed) (hinert : w.Inert) (hinert' : w'.Inert)
    (hextends : w.Extends w') (hn : n.index < w.cells.size)
    (hdone : n.newChild (introspect lang) text w = (.done item, w₁)) :
    ∃ b, n.newChild (introspect lang) text w' = (.done (item.moved w w'), b) ∧
      World.Twin w w' w₁ b := by
  have hstart := World.Twin.start hclosed hinert hinert' hextends
  obtain ⟨y, b, hagain, htwin, -, -, -, -, rfl⟩ :=
    mirrors_newChild (replays_introspect lang) hstart hn text item w₁ hdone
  rw [moved_of_lt hn] at hagain
  exact ⟨b, hagain, htwin⟩

/-- The node that has taken in a literal takes in the same literal once more: all keys are held, so
every node stays as it is. -/
theorem appendJson_again (hclosed : w.Closed) (hinert : w.Inert) (hn : n.index < w.cells.size)
    (hdone : n.newChild (introspect lang) text w = (.done item, w₁))
    (hw' : w' = w₁.merge n (w₁.cell item).entries) :
    ∃ w'', n.appendJson (introspect lang) text w' = (.done (), w'') ∧
      ∀ m : NodeId, m.index < w'.cells.size →
        w''.cell m = w'.cell m ∧ w''.parent? m = w'.parent? m := by
  subst hw'
  have hbuilt := built_newChild lang hclosed hinert hn hdone
  obtain ⟨b₁, htwin⟩ := hbuilt.twin
  have hextends := htwin.extends_merge hbuilt.continues hn hbuilt.keys hbuilt.entries
  have hclosed' := htwin.closed_merge hbuilt.continues hn hbuilt.keys hbuilt.entries
  have hinert' := htwin.inert.1.merge n (w₁.cell item).entries
  have hn' := Nat.lt_of_lt_of_le hn hextends.size
  obtain ⟨b, hagain, htwin'⟩ := newChild_again lang hclosed hinert hinert' hextends hn hdone
  refine ⟨b, ?_, ?_⟩
  · have hheld := World.containsKey_merge (Nat.lt_of_lt_of_le hn htwin.grown) hbuilt.keys
    rw [appendJson, Action.bind_apply, hagain]
    show (Outcome.done (), b.merge n (b.cell _).entries) = _
    rw [htwin'.merge_held hbuilt.new hn' hheld]
  · intro m hm
    -- The second build adds nodes that nothing refers to, so parents stay alive or dead.
    have hbuilt' := built_newChild lang hclosed' hinert' hn' hagain
    obtain ⟨b₂, htwin''⟩ := hbuilt'.twin
    have hextends' := htwin''.extends_of_continues hbuilt'.continues
    exact ⟨htwin'.kept m hm, hextends'.parent?_eq hclosed' hm⟩

/-- Where no template is expanded and no script runs, whatever files the literal names: the entries
of the node are those that it had and then, in their order, those of the node built for the literal
that are no instructions and have new keys. A node added as an entry is a child of the node, and
every other node that was there is as before. Done again, it leaves every node alone. -/
theorem appendJson_merges (hclosed : w.Closed) (hinert : w.Inert) (hn : n.index < w.cells.size)
    (hdone : n.appendJson (introspect lang) text w = (.done (), w')) :
    ∃ item w₁, n.newChild (introspect lang) text w = (.done item, w₁) ∧
      w'.cell n = { w.cell n with
        entries := (w.cell n).entries ++ w.added n (w₁.cell item).entries } ∧
      (∀ key child, (key, .node child) ∈ w.added n (w₁.cell item).entries →
        (w'.cell child).parent = some n ∧ (w.alive n = true → w'.parent? child = some n)) ∧
      (∀ m, m ≠ n → (w'.cell m).entries = (w₁.cell m).entries) ∧
      (∀ m : NodeId, m.index < w.cells.size → m ≠ n → w'.cell m = w.cell m) ∧
      ∃ w'', n.appendJson (introspect lang) text w' = (.done (), w'') ∧
        ∀ m : NodeId, m.index < w'.cells.size →
          w''.cell m = w'.cell m ∧ w''.parent? m = w'.parent? m := by
  obtain ⟨item, w₁, hchild, hmerge⟩ := Action.bind_eq_done hdone
  obtain ⟨-, rfl⟩ := Prod.mk.inj hmerge
  have hbuilt := built_newChild lang hclosed hinert hn hchild
  obtain ⟨b, htwin⟩ := hbuilt.twin
  have hlt := Nat.lt_of_lt_of_le hn htwin.grown
  -- The build has left the node alone, so it holds then what it held before.
  have hadded : w₁.added n (w₁.cell item).entries = w.added n (w₁.cell item).entries := by
    have hkeys : ∀ key, w₁.containsKey n key = w.containsKey n key := by
      intro key
      rw [World.containsKey, World.containsKey, htwin.old n hn]
    exact List.filter_congr fun p _ => by rw [hkeys]
  refine ⟨item, w₁, hchild, ?_, ?_, ?_, ?_, appendJson_again lang hclosed hinert hn hchild rfl⟩
  · rw [← hadded, ← htwin.old n hn]
    exact World.cell_merge_self hlt hbuilt.keys
  · intro key child hmem
    have hrange := hbuilt.entries _ (List.mem_filter.mp hmem).1 child List.mem_cons_self
    have hne : n ≠ child := by
      rintro rfl
      omega
    rw [← hadded] at hmem
    have hparent := World.parent_merge_node hne hlt hrange.2 hbuilt.keys hmem
    refine ⟨hparent, fun halive => ?_⟩
    have hextends := htwin.extends_merge hbuilt.continues hn hbuilt.keys hbuilt.entries
    rw [World.parent?, hparent, Option.filter_some, hextends.alive_eq hn, halive]
    rfl
  · intro m hm
    exact World.entries_merge_of_ne hm.symm _
  · intro m hm hne
    exact htwin.cell_merge_of_lt (fun p hp r hr => (hbuilt.entries p hp r hr).1) hm hne

end NodeId

/-- A world whose node holds an entry, with a file of further entries. -/
def World.filed : World :=
  ((World.initial ⟨false, false, 0⟩
    ⟨.directory [("more.json", .file (some "\x7bb: 2, a: 3\x7d"))], []⟩).create true).2.put ⟨1⟩ "a"
      .null

/-- A literal that holds a key of the node and names the file. -/
def NodeId.filedText : String := "\x7ba: 1, $json: 'more.json', c: \x7b\x7d\x7d"

/-- The action was done. -/
def Outcome.isDone {α : Type} : Outcome α → Bool
  | .done _ => true
  | _ => false

theorem Action.eq_done_of_isDone {p : Action Unit} {w : World} (h : (p w).1.isDone = true) :
    p w = (.done (), (p w).2) := by
  rcases hresult : p w with ⟨value | cause | _, w'⟩
  · rfl
  · rw [hresult] at h
    cases h
  · rw [hresult] at h
    cases h

namespace NodeId

/-- The file is loaded, and of its entries and of those of the literal the new ones are added. -/
theorem appendJson_merges_filed : ∃ item w₁ w',
    (⟨1⟩ : NodeId).appendJson (introspect (.ofFuel 0)) filedText World.filed = (.done (), w') ∧
      (⟨1⟩ : NodeId).newChild (introspect (.ofFuel 0)) filedText World.filed =
        (.done item, w₁) ∧
      (w'.cell ⟨1⟩).entries = (World.filed.cell ⟨1⟩).entries ++
        World.filed.added ⟨1⟩ (w₁.cell item).entries ∧
      w'.keys ⟨1⟩ = ["a", "c", "b"] := by
  have hisDone : ((⟨1⟩ : NodeId).appendJson (introspect (.ofFuel 0)) filedText
      World.filed).1.isDone = true := by
    decide +kernel
  have hkeys : ((⟨1⟩ : NodeId).appendJson (introspect (.ofFuel 0)) filedText
      World.filed).2.keys ⟨1⟩ = ["a", "c", "b"] := by
    decide +kernel
  have hclosed : World.filed.Closed := by
    refine ((World.closed_initial _ _).create true).put (by decide) "a" ?_
    exact fun _ hr => (List.not_mem_nil hr).elim
  have hdone := Action.eq_done_of_isDone hisDone
  obtain ⟨item, w₁, hbuilt, hcell, -⟩ := appendJson_merges (.ofFuel 0) hclosed
    (World.inert_of_engine rfl rfl) (by decide) hdone
  refine ⟨item, w₁, _, hdone, hbuilt, ?_, hkeys⟩
  rw [hcell]

end NodeId

end ScriptTree
