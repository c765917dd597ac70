import ScriptTree.Proofs.Load.Replay
import ScriptTree.Proofs.World.Below

/-!
# The way up from a node

Four readings walk up from a node: its path, its root, the value of a name and the directory for
relative file names. `World.Climbs` is the walk itself, over parents up to a node without one,
without any bound. Where no node is above itself every walk comes to an end
(`World.Acyclic.exists_climb`), and where it does, its nodes are the lineage (`Climbs.lineage_eq`),
so all four readings are known from it (`Climbs.path_eq`, `Climbs.getLast?_eq`,
`Climbs.resolve_eq`, `Climbs.directory_eq`).
-/

set_option autoImplicit false

namespace ScriptTree

/-- Pieces joined as lists of characters are the pieces joined as strings. -/
theorem Text.ofList_join (separator : String) (pieces : List String) :
    String.ofList (Text.join separator.toList (pieces.map String.toList)) =
      separator.intercalate pieces := by
  induction pieces with
  | nil => simp [Text.join]
  | cons piece rest ih =>
      cases rest with
      | nil => simp [Text.join]
      | cons next others =>
          rw [String.intercalate_cons_cons, ← ih]
          simp [Text.join, String.ofList_append, String.append_assoc]

namespace World

/-- Parents lead from the first node up to the second, in one step at least: the first is a proper
descendant of the second. -/
def Descends (w : World) : NodeId → NodeId → Prop :=
  Relation.TransGen fun m p => w.parent? m = some p

/-- No node is a proper descendant of itself. -/
def Acyclic (w : World) : Prop := ∀ n, ¬ w.Descends n n

/-- Parents lead from the node through the nodes of the list, in order, to one without a parent. -/
inductive Climbs (w : World) : NodeId → List NodeId → Prop
  | top {n : NodeId} : w.parent? n = none → Climbs w n [n]
  | step {n p : NodeId} {chain : List NodeId} :
      w.parent? n = some p → Climbs w p chain → Climbs w n (n :: chain)

/-- The directory that a node names itself. -/
def ownDirectory? (w : World) (n : NodeId) : Option String :=
  match w.getRaw n directoryKey with
  | some (.text s) => some s
  | _ => none

variable {w : World} {n m p : NodeId} {chain : List NodeId}

theorem lt_size_of_parent? (h : w.parent? n = some p) : n.index < w.cells.size := by
  by_contra hn
  rw [parent?, cell_of_size_le (Nat.not_lt.mp hn)] at h
  cases h

theorem parent_of_parent? (h : w.parent? n = some p) :
    (w.cell n).parent = some p ∧ w.alive p = true :=
  Option.filter_eq_some_iff.mp h

theorem parent?_of_parent (h : (w.cell n).parent = some p) (halive : w.alive p = true) :
    w.parent? n = some p :=
  Option.filter_eq_some_iff.mpr ⟨h, halive⟩

/-- A node without a parent is the descendant of none. -/
theorem not_descends_of_parent?_eq_none (h : w.parent? n = none) : ¬ w.Descends n m := by
  intro hdescends
  obtain ⟨p, hp, -⟩ := Relation.TransGen.head'_iff.mp hdescends
  rw [h] at hp
  cases hp

/-- The first value of a name is the value of the first node that holds it. -/
theorem findSome?_getRaw (w : World) (key : String) (nodes : List NodeId) :
    (nodes.findSome? fun m => w.getRaw m key) =
      (nodes.find? fun m => w.containsKey m key).bind fun m => w.getRaw m key := by
  induction nodes with
  | nil => rfl
  | cons m rest ih =>
      rw [List.findSome?_cons, List.find?_cons]
      cases hm : w.getRaw m key with
      | none =>
          have hheld : w.containsKey m key = false := congrArg Option.isSome hm
          rw [hheld]
          exact ih
      | some value =>
          have hheld : w.containsKey m key = true := congrArg Option.isSome hm
          rw [hheld]
          exact hm.symm

/-! ## Ends of walks -/

/-- Where no node is above itself, the walk from any node ends. -/
theorem Acyclic.exists_climb (h : w.Acyclic) (n : NodeId) : ∃ chain, w.Climbs n chain := by
  -- The nodes that were passed differ, so there is room for as many more as the world has besides.
  suffices hroom : ∀ (room : Nat) (passed : List NodeId) (n : NodeId), passed.Nodup →
      (∀ x ∈ passed, x.index < w.cells.size ∧ w.Descends x n) →
      w.cells.size ≤ passed.length + room → ∃ chain, w.Climbs n chain from
    hroom w.cells.size [] n List.nodup_nil (fun _ hx => (List.not_mem_nil hx).elim) (by simp)
  intro room
  induction room with
  | zero =>
      intro passed n hnodup hpassed hsize
      cases hp : w.parent? n with
      | none => exact ⟨[n], .top hp⟩
      | some p =>
          have hmem := mem_of_size_le hnodup (fun x hx => (hpassed x hx).1) hsize
            (lt_size_of_parent? hp)
          exact absurd (hpassed n hmem).2 (h n)
  | succ room ih =>
      intro passed n hnodup hpassed hsize
      cases hp : w.parent? n with
      | none => exact ⟨[n], .top hp⟩
      | some p =>
          have hfresh : n ∉ passed := fun hmem => h n (hpassed n hmem).2
          obtain ⟨chain, hchain⟩ := ih (n :: passed) p (List.nodup_cons.mpr ⟨hfresh, hnodup⟩)
            (fun x hx => by
              rcases List.mem_cons.mp hx with rfl | hx
              · exact ⟨lt_size_of_parent? hp, .single hp⟩
              · exact ⟨(hpassed x hx).1, (hpassed x hx).2.tail hp⟩)
            (by rw [List.length_cons]; omega)
          exact ⟨n :: chain, .step hp hchain⟩

namespace Climbs

/-- A node has one walk at most. -/
theorem unique {others : List NodeId} (h : w.Climbs n chain) (h' : w.Climbs n others) :
    chain = others := by
  induction h generalizing others with
  | top hnone =>
      cases h' with
      | top => rfl
      | step hp => rw [hnone] at hp; cases hp
  | step hp _ ih =>
      cases h' with
      | top hnone => rw [hnone] at hp; cases hp
      | step hp' h' =>
          obtain rfl := Option.some.inj (hp.symm.trans hp')
          rw [ih h']

/-- The walk from a node on the way is the rest of the walk. -/
theorem exists_suffix (h : w.Climbs n chain) (hm : m ∈ chain) :
    ∃ before rest, chain = before ++ rest ∧ w.Climbs m rest := by
  induction h with
  | top hnone =>
      obtain rfl := List.mem_singleton.mp hm
      exact ⟨[], _, rfl, .top hnone⟩
  | @step n p chain hp hclimb ih =>
      rcases List.mem_cons.mp hm with rfl | hm
      · exact ⟨[], _, rfl, .step hp hclimb⟩
      · obtain ⟨before, rest, rfl, hrest⟩ := ih hm
        exact ⟨n :: before, rest, rfl, hrest⟩

theorem nodup (h : w.Climbs n chain) : chain.Nodup := by
  induction h with
  | top => exact List.nodup_singleton _
  | @step n p chain hp hclimb ih =>
      refine List.nodup_cons.mpr ⟨fun hmem => ?_, ih⟩
      -- The walk from the node would be a part of itself.
      obtain ⟨before, rest, hchain, hrest⟩ := hclimb.exists_suffix hmem
      have hlength := congrArg List.length (hrest.unique (.step hp hclimb))
      have hlength' := congrArg List.length hchain
      rw [List.length_append] at hlength'
      rw [List.length_cons] at hlength
      omega

theorem exists_cons (h : w.Climbs n chain) : ∃ above, chain = n :: above := by
  cases h with
  | top => exact ⟨[], rfl⟩
  | step => exact ⟨_, rfl⟩

/-- All nodes above the first are nodes of the world. -/
theorem lt_size (hclosed : w.Closed) {above : List NodeId} (h : w.Climbs n (n :: above)) :
    ∀ x ∈ above, x.index < w.cells.size := by
  generalize hchain : n :: above = chain at h
  induction h generalizing above with
  | top =>
      obtain ⟨-, rfl⟩ := List.cons.inj hchain
      exact fun _ hx => (List.not_mem_nil hx).elim
  | @step n p chain hp hclimb ih =>
      obtain ⟨-, rfl⟩ := List.cons.inj hchain
      obtain ⟨others, rfl⟩ := hclimb.exists_cons
      intro x hx
      rcases List.mem_cons.mp hx with rfl | hx
      · exact hclosed.parents n x (parent_of_parent? hp).1
      · exact ih rfl x hx

theorem ancestors_eq {above : List NodeId} (h : w.Climbs n (n :: above)) {fuel : Nat}
    {passed : List NodeId} (hfuel : above.length ≤ fuel) (hpassed : ∀ x ∈ above, x ∉ passed) :
    w.ancestors fuel passed n = above := by
  induction fuel generalizing n above passed with
  | zero => exact (List.eq_nil_of_length_eq_zero (Nat.le_zero.mp hfuel)).symm
  | succ fuel ih =>
      rw [ancestors]
      cases h with
      | top hnone => rw [hnone]
      | step hp hclimb =>
          obtain ⟨others, rfl⟩ := hclimb.exists_cons
          rename_i p
          have hfresh := (List.nodup_cons.mp hclimb.nodup).1
          rw [hp]
          show (if p ∈ passed then [] else p :: w.ancestors fuel (p :: passed) p) = _
          rw [if_neg (hpassed p List.mem_cons_self), ih hclimb]
          · rw [List.length_cons] at hfuel
            omega
          · intro x hx hmem
            rcases List.mem_cons.mp hmem with rfl | hmem
            · exact hfresh hx
            · exact hpassed x (List.mem_cons_of_mem _ hx) hmem

/-- A walk that ends is the lineage. -/
theorem lineage_eq (hclosed : w.Closed) (h : w.Climbs n chain) : w.lineage n = chain := by
  obtain ⟨above, rfl⟩ := h.exists_cons
  obtain ⟨hfresh, hnodup⟩ := List.nodup_cons.mp h.nodup
  rw [lineage, h.ancestors_eq (length_le_size hnodup (h.lt_size hclosed))]
  intro x hx hmem
  obtain rfl := List.mem_singleton.mp hmem
  exact hfresh hx

/-! ## Readings on the way up -/

/-- The root is where the walk ends. -/
theorem getLast?_eq (hclosed : w.Closed) (h : w.Climbs n chain) :
    chain.getLast? = some (w.root n) := by
  rw [← h.lineage_eq hclosed]
  exact List.getLast?_eq_some_getLast (List.cons_ne_nil _ _)

/-- The last node of a walk has no parent. -/
theorem parent?_of_getLast? (h : w.Climbs n chain) {r : NodeId} (hr : chain.getLast? = some r) :
    w.parent? r = none := by
  induction h with
  | top hnone =>
      obtain rfl := Option.some.inj hr
      exact hnone
  | step _ hclimb ih =>
      obtain ⟨above, rfl⟩ := hclimb.exists_cons
      exact ih hr

/-- The path is made up of the names below the root, with points between them. -/
theorem path_eq (hclosed : w.Closed) (h : w.Climbs n chain) :
    w.path n =
      ".".intercalate (chain.dropLast.reverse.map fun m => (w.cell m).name.getD "") := by
  rw [path, h.lineage_eq hclosed, ← Text.ofList_join, List.map_map]
  rfl

variable (lang : Language)

/-- A name has the value of the nearest node on the way up that holds it. -/
theorem resolve_eq (hclosed : w.Closed) (hinert : w.Inert) (h : w.Climbs n chain) (key : String) :
    n.resolve lang key w = (.done (chain.findSome? fun m => w.getRaw m key), w) := by
  have hholder : w.holder? n key = chain.find? fun m => w.containsKey m key := by
    rw [holder?, h.lineage_eq hclosed]
  have hvalue : (chain.findSome? fun m => w.getRaw m key) =
      (w.holder? n key).bind fun m => w.getRaw m key := by
    rw [hholder, findSome?_getRaw]
  rw [NodeId.resolve, Action.inspect_bind_apply, hvalue]
  cases hfound : w.holder? n key with
  | none => rfl
  | some m =>
      have hinside : ({ w with held := [m] ++ w.held } : World).Inert := hinert
      show Action.holding [m] (m.get lang key) w = _
      rw [Action.holding, NodeId.get_of_inert lang hinside]
      rfl

/-- Relative file names start from the nearest directory on the way up that is a text. -/
theorem directory_eq (hclosed : w.Closed) (hinert : w.Inert) (h : w.Climbs n chain) :
    n.directory lang w = (.done ((chain.findSome? w.ownDirectory?).getD "."), w) := by
  have hnamed : (w.namedDirectory chain).map Prod.snd = chain.findSome? w.ownDirectory? := by
    rw [namedDirectory, List.map_findSome?]
    refine congrArg (List.findSome? · chain) (funext fun m => ?_)
    rw [Function.comp_apply, ownDirectory?]
    cases hm : w.getRaw m directoryKey with
    | none => rfl
    | some value => cases value <;> rfl
  rw [NodeId.directory_of_inert lang hinert, h.lineage_eq hclosed, hnamed]

end Climbs

end World

end ScriptTree
