import Mathlib.Data.Fintype.Card
import ScriptTree.Proofs.Json.Pruning
import ScriptTree.Proofs.Load.Depiction
import ScriptTree.Proofs.World.Below

/-!
# Snapshots of plain nodes

A node is plain when everything below it is null, a truth value, a number, a text, a list or a node,
no key is an instruction and no entries lead back (`World.PlainBelow`). Such a node has a JSON form
(`World.exists_shows`), and its snapshot is that form pruned (`World.Shows.snapshot_eq`): the depth
of a snapshot is bounded by the number of nodes, and so is the nesting of what a node shows.
-/

set_option autoImplicit false

namespace ScriptTree

mutual

/-- The value is null, a truth value, a number or a text that is read back, a node or a list of such
values. -/
def Value.Simple : Value → Prop
  | .null | .bool _ | .node _ => True
  | .number n => Json.ReadsBack (.number n)
  | .text s => Json.ReadsBack (.text s)
  | .list values => Value.AllSimple values
  | _ => False

/-- All of the values are plain. -/
def Value.AllSimple : List Value → Prop
  | [] => True
  | value :: rest => value.Simple ∧ Value.AllSimple rest

end

namespace Json

mutual

/-- No key in the value is an instruction. -/
def Bare : Json → Prop
  | .array items => AllBare items
  | .object members => MembersBare members
  | _ => True

/-- No key in the values is an instruction. -/
def AllBare : List Json → Prop
  | [] => True
  | item :: rest => item.Bare ∧ AllBare rest

/-- No key of the members or in them is an instruction. -/
def MembersBare : List (String × Json) → Prop
  | [] => True
  | (key, member) :: rest =>
      NodeId.isDirectiveKey key = false ∧ member.Bare ∧ MembersBare rest

end

mutual

/-- How many objects are nested in each other. -/
def nesting : Json → Nat
  | .array items => allNesting items
  | .object members => membersNesting members + 1
  | _ => 0

/-- The greatest nesting of the values. -/
def allNesting : List Json → Nat
  | [] => 0
  | item :: rest => max item.nesting (allNesting rest)

/-- The greatest nesting of the members. -/
def membersNesting : List (String × Json) → Nat
  | [] => 0
  | (_, member) :: rest => max member.nesting (membersNesting rest)

end

end Json

namespace World

/-- What is below a node is plain, with distinct keys that are read back and are no instructions, and
no entries lead back to where they start. -/
structure PlainBelow (w : World) (n : NodeId) : Prop where
  values : ∀ x, w.Below n x → ∀ p ∈ (w.cell x).entries, p.2.Simple
  keys : ∀ x, w.Below n x → (w.cell x).entries.keys.Nodup ∧
    ∀ p ∈ (w.cell x).entries, NodeId.isDirectiveKey p.1 = false ∧ Json.ReadsBack (.text p.1)
  acyclic : ∀ x, w.Below n x → ¬ w.Under x x

/-- Some node in or below the given one has an entry that is a node with entries, and all of these
are empty. -/
def Hollow (w : World) (n : NodeId) : Prop :=
  ∃ x key m, w.Below n x ∧ (key, .node m) ∈ (w.cell x).entries ∧ (w.cell m).entries ≠ [] ∧
    ∀ p ∈ (w.cell m).entries, w.isEmpty p.2 = true

mutual

/-- The value has the JSON form: each node is an object with the node's entries. -/
inductive Shows (w : World) : Value → Json → Prop
  | null : Shows w .null .null
  | bool (b : Bool) : Shows w (.bool b) (.bool b)
  | number (n : Number) : Shows w (.number n) (.number n)
  | text (s : String) : Shows w (.text s) (.text s)
  | list {values : List Value} {items : List Json} :
      ShowsAll w values items → Shows w (.list values) (.array items)
  | node {n : NodeId} {members : List (String × Json)} :
      ShowsMembers w (w.cell n).entries members → Shows w (.node n) (.object members)

/-- The values have the JSON forms one by one. -/
inductive ShowsAll (w : World) : List Value → List Json → Prop
  | nil : ShowsAll w [] []
  | cons {value : Value} {values : List Value} {item : Json} {items : List Json} :
      Shows w value item → ShowsAll w values items → ShowsAll w (value :: values) (item :: items)

/-- The values have the JSON forms one by one, under the same keys. -/
inductive ShowsMembers (w : World) : Entries Value → List (String × Json) → Prop
  | nil : ShowsMembers w [] []
  | cons {key : String} {value : Value} {entries : Entries Value} {member : Json}
      {members : List (String × Json)} :
      Shows w value member → ShowsMembers w entries members →
      ShowsMembers w ((key, value) :: entries) ((key, member) :: members)

end

variable {w : World}

theorem ShowsMembers.keys_eq {entries : Entries Value} {members : List (String × Json)}
    (h : w.ShowsMembers entries members) : Entries.keys members = entries.keys := by
  induction members generalizing entries with
  | nil =>
      cases h
      rfl
  | cons p rest ih =>
      cases h with
      | cons _ h => exact congrArg _ (ih h)

/-! ## The one form of a value -/

mutual

theorem Shows.unique : ∀ {value : Value} {json json' : Json}, w.Shows value json →
    w.Shows value json' → json = json'
  | _, _, _, .null, .null | _, _, _, .bool _, .bool _ | _, _, _, .number _, .number _
  | _, _, _, .text _, .text _ => rfl
  | _, _, _, .list h, .list h' => congrArg Json.array (h.unique h')
  | _, _, _, .node h, .node h' => congrArg Json.object (h.unique h')

theorem ShowsAll.unique : ∀ {values : List Value} {items items' : List Json},
    w.ShowsAll values items → w.ShowsAll values items' → items = items'
  | _, _, _, .nil, .nil => rfl
  | _, _, _, .cons h hrest, .cons h' hrest' => by rw [h.unique h', hrest.unique hrest']

theorem ShowsMembers.unique : ∀ {entries : Entries Value} {members members' : List (String × Json)},
    w.ShowsMembers entries members → w.ShowsMembers entries members' → members = members'
  | _, _, _, .nil, .nil => rfl
  | _, _, _, .cons h hrest, .cons h' hrest' => by rw [h.unique h', hrest.unique hrest']

end

/-- What is empty is vacant in its form. -/
theorem Shows.isEmpty_eq {value : Value} {json : Json} (h : w.Shows value json) :
    w.isEmpty value = json.vacant := by
  cases h with
  | list h =>
      cases h
      · rfl
      · rfl
  | @node n members h =>
      show (w.cell n).entries.isEmpty = members.isEmpty
      cases hentries : (w.cell n).entries <;> rw [hentries] at h <;> cases h <;> rfl
  | _ => rfl

/-! ## Snapshots -/

mutual

/-- A snapshot of a value is its form pruned, when there is fuel for the nesting. -/
theorem Shows.json_within {r : Rendering} : ∀ {value : Value} {json : Json}, w.Shows value json →
    ∀ {fuel : Nat}, json.nesting ≤ fuel → value.json r (w.snapshotWithin fuel) = json.pruned
  | _, _, .null, _, _ | _, _, .bool _, _, _ | _, _, .number _, _, _ | _, _, .text _, _, _ => by
      rw [Json.pruned]
      · rfl
      all_goals exact fun _ heq => nomatch heq
  | _, _, .list h, _, hfuel => by
      rw [Json.nesting] at hfuel
      rw [Json.pruned]
      exact congrArg Json.array (h.json_within hfuel)
  | .node n, _, .node h, fuel, hfuel => by
      rw [Json.nesting] at hfuel
      obtain ⟨fuel, rfl⟩ := Nat.exists_eq_add_one_of_ne_zero (Nat.ne_of_gt
        (Nat.lt_of_lt_of_le (Nat.succ_pos _) hfuel))
      rw [Json.pruned]
      exact congrArg Json.object (h.json_within (Nat.le_of_succ_le_succ hfuel))

theorem ShowsAll.json_within {r : Rendering} : ∀ {values : List Value} {items : List Json},
    w.ShowsAll values items → ∀ {fuel : Nat}, Json.allNesting items ≤ fuel →
    Value.allJson r (w.snapshotWithin fuel) values = Json.prunedAll items
  | _, _, .nil, _, _ => rfl
  | _, _, .cons h hrest, _, hfuel => by
      rw [Json.allNesting, Nat.max_le] at hfuel
      rw [Value.allJson, Json.prunedAll, h.json_within hfuel.1, hrest.json_within hfuel.2]

theorem ShowsMembers.json_within {r : Rendering} : ∀ {entries : Entries Value}
    {members : List (String × Json)}, w.ShowsMembers entries members → ∀ {fuel : Nat},
    Json.membersNesting members ≤ fuel →
    Entries.mapValues (fun v => v.json r (w.snapshotWithin fuel))
      (entries.filter fun p => !w.isEmpty p.2) = Json.prunedMembers members
  | _, _, .nil, _, _ => rfl
  | _, _, @ShowsMembers.cons _ key value entries member members h hrest, fuel, hfuel => by
      rw [Json.membersNesting, Nat.max_le] at hfuel
      have hvalue := h.json_within (r := r) hfuel.1
      have hothers := hrest.json_within (r := r) hfuel.2
      rw [Json.prunedMembers_cons, List.filter_cons, h.isEmpty_eq, ← hothers]
      cases member.vacant with
      | true => rfl
      | false =>
          rw [if_neg Bool.false_ne_true, ← hvalue]
          rfl

end

mutual

/-- Objects are nested in each other as deep as nodes are, so for each depth there is a node. One that
holds further nodes has entries. -/
theorem Shows.exists_nesting : ∀ {value : Value} {json : Json}, w.Shows value json → ∀ {k : Nat},
    0 < k → k ≤ json.nesting → ∃ m form, w.Shows (.node m) form ∧ form.nesting = k ∧
      (1 < k → (w.cell m).entries ≠ [])
  | _, _, .null, _, hpos, hle | _, _, .bool _, _, hpos, hle | _, _, .number _, _, hpos, hle
  | _, _, .text _, _, hpos, hle => by
      rw [Json.nesting] at hle
      · omega
      all_goals exact fun _ heq => nomatch heq
  | _, _, .list h, _, hpos, hle => by
      rw [Json.nesting] at hle
      exact h.exists_nesting hpos hle
  | _, _, @Shows.node _ n members h, k, hpos, hle => by
      rw [Json.nesting] at hle
      by_cases hk : k = Json.membersNesting members + 1
      · refine ⟨n, .object members, .node h, ?_, fun hlt hentries => ?_⟩
        · rw [Json.nesting, hk]
        · rw [hentries] at h
          cases h
          rw [Json.membersNesting] at hk
          omega
      · exact h.exists_nesting hpos (by omega)

theorem ShowsAll.exists_nesting : ∀ {values : List Value} {items : List Json},
    w.ShowsAll values items → ∀ {k : Nat}, 0 < k → k ≤ Json.allNesting items →
    ∃ m form, w.Shows (.node m) form ∧ form.nesting = k ∧ (1 < k → (w.cell m).entries ≠ [])
  | _, _, .nil, _, hpos, hle => by
      rw [Json.allNesting] at hle
      omega
  | _, _, .cons h hrest, _, hpos, hle => by
      rw [Json.allNesting, le_max_iff] at hle
      exact hle.elim (h.exists_nesting hpos) (hrest.exists_nesting hpos)

theorem ShowsMembers.exists_nesting : ∀ {entries : Entries Value} {members : List (String × Json)},
    w.ShowsMembers entries members → ∀ {k : Nat}, 0 < k → k ≤ Json.membersNesting members →
    ∃ m form, w.Shows (.node m) form ∧ form.nesting = k ∧ (1 < k → (w.cell m).entries ≠ [])
  | _, _, .nil, _, hpos, hle => by
      rw [Json.membersNesting] at hle
      omega
  | _, _, .cons h hrest, _, hpos, hle => by
      rw [Json.membersNesting, le_max_iff] at hle
      exact hle.elim (h.exists_nesting hpos) (hrest.exists_nesting hpos)

end

/-- Objects are nested no deeper than there are nodes, but for one without entries. -/
theorem Shows.nesting_le {value : Value} {json : Json} (h : w.Shows value json) :
    json.nesting ≤ w.cells.size + 1 := by
  -- The nodes of different depths are different.
  have hnodes : ∀ i : Fin (json.nesting - 1), ∃ m form, w.Shows (.node m) form ∧
      form.nesting = i.val + 2 ∧ (w.cell m).entries ≠ [] := by
    intro i
    obtain ⟨m, form, hform, hdepth, hentries⟩ :=
      h.exists_nesting (k := i.val + 2) (by omega) (by omega)
    exact ⟨m, form, hform, hdepth, hentries (by omega)⟩
  choose node form hform hdepth hentries using hnodes
  have hinjective : Function.Injective node := by
    intro i j heq
    have hsame := (hform i).unique (heq ▸ hform j)
    have hdepths := hdepth i
    rw [hsame, hdepth j] at hdepths
    exact Fin.ext (by omega)
  have hrange : ∀ i, (node i).index < w.cells.size := by
    intro i
    by_contra hout
    have hempty : (w.cell (node i)).entries = [] := by
      rw [cell_of_size_le (Nat.not_lt.mp hout)]
      rfl
    exact hentries i hempty
  have hplaces : Function.Injective fun i => (⟨(node i).index, hrange i⟩ : Fin w.cells.size) :=
    fun i j heq => hinjective (index_injective (congrArg Fin.val heq))
  have hcard := Fintype.card_le_of_injective _ hplaces
  rw [Fintype.card_fin, Fintype.card_fin] at hcard
  omega

/-- The snapshot of a value is its form pruned. -/
theorem Shows.snapshot_eq {value : Value} {json : Json} (h : w.Shows value json) :
    w.snapshot value = json.pruned :=
  h.json_within h.nesting_le

/-! ## Forms of plain nodes -/

/-- The value has a form that is legible and without instructions. -/
def Presents (w : World) (value : Value) : Prop :=
  ∃ json, w.Shows value json ∧ json.Legible ∧ json.Bare

mutual

theorem presents_of_simple (value : Value) (h : value.Simple)
    (hnodes : ∀ r ∈ value.nodes, w.Presents (.node r)) : w.Presents value := by
  cases value with
  | null => exact ⟨.null, .null, trivial, trivial⟩
  | bool b => exact ⟨.bool b, .bool b, trivial, trivial⟩
  | number n => exact ⟨.number n, .number n, h, trivial⟩
  | text s => exact ⟨.text s, .text s, h, trivial⟩
  | node r => exact hnodes r List.mem_cons_self
  | list values =>
      rw [Value.Simple] at h
      obtain ⟨items, hshows, hlegible, hbare⟩ := presentsAll_of_simple values h hnodes
      exact ⟨.array items, .list hshows, hlegible, hbare⟩
  | _ => simp only [Value.Simple] at h
  termination_by sizeOf value

theorem presentsAll_of_simple (values : List Value) (h : Value.AllSimple values)
    (hnodes : ∀ r ∈ Value.allNodes values, w.Presents (.node r)) :
    ∃ items, w.ShowsAll values items ∧ Json.AllLegible items ∧ Json.AllBare items := by
  cases values with
  | nil => exact ⟨[], .nil, trivial, trivial⟩
  | cons value rest =>
      rw [Value.AllSimple] at h
      obtain ⟨item, hitem, hlegible, hbare⟩ := presents_of_simple value h.1
        fun r hr => hnodes r (List.mem_append_left _ hr)
      obtain ⟨items, hitems, hlegibles, hbares⟩ := presentsAll_of_simple rest h.2
        fun r hr => hnodes r (List.mem_append_right _ hr)
      exact ⟨item :: items, .cons hitem hitems, ⟨hlegible, hlegibles⟩, ⟨hbare, hbares⟩⟩
  termination_by sizeOf values

end

theorem presentsMembers {entries : Entries Value}
    (hvalues : ∀ p ∈ entries, w.Presents p.2)
    (hkeys : ∀ p ∈ entries, NodeId.isDirectiveKey p.1 = false ∧ Json.ReadsBack (.text p.1)) :
    ∃ members, w.ShowsMembers entries members ∧ Json.MembersLegible members ∧
      Json.MembersBare members := by
  induction entries with
  | nil => exact ⟨[], .nil, trivial, trivial⟩
  | cons p rest ih =>
      obtain ⟨key, value⟩ := p
      obtain ⟨hvalue, hrest⟩ := List.forall_mem_cons.mp hvalues
      obtain ⟨hkey, hothers⟩ := List.forall_mem_cons.mp hkeys
      obtain ⟨member, hmember, hlegible, hbare⟩ := hvalue
      obtain ⟨members, hmembers, hlegibles, hbares⟩ := ih hrest hothers
      exact ⟨(key, member) :: members, .cons hmember hmembers, ⟨hkey.2, hlegible, hlegibles⟩,
        ⟨hkey.1, hbare, hbares⟩⟩

/-- A plain node has a form, by induction on how many nodes lie below it. -/
theorem presents_of_plainBelow (hclosed : w.Closed) {n : NodeId} (h : w.PlainBelow n) :
    w.Presents (.node n) := by
  classical
  induction hcount : ((Finset.univ : Finset (Fin w.cells.size)).filter
    fun i => w.Under n ⟨i.val⟩).card using Nat.strong_induction_on generalizing n with
  | _ count ih =>
      have hnodes : ∀ r ∈ references (w.cell n), w.Presents (.node r) := by
        intro r hr
        have hbelow : ∀ x, w.Below r x → w.Below n x := fun x hx => .head hr hx
        refine ih _ ?_ ⟨fun x hx => h.values x (hbelow x hx), fun x hx => h.keys x (hbelow x hx),
          fun x hx => h.acyclic x (hbelow x hx)⟩ rfl
        -- The node itself is below the first one, and not below itself.
        rw [← hcount]
        apply Finset.card_lt_card
        refine Finset.ssubset_iff_of_subset ?_ |>.mpr ?_
        · intro i hi
          rw [Finset.mem_filter] at hi ⊢
          exact ⟨hi.1, .head hr hi.2⟩
        · have hlt := hclosed.references n r hr
          refine ⟨⟨r.index, hlt⟩, ?_, ?_⟩
          · rw [Finset.mem_filter]
            exact ⟨Finset.mem_univ _, .single hr⟩
          · rw [Finset.mem_filter, not_and]
            exact fun _ => h.acyclic r (.single hr)
      have hvalues : ∀ p ∈ (w.cell n).entries, w.Presents p.2 := fun p hp =>
        presents_of_simple p.2 (h.values n .refl p hp) fun r hr =>
          hnodes r (List.mem_flatMap.mpr ⟨p, hp, hr⟩)
      obtain ⟨hdistinct, hkeys⟩ := h.keys n .refl
      obtain ⟨members, hmembers, hlegible, hbare⟩ := presentsMembers hvalues hkeys
      rw [← hmembers.keys_eq] at hdistinct
      exact ⟨.object members, .node hmembers, ⟨hdistinct, hlegible⟩, hbare⟩

/-! ## Hollow nodes -/

theorem ShowsMembers.exists_value {entries : Entries Value} {members : List (String × Json)}
    (h : w.ShowsMembers entries members) {p : String × Json} (hp : p ∈ members) :
    ∃ value, (p.1, value) ∈ entries ∧ w.Shows value p.2 := by
  induction members generalizing entries with
  | nil => cases hp
  | cons q rest ih =>
      cases h with
      | @cons key value others _ _ hvalue hrest =>
          rcases List.mem_cons.mp hp with rfl | hp
          · exact ⟨value, List.mem_cons_self, hvalue⟩
          · obtain ⟨value', hmem, hshows⟩ := ih hrest hp
            exact ⟨value', List.mem_cons_of_mem _ hmem, hshows⟩

theorem ShowsMembers.exists_member {entries : Entries Value} {members : List (String × Json)}
    (h : w.ShowsMembers entries members) {p : String × Value} (hp : p ∈ entries) :
    ∃ member, (p.1, member) ∈ members ∧ w.Shows p.2 member := by
  induction members generalizing entries with
  | nil =>
      cases h
      cases hp
  | cons q rest ih =>
      cases h with
      | @cons key value others member _ hvalue hrest =>
          rcases List.mem_cons.mp hp with rfl | hp
          · exact ⟨member, List.mem_cons_self, hvalue⟩
          · obtain ⟨member', hmem, hshows⟩ := ih hrest hp
            exact ⟨member', List.mem_cons_of_mem _ hmem, hshows⟩

/-- The form of a node is hollow when the node has entries and all of them are empty. -/
theorem Shows.hollow_iff {n : NodeId} {json : Json} (h : w.Shows (.node n) json) :
    json.Hollow ↔ (w.cell n).entries ≠ [] ∧ ∀ p ∈ (w.cell n).entries, w.isEmpty p.2 = true := by
  cases h with
  | @node _ members h =>
      constructor
      · rintro ⟨members', heq, hne, hvacant⟩
        rcases Json.object.inj heq with rfl
        refine ⟨fun hentries => ?_, fun p hp => ?_⟩
        · rw [hentries] at h
          cases h
          exact hne rfl
        · obtain ⟨member, hmem, hshows⟩ := h.exists_member hp
          rw [hshows.isEmpty_eq]
          exact hvacant _ hmem
      · rintro ⟨hne, hempty⟩
        refine ⟨members, rfl, ?_, fun p hp => ?_⟩
        · rintro rfl
          generalize (w.cell n).entries = entries at h hne
          cases h
          exact hne rfl
        · obtain ⟨value, hmem, hshows⟩ := h.exists_value hp
          rw [← hshows.isEmpty_eq]
          exact hempty _ hmem

theorem membersHave_of_mem {P : Json → Prop} {members : List (String × Json)}
    {p : String × Json} (hp : p ∈ members) (h : P p.2 ∨ p.2.HasMember P) :
    Json.MembersHave P members := by
  induction members with
  | nil => cases hp
  | cons q rest ih =>
      rw [Json.MembersHave]
      rcases List.mem_cons.mp hp with rfl | hp
      · exact h.imp_right .inl
      · exact .inr (.inr (ih hp))

mutual

/-- A member of the kind in the form of a node is one in the form of what the value refers to. -/
theorem Shows.hasMember_of_mem {P : Json → Prop} : ∀ {value : Value} {json : Json},
    w.Shows value json → ∀ {r : NodeId}, r ∈ value.nodes →
    ∃ form, w.Shows (.node r) form ∧ (form.HasMember P → json.HasMember P)
  | _, _, .null, _, hr | _, _, .bool _, _, hr | _, _, .number _, _, hr
  | _, _, .text _, _, hr => (List.not_mem_nil hr).elim
  | _, _, .list h, _, hr => by
      obtain ⟨form, hform, himp⟩ := h.hasMember_of_mem hr
      refine ⟨form, hform, fun hmember => ?_⟩
      rw [Json.HasMember]
      exact himp hmember
  | _, _, .node h, _, hr => by
      rcases List.mem_singleton.mp hr with rfl
      exact ⟨_, .node h, id⟩

theorem ShowsAll.hasMember_of_mem {P : Json → Prop} : ∀ {values : List Value} {items : List Json},
    w.ShowsAll values items → ∀ {r : NodeId}, r ∈ Value.allNodes values →
    ∃ form, w.Shows (.node r) form ∧ (form.HasMember P → Json.AnyHasMember P items)
  | _, _, .nil, _, hr => (List.not_mem_nil hr).elim
  | _, _, .cons h hrest, _, hr => by
      rcases List.mem_append.mp hr with hr | hr
      · obtain ⟨form, hform, himp⟩ := h.hasMember_of_mem hr
        exact ⟨form, hform, fun hmember => .inl (himp hmember)⟩
      · obtain ⟨form, hform, himp⟩ := hrest.hasMember_of_mem hr
        exact ⟨form, hform, fun hmember => .inr (himp hmember)⟩

end

/-- What is below a node has a form, and the members in it are in the form of the node. -/
theorem Shows.hasMember_of_below {P : Json → Prop} {n x : NodeId} {json : Json}
    (h : w.Shows (.node n) json) (hbelow : w.Below n x) :
    ∃ form, w.Shows (.node x) form ∧ (form.HasMember P → json.HasMember P) := by
  induction hbelow with
  | refl => exact ⟨json, h, id⟩
  | @tail y z _ href ih =>
      obtain ⟨form, hform, himp⟩ := ih
      cases hform with
      | @node _ members hmembers =>
          obtain ⟨p, hp, hz⟩ := List.mem_flatMap.mp href
          obtain ⟨member, hmem, hshows⟩ := hmembers.exists_member hp
          obtain ⟨inner, hinner, himp'⟩ := hshows.hasMember_of_mem hz
          refine ⟨inner, hinner, fun hmember => himp ?_⟩
          rw [Json.HasMember]
          exact membersHave_of_mem hmem (.inr (himp' hmember))

mutual

/-- A hollow member in the form of a value comes from a hollow node that the value leads to. -/
theorem Shows.exists_hollow : ∀ {value : Value} {json : Json}, w.Shows value json →
    json.HasMember Json.Hollow → ∃ r ∈ value.nodes, w.Hollow r
  | _, _, .null, h | _, _, .bool _, h | _, _, .number _, h | _, _, .text _, h => by
      rw [Json.HasMember] at h
      · exact h.elim
      all_goals exact fun _ heq => nomatch heq
  | _, _, .list hshows, h => by
      rw [Json.HasMember] at h
      exact hshows.exists_hollow h
  | .node n, _, .node hshows, h => by
      rw [Json.HasMember] at h
      refine ⟨n, List.mem_cons_self, ?_⟩
      obtain ⟨p, hp, hhollow | ⟨r, hr, x, key, m, hbelow, hrest⟩⟩ := hshows.exists_hollow h
      · obtain ⟨key, value⟩ := p
        obtain ⟨m, rfl, hne, hempty⟩ := hhollow
        exact ⟨n, key, m, .refl, hp, hne, hempty⟩
      · exact ⟨x, key, m, .head (List.mem_flatMap.mpr ⟨p, hp, hr⟩) hbelow, hrest⟩

theorem ShowsAll.exists_hollow : ∀ {values : List Value} {items : List Json},
    w.ShowsAll values items → Json.AnyHasMember Json.Hollow items →
    ∃ r ∈ Value.allNodes values, w.Hollow r
  | _, _, .nil, h => h.elim
  | _, _, .cons hshows hrest, h => by
      rw [Json.AnyHasMember] at h
      rcases h with h | h
      · obtain ⟨r, hr, hhollow⟩ := hshows.exists_hollow h
        exact ⟨r, List.mem_append_left _ hr, hhollow⟩
      · obtain ⟨r, hr, hhollow⟩ := hrest.exists_hollow h
        exact ⟨r, List.mem_append_right _ hr, hhollow⟩

theorem ShowsMembers.exists_hollow : ∀ {entries : Entries Value} {members : List (String × Json)},
    w.ShowsMembers entries members → Json.MembersHave Json.Hollow members →
    ∃ p ∈ entries, (∃ m, p.2 = .node m ∧ (w.cell m).entries ≠ [] ∧
      ∀ q ∈ (w.cell m).entries, w.isEmpty q.2 = true) ∨ ∃ r ∈ p.2.nodes, w.Hollow r
  | _, _, .nil, h => h.elim
  | _, _, @ShowsMembers.cons _ key value _ _ _ hshows hrest, h => by
      rw [Json.MembersHave] at h
      rcases h with h | h | h
      · refine ⟨(key, value), List.mem_cons_self, .inl ?_⟩
        obtain ⟨members, rfl, -, -⟩ := id h
        cases hshows with
        | @node m _ hmembers => exact ⟨m, rfl, (Shows.node hmembers).hollow_iff.mp h⟩
      · exact ⟨(key, value), List.mem_cons_self, .inr (hshows.exists_hollow h)⟩
      · obtain ⟨p, hp, hfound⟩ := hrest.exists_hollow h
        exact ⟨p, List.mem_cons_of_mem _ hp, hfound⟩

end

/-- The form of a node has a hollow member exactly when a hollow node is stored below the node. -/
theorem Shows.hasMember_hollow_iff {n : NodeId} {json : Json} (h : w.Shows (.node n) json) :
    json.HasMember Json.Hollow ↔ w.Hollow n := by
  constructor
  · intro hmember
    obtain ⟨r, hr, hhollow⟩ := h.exists_hollow hmember
    rwa [List.mem_singleton.mp hr] at hhollow
  · rintro ⟨x, key, m, hbelow, hmem, hhollow⟩
    obtain ⟨form, hform, himp⟩ := h.hasMember_of_below hbelow
    apply himp
    cases hform with
    | @node _ members hmembers =>
        obtain ⟨member, hin, hshows⟩ := hmembers.exists_member hmem
        rw [Json.HasMember]
        exact membersHave_of_mem hin (.inl (hshows.hollow_iff.mpr hhollow))

end World

end ScriptTree
