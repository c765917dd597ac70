import ScriptTree.Proofs.Json.Pretty

/-!
# Pruned values

A pruned value lacks the members of objects that were null or empty (`Json.pruned`). Pruning may
empty an object that held nothing but such members, and only then is there something to prune in a
pruned value (`Json.pruned_pruned_iff`): what is left out is decided before it is pruned itself.
-/

set_option autoImplicit false

namespace ScriptTree.Json

/-- Null, the empty text, the empty list and the empty object are vacant. -/
def vacant : Json → Bool
  | .null => true
  | .text s => s.isEmpty
  | .array items => items.isEmpty
  | .object members => members.isEmpty
  | _ => false

mutual

/-- The value without the vacant members of its objects. Vacant items of lists stay. -/
def pruned : Json → Json
  | .array items => .array (prunedAll items)
  | .object members => .object (prunedMembers members)
  | json => json

/-- The values, each pruned. -/
def prunedAll : List Json → List Json
  | [] => []
  | item :: rest => item.pruned :: prunedAll rest

/-- The members that are not vacant, each pruned. -/
def prunedMembers : List (String × Json) → List (String × Json)
  | [] => []
  | (key, member) :: rest =>
      if member.vacant then prunedMembers rest else (key, member.pruned) :: prunedMembers rest

end

mutual

/-- An object in the value, however deep, has a member of the kind. -/
def HasMember (P : Json → Prop) : Json → Prop
  | .array items => AnyHasMember P items
  | .object members => MembersHave P members
  | _ => False

/-- An object in one of the values has a member of the kind. -/
def AnyHasMember (P : Json → Prop) : List Json → Prop
  | [] => False
  | item :: rest => item.HasMember P ∨ AnyHasMember P rest

/-- A member is of the kind, or an object in it has such a member. -/
def MembersHave (P : Json → Prop) : List (String × Json) → Prop
  | [] => False
  | (_, member) :: rest => P member ∨ member.HasMember P ∨ MembersHave P rest

end

/-- The value is an object that has members, all of them vacant. -/
def Hollow (json : Json) : Prop :=
  ∃ members, json = .object members ∧ members ≠ [] ∧ ∀ p ∈ members, p.2.vacant = true

variable {P Q R : Json → Prop}

theorem prunedMembers_cons (key : String) (member : Json) (rest : List (String × Json)) :
    prunedMembers ((key, member) :: rest) =
      if member.vacant then prunedMembers rest
      else (key, member.pruned) :: prunedMembers rest := by
  rw [prunedMembers]

/-! ## What pruning keeps -/

theorem prunedMembers_sublist (members : List (String × Json)) :
    (Entries.keys (prunedMembers members)).Sublist (Entries.keys members) := by
  induction members with
  | nil => exact .slnil
  | cons p rest ih =>
      obtain ⟨key, member⟩ := p
      rw [prunedMembers_cons]
      split
      · exact .trans ih (List.sublist_cons_self _ _)
      · exact ih.cons_cons key

theorem length_prunedMembers_le (members : List (String × Json)) :
    (prunedMembers members).length ≤ members.length := by
  have hle := (prunedMembers_sublist members).length_le
  rwa [Entries.keys, Entries.keys, List.length_map, List.length_map] at hle

/-- All members of a pruned object are vacant exactly when it has none. -/
theorem prunedMembers_eq_nil_iff {members : List (String × Json)} :
    prunedMembers members = [] ↔ ∀ p ∈ members, p.2.vacant = true := by
  induction members with
  | nil => exact ⟨fun _ _ hp => absurd hp List.not_mem_nil, fun _ => rfl⟩
  | cons p rest ih =>
      obtain ⟨key, member⟩ := p
      rw [prunedMembers_cons, List.forall_mem_cons]
      split
      · rename_i hmember
        rw [ih]
        exact ⟨fun h => ⟨hmember, h⟩, fun h => h.2⟩
      · rename_i hmember
        exact ⟨fun h => absurd h (List.cons_ne_nil _ _), fun h => absurd h.1 hmember⟩

mutual

theorem Legible.pruned : ∀ {json : Json}, json.Legible → json.pruned.Legible
  | .array items, h => by
      rw [Legible] at h
      rw [Json.pruned, Legible]
      exact AllLegible.pruned h
  | .object members, h => by
      rw [Legible] at h
      rw [Json.pruned, Legible]
      exact ⟨h.1.sublist (prunedMembers_sublist members), MembersLegible.pruned h.2⟩
  | .null, h | .bool _, h | .number _, h | .text _, h => by
      rw [Json.pruned]
      · exact h
      all_goals exact fun _ heq => nomatch heq

theorem AllLegible.pruned : ∀ {items : List Json}, AllLegible items →
    AllLegible (prunedAll items)
  | [], h => h
  | _ :: _, h => by
      rw [AllLegible] at h
      rw [prunedAll, AllLegible]
      exact ⟨h.1.pruned, AllLegible.pruned h.2⟩

theorem MembersLegible.pruned : ∀ {members : List (String × Json)}, MembersLegible members →
    MembersLegible (prunedMembers members)
  | [], h => h
  | (_, member) :: _, h => by
      rw [MembersLegible] at h
      rw [prunedMembers_cons]
      split
      · exact MembersLegible.pruned h.2.2
      · rw [MembersLegible]
        exact ⟨h.1, h.2.1.pruned, MembersLegible.pruned h.2.2⟩

end

/-! ## Members of pruned values -/

mutual

theorem HasMember.exists_member : ∀ {json : Json}, json.HasMember P → ∃ member, P member
  | .array items, h => by
      rw [HasMember] at h
      exact AnyHasMember.exists_member h
  | .object members, h => by
      rw [HasMember] at h
      exact MembersHave.exists_member h
  | .null, h | .bool _, h | .number _, h | .text _, h => by
      rw [HasMember] at h
      · exact h.elim
      all_goals exact fun _ heq => nomatch heq

theorem AnyHasMember.exists_member : ∀ {items : List Json}, AnyHasMember P items →
    ∃ member, P member
  | [], h => h.elim
  | _ :: _, h => by
      rw [AnyHasMember] at h
      exact h.elim (fun h => h.exists_member) fun h => AnyHasMember.exists_member h

theorem MembersHave.exists_member : ∀ {members : List (String × Json)}, MembersHave P members →
    ∃ member, P member
  | [], h => h.elim
  | (_, member) :: _, h => by
      rw [MembersHave] at h
      rcases h with h | h | h
      · exact ⟨member, h⟩
      · exact h.exists_member
      · exact MembersHave.exists_member h

end

/-- What is vacant has nothing inside. -/
theorem not_hasMember_of_vacant {json : Json} (h : json.vacant = true) : ¬ json.HasMember P := by
  cases json with
  | array items =>
      rw [HasMember, List.isEmpty_iff.mp h]
      exact id
  | object members =>
      rw [HasMember, List.isEmpty_iff.mp h]
      exact id
  | _ =>
      rw [HasMember]
      · exact id
      all_goals exact fun _ heq => nomatch heq

mutual

/-- The members of a pruned value are what pruning makes of those that are not vacant. -/
theorem hasMember_pruned : ∀ (json : Json), json.pruned.HasMember P ↔
    json.HasMember fun member => member.vacant = false ∧ P member.pruned
  | .array items => by
      rw [pruned, HasMember, HasMember]
      exact anyHasMember_pruned items
  | .object members => by
      rw [pruned, HasMember, HasMember]
      exact membersHave_pruned members
  | .null | .bool _ | .number _ | .text _ => by
      rw [pruned, HasMember, HasMember]
      all_goals exact fun _ heq => nomatch heq

theorem anyHasMember_pruned : ∀ (items : List Json), AnyHasMember P (prunedAll items) ↔
    AnyHasMember (fun member => member.vacant = false ∧ P member.pruned) items
  | [] => Iff.rfl
  | item :: rest => by
      rw [prunedAll, AnyHasMember, AnyHasMember, hasMember_pruned item, anyHasMember_pruned rest]

theorem membersHave_pruned : ∀ (members : List (String × Json)),
    MembersHave P (prunedMembers members) ↔
      MembersHave (fun member => member.vacant = false ∧ P member.pruned) members
  | [] => Iff.rfl
  | (key, member) :: rest => by
      rw [prunedMembers_cons, MembersHave]
      split
      · rename_i hvacant
        rw [membersHave_pruned rest, hvacant]
        simp only [Bool.true_eq_false, false_and, false_or, not_hasMember_of_vacant hvacant]
      · rename_i hvacant
        rw [MembersHave, hasMember_pruned member, membersHave_pruned rest]
        simp only [hvacant, true_and]

end

mutual

/-- Pruning changes a value exactly when there is a vacant member in it. -/
theorem pruned_eq_self_iff : ∀ (json : Json),
    json.pruned = json ↔ ¬ json.HasMember fun member => member.vacant = true
  | .array items => by
      rw [pruned, HasMember, Json.array.injEq]
      exact prunedAll_eq_self_iff items
  | .object members => by
      rw [pruned, HasMember, Json.object.injEq]
      exact prunedMembers_eq_self_iff members
  | .null | .bool _ | .number _ | .text _ => by
      rw [pruned, HasMember]
      · simp only [not_false_eq_true]
      all_goals exact fun _ heq => nomatch heq

theorem prunedAll_eq_self_iff : ∀ (items : List Json),
    prunedAll items = items ↔ ¬ AnyHasMember (fun member => member.vacant = true) items
  | [] => by simp only [prunedAll, AnyHasMember, not_false_eq_true]
  | item :: rest => by
      rw [prunedAll, AnyHasMember, not_or, List.cons.injEq, pruned_eq_self_iff item,
        prunedAll_eq_self_iff rest]

theorem prunedMembers_eq_self_iff : ∀ (members : List (String × Json)),
    prunedMembers members = members ↔
      ¬ MembersHave (fun member => member.vacant = true) members
  | [] => by simp only [prunedMembers, MembersHave, not_false_eq_true]
  | (key, member) :: rest => by
      rw [prunedMembers_cons, MembersHave, not_or, not_or]
      split
      · -- A member is gone, so the list is shorter.
        rename_i hvacant
        refine ⟨fun heq => ?_, fun h => absurd hvacant h.1⟩
        have hle := length_prunedMembers_le rest
        rw [heq, List.length_cons] at hle
        omega
      · rename_i hvacant
        rw [List.cons.injEq, Prod.mk.injEq, pruned_eq_self_iff member,
          prunedMembers_eq_self_iff rest]
        exact ⟨fun h => ⟨hvacant, h.1.2, h.2⟩, fun h => ⟨⟨rfl, h.2.1⟩, h.2.2⟩⟩

end

/-- A value that is not vacant becomes vacant when it is pruned exactly when it is hollow, and then
it is the empty object. -/
theorem vacant_pruned_iff {json : Json} :
    json.vacant = false ∧ json.pruned.vacant = true ↔ json.Hollow := by
  constructor
  · rintro ⟨h, hpruned⟩
    cases json with
    | null => cases h
    | array items =>
        cases items with
        | nil => cases h
        | cons item rest =>
            rw [pruned, prunedAll] at hpruned
            cases hpruned
    | object members =>
        rw [pruned] at hpruned
        refine ⟨members, rfl, ?_, prunedMembers_eq_nil_iff.mp (List.isEmpty_iff.mp hpruned)⟩
        rintro rfl
        cases h
    | _ =>
        rw [pruned] at hpruned
        · exact absurd (hpruned.symm.trans h) (by decide)
        all_goals exact fun _ heq => nomatch heq
  · rintro ⟨members, rfl, hne, hvacant⟩
    rw [pruned, vacant, vacant, prunedMembers_eq_nil_iff.mpr hvacant]
    exact ⟨List.isEmpty_eq_false_iff.mpr hne, rfl⟩

/-- No member of a pruned value is null, an empty text or an empty list. -/
theorem not_hasMember_pruned (json : Json) :
    ¬ json.pruned.HasMember fun member =>
      member = .null ∨ member = .text "" ∨ member = .array [] := by
  rw [hasMember_pruned]
  intro h
  obtain ⟨member, hvacant, hmember⟩ := h.exists_member
  have hpruned : member.pruned.vacant = true := by
    rcases hmember with hmember | hmember | hmember <;> rw [hmember] <;> rfl
  obtain ⟨members, rfl, -⟩ := vacant_pruned_iff.mp ⟨hvacant, hpruned⟩
  rw [pruned] at hmember
  rcases hmember with hmember | hmember | hmember <;> cases hmember

/-- A member of a pruned value is an empty object exactly when there was a hollow one. -/
theorem hasMember_pruned_empty (json : Json) :
    json.pruned.HasMember (fun member => member = .object []) ↔ json.HasMember Hollow := by
  rw [hasMember_pruned]
  have hsame : (fun member : Json => member.vacant = false ∧ member.pruned = .object []) =
      Hollow := by
    funext member
    rw [eq_iff_iff, ← vacant_pruned_iff]
    refine and_congr_right fun hvacant => ⟨fun heq => by rw [heq]; rfl, fun hpruned => ?_⟩
    obtain ⟨members, rfl, -, hall⟩ := vacant_pruned_iff.mp ⟨hvacant, hpruned⟩
    rw [pruned, prunedMembers_eq_nil_iff.mpr hall]
  rw [hsame]

/-- Pruning again changes nothing exactly when no member was hollow. -/
theorem pruned_pruned_iff (json : Json) :
    json.pruned.pruned = json.pruned ↔ ¬ json.HasMember Hollow := by
  have hsame : (fun member : Json => member.vacant = false ∧ member.pruned.vacant = true) =
      Hollow := funext fun _ => propext vacant_pruned_iff
  rw [pruned_eq_self_iff, hasMember_pruned, hsame]

end ScriptTree.Json
